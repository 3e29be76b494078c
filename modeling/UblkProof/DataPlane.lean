import UblkProof.BlockArray
import UblkProof.RequestPlaces

/-! # The data plane refines a byte array

A request takes effect when `handleIO` serves it.  Before that its descriptor and payload sit
where the kernel put them; after that its result sits in the worker's entry and, for a read,
its data in the tag's buffer, until the kernel has consumed the commit and copied the data
out.  Meanwhile other tags are served, other commands are submitted and other requests issued.

`Good` says what the kernel's and the worker's data hold for a tag at a place.  Only the steps
of a request touch that data, each for one tag; the others keep theirs because a tag is at one
place only and buffers do not overlap.
-/
namespace Ublk
open ByteMemory Runs
open Linearization (SeqObject Points Linearizes lins history)

/-! ## What the data hold for a tag -/

section
variable {dev : ArrayDevice} {w : Worker}

/-- The tag's buffer. -/
def Core.buf {β : Type} (s : Core β) (w : Worker) (t : Nat) : List UInt8 :=
  readBytes s.mem (w.bufAddr t) w.bufSize

/-- The request has been handed out and not yet served. -/
structure Handed {β : Type} (dev : ArrayDevice) (w : Worker) (s : Core β) (t id : Nat)
    (req : Request) : Prop where
  serving : s.serving t = some id
  invoked : .inv id req ∈ points s.log
  unserved : id ∉ lins (points s.log)
  admissible : req.Admissible dev.params
  desc : s.descs t = req.desc
  payload : req.desc.op = opWrite → (s.buf w t).take req.desc.length = req.payload

/-- The request has taken effect, and a commit of `result` makes the kernel give the right
answer. -/
structure Answers {β : Type} (dev : ArrayDevice) (w : Worker) (s : Core β) (t id : Nat)
    (result : Int32) (S : List (Nat × Request × Response)) (req : Request) : Prop where
  admissible : req.Admissible dev.params
  desc : s.descs t = req.desc
  effect : (id, req, req.desc.answer result (s.buf w t)) ∈ S

/-- What is known of tag `t` at each place: a result on its way back answers the request, and a
descriptor on its way to the worker is the one of its request. -/
def Good {β : Type} (dev : ArrayDevice) (w : Worker) (s : Core β)
    (S : List (Nat × Request × Response)) (t : Nat) : Place → Prop
  | .resting result => ∀ id, s.serving t = some id → ∃ req, Answers dev w s t id result S req
  | .pending => ∃ id req, Handed dev w s t id req
  | .gone => True

variable {β : Type} {s s' : Core β} {S S' : List (Nat × Request × Response)} {t : Nat} {p : Place}

/-- **The frame.**  What a tag's place says depends on the tag's own data only. -/
theorem Good.frame (h : Good dev w s S t p) (hserving : s'.serving t = s.serving t)
    (hdesc : s'.descs t = s.descs t) (hbuf : s'.buf w t = s.buf w t) (hS : S ⊆ S')
    (hpoints : points s.log ⊆ points s'.log)
    (hlins : ∀ id, s.serving t = some id → id ∉ lins (points s.log) →
      id ∉ lins (points s'.log)) : Good dev w s' S' t p := by
  cases p with
  | gone => trivial
  | resting result =>
    intro id hid
    rw [hserving] at hid
    obtain ⟨req, ha⟩ := h id hid
    exact ⟨req, ha.admissible, hdesc.trans ha.desc, hbuf.symm ▸ hS ha.effect⟩
  | pending =>
    obtain ⟨id, req, hh⟩ := h
    exact ⟨id, req, hserving.trans hh.serving, hpoints hh.invoked, hlins id hh.serving hh.unserved,
      hh.admissible, hdesc.trans hh.desc, fun hop => hbuf.symm ▸ hh.payload hop⟩

/-- The frame for a step the block layer sees as `e`. -/
theorem Good.frame_concat (h : Good dev w s S t p) (hserving : s'.serving t = s.serving t)
    (hdesc : s'.descs t = s.descs t) (hbuf : s'.buf w t = s.buf w t) (hS : S ⊆ S')
    {e : Linearization.Event Request Response} (hpoints : points s'.log = points s.log ++ [e])
    (hlin : ∀ id, s.serving t = some id → e ≠ .lin id) : Good dev w s' S' t p := by
  refine h.frame hserving hdesc hbuf hS ?_ ?_
  · rw [hpoints]
    exact List.subset_append_left _ _
  · intro id hid hnot hmem
    rw [hpoints, Linearization.lins_append, List.mem_append] at hmem
    rcases hmem with hold | hnew
    · exact hnot hold
    · have he := List.mem_singleton.mp (Linearization.mem_lins_iff.mp hnew)
      exact hlin id hid he.symm

/-- The numbers of the requests invoked stay below the next one. -/
theorem fresh_concat {E : List (Linearization.Event Request Response)} {n n' : Nat}
    (h : ∀ id req, .inv id req ∈ E → id < n) (hle : n ≤ n')
    {e : Linearization.Event Request Response} (he : ∀ id req, e = .inv id req → id < n') :
    ∀ id req, .inv id req ∈ E ++ [e] → id < n' := by
  intro id req hmem
  rcases List.mem_append.mp hmem with hold | hnew
  · exact Nat.lt_of_lt_of_le (h id req hold) hle
  · exact he id req (List.mem_singleton.mp hnew).symm

/-- Giving a tag the next number keeps the numbers apart. -/
theorem serving_update {serving : Nat → Option Nat} {n : Nat}
    (hlt : ∀ t id, serving t = some id → id < n)
    (hone : ∀ t t' id, serving t = some id → serving t' = some id → t = t') (u : Nat) :
    (∀ t id, Function.update serving u (some n) t = some id → id < n + 1) ∧
      ∀ t t' id, Function.update serving u (some n) t = some id →
        Function.update serving u (some n) t' = some id → t = t' := by
  -- a tag is `u` with the new number, or another with an old one
  have hcases : ∀ t id, Function.update serving u (some n) t = some id →
      (t = u ∧ id = n) ∨ serving t = some id := by
    intro t id hid
    by_cases ht : t = u
    · rw [ht, Function.update_self, Option.some_inj] at hid
      exact .inl ⟨ht, hid.symm⟩
    · rw [Function.update_of_ne ht] at hid
      exact .inr hid
  constructor
  · intro t id hid
    rcases hcases t id hid with ⟨-, rfl⟩ | hold
    · exact Nat.lt_succ_self _
    · exact Nat.lt_succ_of_lt (hlt t id hold)
  · intro t t' id hid hid'
    rcases hcases t id hid with ⟨rfl, rfl⟩ | hold
    · rcases hcases t' id hid' with ⟨rfl, -⟩ | hold'
      · rfl
      · exact absurd (hlt t' id hold') (Nat.lt_irrefl _)
    · rcases hcases t' id hid' with ⟨rfl, rfl⟩ | hold'
      · exact absurd (hlt t id hold) (Nat.lt_irrefl _)
      · exact hone t t' id hold hold'

/-- A store of at most a buffer's length to one tag's buffer leaves the others. -/
theorem buf_other (w : Worker) {t t' : Nat} (hne : t ≠ t') {bs : List UInt8}
    (hbs : bs.length ≤ w.bufSize)
    (hmem : s'.mem = writeBytes s.mem (w.bufAddr t') bs) : s'.buf w t = s.buf w t := by
  rw [Core.buf, hmem]
  refine readBytes_writeBytes_disjoint _ ?_
  unfold Worker.bufAddr
  rcases Nat.lt_or_gt_of_ne hne with hlt | hlt
  · have : (t + 1) * w.bufSize ≤ t' * w.bufSize := Nat.mul_le_mul_right _ hlt
    rw [Nat.succ_mul] at this
    exact .inl (by omega)
  · have : (t' + 1) * w.bufSize ≤ t * w.bufSize := Nat.mul_le_mul_right _ hlt
    rw [Nat.succ_mul] at this
    exact .inr (by omega)

/-! ## The invariant -/

/-- The operations served so far, in order, are a legal sequence that leads to the backend's
state, and every tag's data fit its place. -/
structure DataInv (dev : ArrayDevice) (w : Worker) (init : Bytes dev.size.toNat)
    (f : Flow (Bytes dev.size.toNat)) (S : List (Nat × Request × Response)) : Prop where
  points : Points (blockArray init) (points f.log) S
  state : (blockArray init).final init S = f.backend
  good : ∀ e ∈ f.places w, Good dev w f.toCore S e.1 e.2
  fresh : ∀ id req, .inv id req ∈ Ublk.points f.log → id < f.nextId
  served : ∀ t id, f.serving t = some id → id < f.nextId
  single : ∀ t t' id, f.serving t = some id → f.serving t' = some id → t = t'

variable {init : Bytes dev.size.toNat} {f f' : Flow (Bytes dev.size.toNat)} {a : Action}

namespace DataInv

theorem same (h : DataInv dev w init f S) (hplaces : f'.places w = f.places w)
    (hs : Flow.SameData f.toCore f'.toCore) : DataInv dev w init f' S where
  points := hs.points ▸ h.points
  state := hs.backend ▸ h.state
  good := by
    intro e he
    rw [hplaces] at he
    refine (h.good e he).frame (by rw [hs.serving]) (by rw [hs.descs]) ?_ (List.Subset.refl _)
      (by rw [hs.points]; exact List.Subset.refl _) (by rw [hs.points]; exact fun _ _ h => h)
    rw [Core.buf, Core.buf, hs.mem]
  fresh := by rw [hs.points, hs.nextId]; exact h.fresh
  served := by rw [hs.serving, hs.nextId]; exact h.served
  single := by rw [hs.serving]; exact h.single

/-- An operation that took effect was invoked. -/
theorem lin_lt (h : DataInv dev w init f S) {id : Nat} (hid : id ∈ lins (Ublk.points f.log)) :
    id < f.nextId := by
  rw [← h.points.order] at hid
  obtain ⟨e, he, rfl⟩ := List.mem_map.mp hid
  exact h.fresh _ _ (h.points.invoked e he)

/-- The kernel hands out a request. -/
theorem issue (h : DataInv dev w init f S) (hi : f.Inv w) (hbs : w.bufSize = dev.bufSize) {i : Nat}
    {c : Command} (hc : f.inflight[i]? = some c) {req : Request}
    (hreq : req.Admissible dev.params) :
    DataInv dev w init { f with toCore := f.toCore.issue i c req } S := by
  obtain ⟨htag, haddr, -⟩ := hi.command hc
  have hplaces := Flow.places_inflight (w := w) hc
  have hpoints : Ublk.points (f.toCore.issue i c req).log =
      Ublk.points f.log ++ [.inv f.nextId req] := points_concat _ _
  have hserv : (f.toCore.issue i c req).serving =
      Function.update f.serving c.tag (some f.nextId) := by rw [← htag]; rfl
  have hdescs : (f.toCore.issue i c req).descs = Function.update f.descs c.tag req.desc := by
    rw [← htag]; rfl
  have hmem : (f.toCore.issue i c req).mem =
      if req.desc.op = opWrite then writeBytes f.mem (w.bufAddr c.tag) req.payload else f.mem := by
    rw [← haddr]; rfl
  have hlen : req.desc.op = opWrite → req.desc.length ≤ w.bufSize := by
    intro hop
    rw [hbs]
    exact (ArrayDevice.length_le hreq).2 (.inr hop)
  obtain ⟨hserved, hsingle⟩ := serving_update h.served h.single c.tag
  -- the tag itself: the request is where the kernel put it
  have hself : Handed dev w (f.toCore.issue i c req) c.tag f.nextId req := by
    refine ⟨?_, ?_, ?_, hreq, ?_, fun hop => ?_⟩
    · rw [hserv, Function.update_self]
    · rw [hpoints]
      exact List.mem_append_right _ (List.mem_singleton.mpr rfl)
    · rw [hpoints, Linearization.lins_append, List.mem_append]
      rintro (hold | hnew)
      · exact Nat.lt_irrefl _ (h.lin_lt hold)
      · cases hnew
    · rw [hdescs, Function.update_self]
    · have hpay := hreq.payload hop
      rw [Core.buf, hmem, if_pos hop, take_readBytes _ _ (hlen hop),
        readBytes_writeBytes _ _ _ (Nat.le_of_eq hpay.symm), ← hpay, List.take_length]
  -- the buffers of the others
  have hbuf : ∀ t, t ≠ c.tag → (f.toCore.issue i c req).buf w t = f.toCore.buf w t := by
    intro t hne
    by_cases hop : req.desc.op = opWrite
    · exact buf_other w hne (by rw [hreq.payload hop]; exact hlen hop) (by rw [hmem, if_pos hop])
    · rw [Core.buf, hmem, if_neg hop]
      rfl
  refine ⟨hpoints ▸ h.points.concat_inv _ _, h.state, ?_, ?_, hserv ▸ hserved, hserv ▸ hsingle⟩
  · intro e he
    rw [Flow.places_issue hc] at he
    rcases Multiset.mem_cons.mp he with rfl | he
    · exact ⟨f.nextId, req, hself⟩
    · have hne : e.1 ≠ c.tag := hi.fst_ne hplaces he
      have hold := h.good e (by rw [hplaces]; exact Multiset.mem_cons_of_mem he)
      refine hold.frame_concat ?_ ?_ (hbuf e.1 hne) (List.Subset.refl _) hpoints
        fun _ _ h => by cases h
      · exact (congrFun hserv e.1).trans (Function.update_of_ne hne ..)
      · exact (congrFun hdescs e.1).trans (Function.update_of_ne hne ..)
  · show ∀ id req', .inv id req' ∈ Ublk.points (f.toCore.issue i c req).log → id < f.nextId + 1
    rw [hpoints]
    refine fresh_concat h.fresh (Nat.le_succ _) ?_
    rintro id req' ⟨⟩
    exact Nat.lt_succ_self _

/-- **`handleIO` is the linearization point.** -/
theorem serve (h : DataInv dev w init f S) (hi : f.Inv w) (hbs : w.bufSize = dev.bufSize)
    {tag : UInt16} (hpc : f.pc = .handle tag) {out : Handled (Bytes dev.size.toNat)}
    (hout : handleIO dev.backend w.bufSize (f.descs tag.toNat)
      (readBytes f.mem (w.bufAddr tag.toNat) w.bufSize) f.backend = some out) :
    ∃ S', DataInv dev w init { f with toCore := w.served f.toCore tag out } S' := by
  have hplaces : f.places w = (tag.toNat, .pending) ::ₘ f.placesOut :=
    Flow.places_hand (by rw [hpc]; rfl)
  obtain ⟨id, req, hh⟩ : Good dev w f.toCore S tag.toNat .pending :=
    h.good _ (by rw [hplaces]; exact Multiset.mem_cons_self _ _)
  -- the outcome is that of the array's operation
  have hpay := hh.payload
  rw [Core.buf, hbs] at hpay
  rw [hh.desc, hbs] at hout
  obtain ⟨out', hout', hlen, happly⟩ := ArrayDevice.handleIO_blockArray (b := f.backend)
    hh.admissible (length_readBytes f.mem (w.bufAddr tag.toNat) dev.bufSize) hpay init
  obtain rfl : out' = out := Option.some_inj.mp (hout'.symm.trans hout)
  have hpoints : Ublk.points (w.served f.toCore tag out').log =
      Ublk.points f.log ++ [.lin id] := by
    refine (points_concat _ _).trans ?_
    rw [hh.serving]
    rfl
  have hbuf : (w.served f.toCore tag out').buf w tag.toNat = out'.buf := by
    show readBytes (writeBytes f.mem _ out'.buf) _ _ = _
    rw [hbs, readBytes_writeBytes _ _ _ (Nat.le_of_eq hlen.symm), ← hlen, List.take_length]
  have happly' : (blockArray init).apply ((blockArray init).final (blockArray init).init S) req =
      (out'.backend, req.desc.answer out'.result out'.buf) := by
    rw [show (blockArray init).init = init from rfl, h.state, happly]
  refine ⟨S ++ [(id, req, req.desc.answer out'.result out'.buf)], ?_, ?_, ?_, ?_, h.served,
    h.single⟩
  · have := h.points.concat_lin hh.invoked hh.unserved
    rw [happly'] at this
    exact hpoints ▸ this
  · rw [SeqObject.final_concat]
    exact congrArg Prod.fst happly'
  · intro e he
    have he' : e ∈ (tag.toNat, Place.resting out'.result) ::ₘ f.placesOut := by
      rwa [Flow.places_hand (f := { f with toCore := w.served f.toCore tag out' }) rfl] at he
    rcases Multiset.mem_cons.mp he' with rfl | he'
    · intro id' hid'
      obtain rfl : id = id' := Option.some_inj.mp (hh.serving.symm.trans hid')
      refine ⟨req, hh.admissible, hh.desc, ?_⟩
      rw [hbuf]
      exact List.mem_append_right _ (List.mem_singleton.mpr rfl)
    · have hne : e.1 ≠ tag.toNat := hi.fst_ne hplaces he'
      have hold := h.good e (by rw [hplaces]; exact Multiset.mem_cons_of_mem he')
      refine hold.frame_concat rfl rfl ?_ (List.subset_append_left _ _) hpoints ?_
      · exact buf_other w hne (by rw [hlen, hbs]) rfl
      · -- a request of another tag is another request
        rintro id' hid' ⟨⟩
        exact hne (h.single _ _ id hid' hh.serving)
  · show ∀ id' req', .inv id' req' ∈ Ublk.points (w.served f.toCore tag out').log → id' < f.nextId
    rw [hpoints]
    exact fresh_concat h.fresh (Nat.le_refl _) fun _ _ h => by cases h

/-- The kernel ends a request with the answer it had when it took effect. -/
theorem respond (h : DataInv dev w init f S) (hi : f.Inv w) (hbs : w.bufSize = dev.bufSize)
    {i : Nat} {c : Command} (hc : f.inflight[i]? = some c) (hreq : c.request = none) {id : Nat}
    (hid : f.serving c.io.tag.toNat = some id) :
    DataInv dev w init { f with toCore := f.toCore.respond c id } S := by
  obtain ⟨htag, haddr, -⟩ := hi.command hc
  have hplace : c.place = (c.tag, .resting c.io.result) := by rw [Command.place, hreq]; rfl
  have hplaces : f.places w = (c.tag, .resting c.io.result) ::ₘ f.placesBut w i :=
    hplace ▸ Flow.places_inflight hc
  have hgood : Good dev w f.toCore S c.tag (.resting c.io.result) :=
    h.good _ (by rw [hplaces]; exact Multiset.mem_cons_self _ _)
  obtain ⟨req, ha⟩ := hgood id (htag ▸ hid)
  have hresp : f.toCore.response c (f.descs c.io.tag.toNat) =
      req.desc.answer c.io.result (f.toCore.buf w c.tag) := by
    rw [htag, ha.desc, Core.response, IODesc.answer, haddr]
    by_cases hop : req.desc.op = opRead
    · have hle : req.desc.length ≤ w.bufSize := by
        rw [hbs]
        exact (ArrayDevice.length_le ha.admissible).2 (.inl hop)
      rw [Core.buf, take_readBytes _ _ hle]
    · rw [if_neg (fun h => hop h.1), if_neg (fun h => hop h.1)]
  have hpoints : Ublk.points (f.toCore.respond c id).log = Ublk.points f.log ++
      [.res id (req.desc.answer c.io.result (f.toCore.buf w c.tag))] := by
    rw [← hresp]
    exact points_concat _ _
  have hserv : (f.toCore.respond c id).serving = Function.update f.serving c.tag none := by
    rw [← htag]; rfl
  have hserved : ∀ t id', (f.toCore.respond c id).serving t = some id' →
      f.serving t = some id' := by
    intro t id' h'
    rw [hserv] at h'
    by_cases ht : t = c.tag
    · rw [ht, Function.update_self] at h'
      cases h'
    · rwa [Function.update_of_ne ht] at h'
  refine ⟨hpoints ▸ h.points.concat_res ha.effect, h.state, ?_, ?_,
    fun t id' h' => h.served t id' (hserved t id' h'),
    fun t t' id' h1 h2 => h.single t t' id' (hserved t id' h1) (hserved t' id' h2)⟩
  · intro e he
    have he' : e ∈ f.places w := he
    have hold := h.good e he'
    rw [hplaces] at he'
    rcases Multiset.mem_cons.mp he' with rfl | he'
    · -- the tag itself has no request any more
      intro id' hid'
      have hnone : (f.toCore.respond c id).serving c.tag = some id' := hid'
      rw [hserv, Function.update_self] at hnone
      cases hnone
    · have hne : e.1 ≠ c.tag := hi.fst_ne hplaces he'
      have hother : (f.toCore.respond c id).serving e.1 = f.serving e.1 := by
        rw [hserv, Function.update_of_ne hne]
      exact hold.frame_concat hother rfl rfl (List.Subset.refl _) hpoints fun _ _ h => by cases h
  · show ∀ id' req', .inv id' req' ∈ Ublk.points (f.toCore.respond c id).log → id' < f.nextId
    rw [hpoints]
    exact fresh_concat h.fresh (Nat.le_refl _) fun _ _ h => by cases h

/-- The kernel posts a completion: it delivers a request, or gives the tag up. -/
theorem post (h : DataInv dev w init f S) {i : Nat} {c : Command} (hc : f.inflight[i]? = some c)
    {res : Int32} (flags : UInt32) (hok : 0 ≤ res → c.request.isSome) :
    DataInv dev w init { f with
      toCore := f.toCore.post i (c.cqe res flags)
      unread := f.unread ++ [c.cqe res flags] } S := by
  have hpoints : Ublk.points (f.toCore.post i (c.cqe res flags)).log = Ublk.points f.log :=
    (points_concat _ _).trans (List.append_nil _)
  have hkeep : ∀ e : Nat × Place, Good dev w f.toCore S e.1 e.2 →
      Good dev w (f.toCore.post i (c.cqe res flags)) S e.1 e.2 := fun e he =>
    he.frame rfl rfl rfl (List.Subset.refl _) (by rw [hpoints]; exact List.Subset.refl _)
      (by rw [hpoints]; exact fun _ _ h' => h')
  refine ⟨hpoints ▸ h.points, h.state, ?_, ?_, h.served, h.single⟩
  · intro e he
    rw [Flow.places_post] at he
    have hold := h.good
    rw [Flow.places_inflight hc] at hold
    rcases Multiset.mem_cons.mp he with rfl | he
    · by_cases hneg : res < 0
      · rw [CQE.place, show (c.cqe res flags).res = res from rfl, if_pos hneg]
        trivial
      · have hpend : c.place = (c.tag, .pending) := by
          rw [Command.place, if_pos (hok (Int32.not_lt.mp hneg))]
        have hcqe : (c.cqe res flags).place = (c.tag, .pending) := by
          rw [CQE.place, show (c.cqe res flags).res = res from rfl, if_neg hneg]
          rfl
        rw [hcqe, ← hpend]
        exact hkeep _ (hold _ (Multiset.mem_cons_self _ _))
    · exact hkeep e (hold e (Multiset.mem_cons_of_mem he))
  · intro id req hmem
    exact h.fresh id req (hpoints ▸ hmem)

/-- **One step.** -/
theorem step (h : DataInv dev w init f S) (hi : f.Inv w) (hbs : w.bufSize = dev.bufSize)
    (hok : Orderly dev.params f.toCore a) (hs : Flow.Step w dev.backend f a f') :
    ∃ S', DataInv dev w init f' S' := by
  rcases hi.step_cases hs with hr | ⟨hplaces, hsame⟩
  · cases hr with
    | issue hc => exact ⟨S, h.issue hi hbs hc hok⟩
    | serve hpc hlt hout => exact h.serve hi hbs hpc hout
    | respond hc hid => exact ⟨S, h.respond hi hbs hc (hok _ hc) hid⟩
    | post hc => exact ⟨S, h.post hc _ (hok _ hc)⟩
  · exact ⟨S, h.same hplaces hsame⟩

theorem boot (w : Worker) (b : Worker.Boot (Bytes dev.size.toNat)) :
    DataInv dev w b.backend (Flow.boot b) [] where
  points := .nil _
  state := rfl
  good := by
    intro e he
    -- every tag is in the hand of `init`, and none has a request
    have hplaces : (Flow.boot b).places w = (w.handPlaces (.init 0) : Multiset _) := by
      show ((([] : List (Nat × Place)) : Multiset _) + (([] : List (Nat × Place)) : Multiset _) +
        (([] : List (Nat × Place)) : Multiset _) + (([] : List (Nat × Place)) : Multiset _) +
        (w.handPlaces (.init 0) : Multiset (Nat × Place))) = _
      simp only [Multiset.coe_nil, Multiset.zero_add]
    rw [hplaces, Multiset.mem_coe] at he
    obtain ⟨t, -, rfl⟩ := List.mem_map.mp he
    intro id hid
    cases hid
  fresh := fun _ _ h => by cases h
  served := fun _ _ h => by cases h
  single := fun _ _ _ h _ => by cases h

end DataInv

theorem dataInv_of_path (hbs : w.bufSize = dev.bufSize) {b : Worker.Boot (Bytes dev.size.toNat)}
    {as : List Action}
    (h : Path (Flow.StepIf w dev.backend (Orderly dev.params)) (Flow.boot b) as f) :
    ∃ S, DataInv dev w b.backend f S := by
  refine Flow.holds_of_path (P := fun f => ∃ S, DataInv dev w b.backend f S)
    ⟨[], DataInv.boot w b⟩ ?_ h
  rintro f a f' hi ⟨S, hd⟩ hok hs
  exact hd.step hi hbs hok hs

/-! ## The result -/

/-- `S` lists the requests served in the run, in the order of the `handleIO` calls, each with
the answer of the sequential array; it linearizes what the block layer saw, and its final
array is the backend's. -/
structure RefinesArray (init : Bytes dev.size.toNat) (s : World (Bytes dev.size.toNat))
    (S : List (Nat × Request × Response)) : Prop where
  linearizes : Linearizes (blockArray init) (history (points s.log)) S
  order : S.map Prod.fst = lins (points s.log)
  state : (blockArray init).final init S = s.backend

/-- **The data plane refines a byte array.**  Whatever the number of tags, the order in which
the kernel issues requests, posts completions and consumes commits, and the length of the
run. -/
theorem data_plane_linearizable (dev : ArrayDevice) (w : Worker) (hbs : w.bufSize = dev.bufSize)
    (b : Worker.Boot (Bytes dev.size.toNat)) (hb : b.Fits w) (as : List Action)
    (s : World (Bytes dev.size.toNat)) (h : w.Run dev.backend (Orderly dev.params) b as s) :
    ∃ S, RefinesArray b.backend s S := by
  obtain ⟨k, kc, f, -, hp, hm, -⟩ := h.simulates hb
  obtain ⟨S, hd⟩ := dataInv_of_path hbs hp
  have hlog : s.log = f.log := congrArg Core.log hm.core
  have hback : s.backend = f.backend := congrArg Core.backend hm.core
  exact ⟨S, hlog ▸ hd.points.linearizes, hlog ▸ hd.points.order, hback ▸ hd.state⟩

end

/-! ## A small array -/

/-- Eight sectors, requests of one sector, three tags. -/
def ArrayDevice.small : ArrayDevice where
  cfg := ⟨512, 3, 512⟩
  size := 4096
  maxIOBufBytes := 512
  valid := Config.valid_of_validate (by decide +kernel)
  size_lt := by decide
  buf_le := by decide

/-- A small device at its start. -/
def ArrayDevice.smallBoot : Worker.Boot (Bytes ArrayDevice.small.size.toNat) :=
  ⟨⟨4, 8, 64, 64⟩, 0xFFFFFFFE, 0xFFFFFFFF, fun _ => 9, fun _ => SQE.zero 16, fun _ => ⟨9, -1, 0⟩,
    fun _ => 0, fun _ => ⟨0, 1, 0, 0⟩, fun _ => 0⟩

theorem ArrayDevice.small_fits : ArrayDevice.smallBoot.Fits Worker.small :=
  ⟨by decide +kernel, by decide, ⟨3, rfl⟩⟩

theorem ArrayDevice.small_bufSize : Worker.small.bufSize = ArrayDevice.small.bufSize := by decide

/-- A request for one sector. -/
def Request.sector (op : UInt32) (start : UInt64) (payload : List UInt8) : Request :=
  ⟨⟨op, 1, start, 0⟩, payload⟩

/-- One request on the first command in flight, from its issue to its response. -/
def Request.roundTrip (req : Request) : List Action :=
  [.issue 0 req, .post 0 0 0] ++ Worker.smallFirst ++
    [.work, .work, .enter (.consumed 1), .respond 2]

/-- A sector is written through tag 0 and then read through tag 1. -/
def ArrayDevice.smallRun : List Action :=
  Worker.smallStart (.consumed 3) ++
    ((Request.sector opWrite 1 (List.replicate 512 7)).roundTrip ++
      (Request.sector opRead 1 []).roundTrip)

theorem data_plane_linearizable_small : ∃ (s : World (Bytes ArrayDevice.small.size.toNat))
      (S : List (Nat × Request × Response)),
    Worker.small.Run ArrayDevice.small.backend (Orderly ArrayDevice.small.params)
      ArrayDevice.smallBoot ArrayDevice.smallRun s ∧
    s.pc = .waitCheck ∧ S.map Prod.fst = [0, 1] ∧
    RefinesArray ArrayDevice.smallBoot.backend s S := by
  have hex : ∃ s : World (Bytes ArrayDevice.small.size.toNat),
      Worker.small.Run ArrayDevice.small.backend (Orderly ArrayDevice.small.params)
        ArrayDevice.smallBoot ArrayDevice.smallRun s ∧
      (s.pc = .waitCheck ∧ lins (points s.log) = [0, 1]) :=
    exists_run_of_exec (fun s : World (Bytes ArrayDevice.small.size.toNat) =>
      s.pc = .waitCheck ∧ lins (points s.log) = [0, 1]) (by decide +kernel)
  obtain ⟨s, hr, hpc, hlins⟩ := hex
  obtain ⟨S, hS⟩ := data_plane_linearizable ArrayDevice.small Worker.small
    ArrayDevice.small_bufSize ArrayDevice.smallBoot ArrayDevice.small_fits _ s hr
  exact ⟨s, S, hr, hpc, hS.order.trans hlins, hS⟩

end Ublk
