import UblkProof.DataPlane

/-! # The device over any backend

Rings, tags, buffers and batches stand between the block layer and the backend.  None of it
shows: whatever the backend does, a run of the device is a run of the sequential object whose
operations are single calls of `handleIO` (`requestObject`).  That includes backends that fail,
reply short or keep state of their own, and requests of every kind: `DISCARD`, an operation
without a method, a length above the buffer.

The argument is about one tag at a time.  `View` is what the kernel and the worker keep for a
tag; each step of a request changes the view of one tag (`view_issue`, `view_served`,
`view_respond`), and `View.Fits` says what the view has to do with the place of the tag.
-/
namespace Ublk
open ByteMemory Runs
open Linearization (SeqObject Points Linearizes lins history)

/-! ## A request by itself -/

/-- The payload of a write is as long as its descriptor says, and the kernel copies no more
than the tag's buffer holds. -/
def Request.Fits (bufSize : Nat) (req : Request) : Prop :=
  req.desc.op = opWrite → req.payload.length = req.desc.length ∧ req.desc.length ≤ bufSize

instance (bufSize : Nat) (req : Request) : Decidable (req.Fits bufSize) :=
  inferInstanceAs (Decidable (_ → _))

/-- A buffer of zeroes, with the payload of a write at its start. -/
def Request.freshBuf (bufSize : Nat) (req : Request) : List UInt8 :=
  if req.desc.op = opWrite then
    req.payload ++ List.replicate (bufSize - req.payload.length) 0
  else
    List.replicate bufSize 0

section
variable {β : Type}

/-- **The sequential object**: one `handleIO` for each request, in a buffer nobody else uses.
(There is no slice out of range in such a buffer, `handleIO_total`.) -/
def requestObject (bk : Backend β) (bufSize : Nat) (init : β) : SeqObject β Request Response where
  init := init
  apply b req :=
    match handleIO bk bufSize req.desc (req.freshBuf bufSize) b with
    | none => (b, ⟨-eio, []⟩)
    | some out => (out.backend, req.desc.answer out.result out.buf)

/-- `io.ReaderAt`: what `ReadAt` replies and does is not up to the bytes it finds in the buffer,
and where it reports all of them it has written all of them. -/
structure Backend.IgnoresBuffer (bk : Backend β) : Prop where
  reply : ∀ b p p' off, p.length = p'.length → (bk.readAt b p off).1 = (bk.readAt b p' off).1
  state : ∀ b p p' off, p.length = p'.length →
    (bk.readAt b p off).2.2 = (bk.readAt b p' off).2.2
  data : ∀ b p p' off, p.length = p'.length → (bk.readAt b p off).1 = ⟨p.length, none⟩ →
    overwrite p (bk.readAt b p off).2.1 = overwrite p' (bk.readAt b p' off).2.1

/-- Requests that meet `R` are operations of `O`, when `handleIO` serves them over `bk`. -/
structure Serves (bk : Backend β) (bufSize : Nat) (R : Request → Prop)
    (O : SeqObject β Request Response) : Prop where
  fits : ∀ req, R req → req.Fits bufSize
  serve : ∀ b req buf, R req → buf.length = bufSize →
    (req.desc.op = opWrite → buf.take req.desc.length = req.payload) →
    ∃ out, handleIO bk bufSize req.desc buf b = some out ∧ out.buf.length = bufSize ∧
      O.apply b req = (out.backend, req.desc.answer out.result out.buf)

/-! ### What `handleIO` takes from the buffer -/

theorem length_overwrite (old new : List UInt8) : (overwrite old new).length = old.length := by
  rw [overwrite, List.length_append, List.length_take, List.length_drop]
  omega

variable {bk : Backend β} {bufSize : Nat} {d : IODesc} {b : β}

/-- It leaves a buffer of the same length. -/
theorem handleIO_length {buf : List UInt8} {out : Handled β} (hbuf : buf.length = bufSize)
    (h : handleIO bk bufSize d buf b = some out) : out.buf.length = bufSize := by
  unfold handleIO at h
  split_ifs at h with hr h0 hle hw h0 hle hd h0 hz h0
  · cases h; exact hbuf
  · cases h; exact hbuf
  · obtain ⟨p, hp, rfl⟩ := Option.map_eq_some_iff.mp h
    rw [sliceTo_of_le (Nat.not_lt.mp hle) hbuf] at hp
    cases hp
    show (overwrite _ _ ++ buf.drop d.length).length = bufSize
    rw [List.length_append, length_overwrite, List.length_take, List.length_drop]
    omega
  · cases h; exact hbuf
  · cases h; exact hbuf
  · obtain ⟨p, -, rfl⟩ := Option.map_eq_some_iff.mp h
    exact hbuf
  · cases hf : bk.discardAt <;> rw [hf] at h <;> cases h <;> exact hbuf
  · cases hf : bk.discardAt <;> rw [hf] at h <;> cases h <;> exact hbuf
  · cases hf : bk.writeZeroesAt <;> rw [hf] at h <;> cases h <;> exact hbuf
  · cases hf : bk.writeZeroesAt <;> rw [hf] at h <;> cases h <;> exact hbuf
  · cases h; exact hbuf

/-- A read that is committed in full was not longer than the buffer. -/
theorem handleIO_full_read {buf : List UInt8} {out : Handled β} (hop : d.op = opRead)
    (h : handleIO bk bufSize d buf b = some out) (hfull : out.result.toInt = d.length) :
    d.length ≤ bufSize := by
  by_contra hlt
  have hgt : d.length > bufSize := Nat.not_le.mp hlt
  unfold handleIO at h
  rw [if_pos hop, if_neg (by omega), if_pos hgt] at h
  cases h
  have hneg : ((-eio : Int32)).toInt = -5 := by decide
  rw [hneg] at hfull
  omega

/-- A reply that makes the result the full length is a full reply. -/
theorem reply_of_full {length : Nat} {r : Reply} (h : (ioResult length r).toInt = length) :
    r = ⟨length, none⟩ := by
  rw [ioResult] at h
  split_ifs at h with hr
  · have : ((-eio : Int32)).toInt = -5 := by decide
    omega
  · obtain ⟨herr, hn⟩ := not_or.mp hr
    cases r with | mk n err =>
      cases err with
      | none => exact congrArg (Reply.mk · none) (not_not.mp hn)
      | some e => exact absurd rfl herr

/-- Other operations leave the buffer as they find it, and only a write looks at it. -/
theorem handleIO_unread {buf buf' : List UInt8} (hr : d.op ≠ opRead) (hbuf : buf.length = bufSize)
    (hbuf' : buf'.length = bufSize)
    (hpay : d.op = opWrite → buf.take d.length = buf'.take d.length) {out : Handled β}
    (h : handleIO bk bufSize d buf b = some out) :
    handleIO bk bufSize d buf' b = some { out with buf := buf' } := by
  unfold handleIO at h ⊢
  rw [if_neg hr] at h ⊢
  split_ifs at h ⊢ with hw h0 hle hd h0 hz h0
  · cases h; rfl
  · cases h; rfl
  · rw [sliceTo_of_le (Nat.not_lt.mp hle) hbuf] at h
    rw [sliceTo_of_le (Nat.not_lt.mp hle) hbuf', ← hpay hw]
    cases h
    rfl
  · cases hf : bk.discardAt <;> rw [hf] at h <;> cases h <;> rfl
  · cases hf : bk.discardAt <;> rw [hf] at h <;> cases h <;> rfl
  · cases hf : bk.writeZeroesAt <;> rw [hf] at h <;> cases h <;> rfl
  · cases hf : bk.writeZeroesAt <;> rw [hf] at h <;> cases h <;> rfl
  · cases h; rfl

/-- **Two buffers that start with the same payload make no difference.** -/
theorem handleIO_buffer (hbk : bk.IgnoresBuffer) {buf buf' : List UInt8}
    (hbuf : buf.length = bufSize) (hbuf' : buf'.length = bufSize)
    (hpay : d.op = opWrite → buf.take d.length = buf'.take d.length) {out out' : Handled β}
    (h : handleIO bk bufSize d buf b = some out) (h' : handleIO bk bufSize d buf' b = some out') :
    out.backend = out'.backend ∧ d.answer out.result out.buf = d.answer out'.result out'.buf := by
  by_cases hr : d.op = opRead
  · by_cases h0 : d.length = 0
    · unfold handleIO at h h'
      rw [if_pos hr, if_pos h0] at h h'
      cases h
      cases h'
      simp only [IODesc.answer, h0, List.take_zero, and_self]
    · by_cases hle : d.length ≤ bufSize
      · have hlen : (buf.take d.length).length = (buf'.take d.length).length := by
          rw [List.length_take, List.length_take, hbuf, hbuf']
        have hlen' : (buf.take d.length).length = d.length := by rw [List.length_take]; omega
        rw [handleIO_read hr h0 hle hbuf] at h
        rw [handleIO_read hr h0 hle hbuf'] at h'
        cases h
        cases h'
        refine ⟨hbk.state _ _ _ _ hlen, ?_⟩
        rw [IODesc.answer, IODesc.answer, ← hbk.reply _ _ _ _ hlen]
        refine congrArg (Response.mk _) ?_
        by_cases hfull : (ioResult d.length (bk.readAt b (buf.take d.length) d.offset).1).toInt =
          d.length
        · have hreply : (bk.readAt b (buf.take d.length) d.offset).1 =
              ⟨(buf.take d.length).length, none⟩ := by rw [hlen']; exact reply_of_full hfull
          rw [if_pos ⟨hr, hfull⟩, if_pos ⟨hr, hfull⟩, hbk.data _ _ _ _ hlen hreply,
            List.take_left' (by rw [length_overwrite, ← hlen, hlen']),
            List.take_left' (by rw [length_overwrite, ← hlen, hlen'])]
        · rw [if_neg (fun h => hfull h.2), if_neg (fun h => hfull h.2)]
      · unfold handleIO at h h'
        rw [if_pos hr, if_neg h0, if_pos (Nat.not_le.mp hle)] at h h'
        cases h
        cases h'
        have hneg : ((-eio : Int32)).toInt ≠ d.length := by
          have : ((-eio : Int32)).toInt = -5 := by decide
          omega
        simp only [IODesc.answer, hneg, and_false, if_false, and_self]
  · rw [handleIO_unread hr hbuf hbuf' hpay h] at h'
    cases h'
    simp only [IODesc.answer, hr, false_and, if_false, and_self]

theorem Request.length_freshBuf {req : Request} (h : req.Fits bufSize) :
    (req.freshBuf bufSize).length = bufSize := by
  unfold freshBuf
  split_ifs with hop
  · obtain ⟨hlen, hle⟩ := h hop
    rw [List.length_append, List.length_replicate, hlen]
    omega
  · rw [List.length_replicate]

/-- **Over any backend, `handleIO` in a tag's buffer is `handleIO` in a fresh one.** -/
theorem serves_requestObject (hbk : bk.IgnoresBuffer) (init : β) :
    Serves bk bufSize (Request.Fits bufSize) (requestObject bk bufSize init) where
  fits _ h := h
  serve b req buf hreq hbuf hpay := by
    have hfresh := Request.length_freshBuf hreq
    obtain ⟨out, hout⟩ := handleIO_total bk req.desc hbuf b
    obtain ⟨out', hout'⟩ := handleIO_total bk req.desc hfresh b
    have hsame : req.desc.op = opWrite →
        buf.take req.desc.length = (req.freshBuf bufSize).take req.desc.length := by
      intro hop
      rw [hpay hop, Request.freshBuf, if_pos hop, List.take_left' (hreq hop).1]
    obtain ⟨hb, hans⟩ := handleIO_buffer hbk hbuf hfresh hsame hout hout'
    refine ⟨out, hout, handleIO_length hbuf hout, ?_⟩
    simp only [requestObject, hout', hb, hans]

/-! ## What is kept for a tag -/

/-- The request the kernel has open on a tag, the tag's descriptor and its buffer. -/
structure View where
  serving : Option Nat
  desc : IODesc
  buf : List UInt8

/-- The request, the descriptor and the buffer of tag `t`. -/
def Core.view (s : Core β) (w : Worker) (t : Nat) : View := ⟨s.serving t, s.descs t, s.buf w t⟩

namespace View
variable {R : Request → Prop} {E E' : List (Linearization.Event Request Response)}
  {S S' : List (Nat × Request × Response)}

/-- A request that has been handed out has not taken effect, and sits where the kernel put it;
one that has taken effect will be answered from here if its result is committed. -/
def Fits (bufSize : Nat) (R : Request → Prop) (E : List (Linearization.Event Request Response))
    (S : List (Nat × Request × Response)) (v : View) : Place → Prop
  | .resting result => ∀ id, v.serving = some id → ∃ req : Request, v.desc = req.desc ∧
      (id, req, req.desc.answer result v.buf) ∈ S ∧
      (req.desc.op = opRead → result.toInt = req.desc.length → req.desc.length ≤ bufSize)
  | .pending => ∃ id req, v.serving = some id ∧ .inv id req ∈ E ∧ id ∉ lins E ∧ R req ∧
      v.desc = req.desc ∧ (req.desc.op = opWrite → v.buf.take req.desc.length = req.payload)
  | .gone => True

/-- The history goes on without the tag's request. -/
theorem Fits.mono {v : View} {p : Place} (h : v.Fits bufSize R E S p) (hE : E ⊆ E') (hS : S ⊆ S')
    (hlins : ∀ id, v.serving = some id → id ∉ lins E → id ∉ lins E') :
    v.Fits bufSize R E' S' p := by
  cases p with
  | gone => trivial
  | resting result =>
    intro id hid
    obtain ⟨req, hdesc, hmem, hfull⟩ := h id hid
    exact ⟨req, hdesc, hS hmem, hfull⟩
  | pending =>
    obtain ⟨id, req, hid, hinv, hnot, hrest⟩ := h
    exact ⟨id, req, hid, hE hinv, hlins id hid hnot, hrest⟩

end View

/-! ### Each step of a request changes the view of one tag -/

variable {w : Worker} {f f' : Flow β} {R : Request → Prop} {i : Nat} {c : Command} {req : Request}

theorem view_issue (hi : f.Inv w) (hc : f.inflight[i]? = some c) (hreq : req.Fits w.bufSize) :
    (∀ t, t ≠ c.tag → (f.toCore.issue i c req).view w t = f.toCore.view w t) ∧
      ∃ buf, (f.toCore.issue i c req).view w c.tag = ⟨some f.nextId, req.desc, buf⟩ ∧
        (req.desc.op = opWrite → buf.take req.desc.length = req.payload) := by
  obtain ⟨htag, haddr, -⟩ := hi.command hc
  have hmem : (f.toCore.issue i c req).mem =
      if req.desc.op = opWrite then writeBytes f.mem (w.bufAddr c.tag) req.payload else f.mem := by
    rw [← haddr]; rfl
  constructor
  · intro t ht
    have hbuf : (f.toCore.issue i c req).buf w t = f.toCore.buf w t := by
      by_cases hop : req.desc.op = opWrite
      · obtain ⟨hlen, hle⟩ := hreq hop
        exact buf_other w ht (hlen ▸ hle) (by rw [hmem, if_pos hop])
      · rw [Core.buf, hmem, if_neg hop]
        rfl
    rw [Core.view, Core.view, hbuf]
    show View.mk (Function.update f.serving c.io.tag.toNat _ t)
      (Function.update f.descs c.io.tag.toNat _ t) _ = _
    rw [htag, Function.update_of_ne ht, Function.update_of_ne ht]
  · refine ⟨(f.toCore.issue i c req).buf w c.tag, ?_, fun hop => ?_⟩
    · show View.mk (Function.update f.serving c.io.tag.toNat _ c.tag)
        (Function.update f.descs c.io.tag.toNat _ c.tag) _ = _
      rw [htag, Function.update_self, Function.update_self]
    · obtain ⟨hlen, hle⟩ := hreq hop
      rw [Core.buf, hmem, if_pos hop, take_readBytes _ _ hle,
        readBytes_writeBytes _ _ _ (Nat.le_of_eq hlen.symm), ← hlen, List.take_length]

theorem view_served (f : Flow β) (tag : UInt16) {out : Handled β}
    (hlen : out.buf.length = w.bufSize) :
    (∀ t, t ≠ tag.toNat → (w.served f.toCore tag out).view w t = f.toCore.view w t) ∧
      (w.served f.toCore tag out).view w tag.toNat =
        ⟨f.serving tag.toNat, f.descs tag.toNat, out.buf⟩ := by
  constructor
  · intro t ht
    have hbuf : (w.served f.toCore tag out).buf w t = f.toCore.buf w t :=
      buf_other w ht (Nat.le_of_eq hlen) rfl
    rw [Core.view, Core.view, hbuf]
    rfl
  · have hbuf : (w.served f.toCore tag out).buf w tag.toNat = out.buf := by
      show readBytes (writeBytes f.mem _ out.buf) _ _ = _
      rw [readBytes_writeBytes _ _ _ (Nat.le_of_eq hlen.symm), ← hlen, List.take_length]
    rw [Core.view, hbuf]
    rfl

theorem view_respond (hi : f.Inv w) (hc : f.inflight[i]? = some c) (id : Nat) :
    (∀ t, t ≠ c.tag → (f.toCore.respond c id).view w t = f.toCore.view w t) ∧
      ((f.toCore.respond c id).view w c.tag).serving = none := by
  obtain ⟨htag, -, -⟩ := hi.command hc
  have hserv : (f.toCore.respond c id).serving = Function.update f.serving c.tag none := by
    rw [← htag]; rfl
  constructor
  · intro t ht
    rw [Core.view, Core.view, hserv, Function.update_of_ne ht]
    rfl
  · rw [Core.view, hserv, Function.update_self]

/-- What the kernel hands out when it ends a request. -/
theorem response_eq (hi : f.Inv w) (hc : f.inflight[i]? = some c)
    (hdesc : f.descs c.tag = req.desc)
    (hfull : req.desc.op = opRead → c.io.result.toInt = req.desc.length →
      req.desc.length ≤ w.bufSize) :
    f.toCore.response c (f.descs c.io.tag.toNat) =
      req.desc.answer c.io.result (f.toCore.buf w c.tag) := by
  obtain ⟨htag, haddr, -⟩ := hi.command hc
  rw [htag, hdesc, Core.response, IODesc.answer, haddr]
  by_cases hr : req.desc.op = opRead ∧ c.io.result.toInt = req.desc.length
  · rw [if_pos hr, if_pos hr, Core.buf, take_readBytes _ _ (hfull hr.1 hr.2)]
  · rw [if_neg hr, if_neg hr]

/-! ## The invariant -/

/-- The operations served so far, in order, are a legal sequence of `O` that leads to the
backend's state, and every tag's view fits its place. -/
structure ObjectInv (w : Worker) (R : Request → Prop) (O : SeqObject β Request Response)
    (f : Flow β) (S : List (Nat × Request × Response)) : Prop where
  points : Points O (points f.log) S
  state : O.final O.init S = f.backend
  fits : ∀ e ∈ f.places w, (f.toCore.view w e.1).Fits w.bufSize R (Ublk.points f.log) S e.2
  fresh : ∀ id req, .inv id req ∈ Ublk.points f.log → id < f.nextId
  served : ∀ t id, f.serving t = some id → id < f.nextId
  single : ∀ t t' id, f.serving t = some id → f.serving t' = some id → t = t'
  sent : ∀ e ∈ S, R e.2.1

/-- The kernel sends requests that meet `R`, posts a non-negative completion only to deliver a
request, and ends a request only by the command that committed it. -/
def Sends (R : Request → Prop) (s : Core β) : Action → Prop
  | .issue _ req => R req
  | .respond i => ∀ c ∈ s.inflight[i]?, c.request = none
  | .post i res _ => ∀ c ∈ s.inflight[i]?, 0 ≤ res → c.request.isSome
  | _ => True

instance [DecidablePred R] (s : Core β) : DecidablePred (Sends R s)
  | .issue _ req => inferInstanceAs (Decidable (R req))
  | .respond i => inferInstanceAs (Decidable (∀ c ∈ s.inflight[i]?, c.request = none))
  | .post i res _ =>
      inferInstanceAs (Decidable (∀ c ∈ s.inflight[i]?, 0 ≤ res → c.request.isSome))
  | .work | .enter _ | .epoll _ | .signal | .receive | .cancelStore | .cancelWake =>
      inferInstanceAs (Decidable True)

namespace ObjectInv
variable {O : SeqObject β Request Response} {S S' : List (Nat × Request × Response)}
  {E : List (Linearization.Event Request Response)} {a : Action}

theorem lin_lt (h : ObjectInv w R O f S) {id : Nat} (hid : id ∈ lins (Ublk.points f.log)) :
    id < f.nextId := by
  rw [← h.points.order] at hid
  obtain ⟨e, he, rfl⟩ := List.mem_map.mp hid
  exact h.fresh _ _ (h.points.invoked e he)

/-- **One tag moves.**  The others are as they were: their views are, and what takes effect
meanwhile is not theirs. -/
theorem fits_move (h : ObjectInv w R O f S) (hi : f.Inv w) {t : Nat} {p p' : Place}
    {rest : Multiset (Nat × Place)} (hold : f.places w = (t, p) ::ₘ rest)
    (hnew : f'.places w = (t, p') ::ₘ rest)
    (hview : ∀ u, u ≠ t → f'.toCore.view w u = f.toCore.view w u)
    (hpoints : Ublk.points f'.log = Ublk.points f.log ++ E) (hS : S ⊆ S')
    (hlin : ∀ u id, u ≠ t → f.serving u = some id → .lin id ∉ E)
    (hself : (f'.toCore.view w t).Fits w.bufSize R (Ublk.points f'.log) S' p') :
    ∀ e ∈ f'.places w, (f'.toCore.view w e.1).Fits w.bufSize R (Ublk.points f'.log) S' e.2 := by
  intro e he
  rw [hnew] at he
  rcases Multiset.mem_cons.mp he with rfl | he
  · exact hself
  · have hne : e.1 ≠ t := hi.fst_ne hold he
    rw [hview e.1 hne]
    refine (h.fits e (by rw [hold]; exact Multiset.mem_cons_of_mem he)).mono ?_ hS ?_
    · rw [hpoints]
      exact List.subset_append_left _ _
    · intro id hid hnot hmem
      rw [hpoints, Linearization.lins_append, List.mem_append] at hmem
      rcases hmem with hmem | hmem
      · exact hnot hmem
      · exact hlin e.1 id hne hid (Linearization.mem_lins_iff.mp hmem)

theorem same (h : ObjectInv w R O f S) (hplaces : f'.places w = f.places w)
    (hs : Flow.SameData f.toCore f'.toCore) : ObjectInv w R O f' S where
  points := hs.points ▸ h.points
  state := hs.backend ▸ h.state
  fits := by
    intro e he
    have hview : f'.toCore.view w e.1 = f.toCore.view w e.1 := by
      rw [Core.view, Core.view, Core.buf, Core.buf, hs.serving, hs.descs, hs.mem]
    rw [hview, hs.points]
    exact h.fits e (hplaces ▸ he)
  fresh := by rw [hs.points, hs.nextId]; exact h.fresh
  served := by rw [hs.serving, hs.nextId]; exact h.served
  single := by rw [hs.serving]; exact h.single
  sent := h.sent

/-- The kernel hands out a request. -/
theorem issue (h : ObjectInv w R O f S) (hi : f.Inv w) (hc : f.inflight[i]? = some c)
    (hR : R req) (hreq : req.Fits w.bufSize) :
    ObjectInv w R O { f with toCore := f.toCore.issue i c req } S := by
  obtain ⟨htag, -, -⟩ := hi.command hc
  obtain ⟨hview, buf, hself, hpay⟩ := view_issue hi hc hreq
  have hpoints : Ublk.points (f.toCore.issue i c req).log =
      Ublk.points f.log ++ [.inv f.nextId req] := points_concat _ _
  have hserv : (f.toCore.issue i c req).serving =
      Function.update f.serving c.tag (some f.nextId) := by rw [← htag]; rfl
  obtain ⟨hserved, hsingle⟩ := serving_update h.served h.single c.tag
  refine ⟨hpoints ▸ h.points.concat_inv _ _, h.state, ?_, ?_, hserv ▸ hserved, hserv ▸ hsingle,
    h.sent⟩
  · refine h.fits_move hi (Flow.places_inflight hc) (Flow.places_issue hc req) hview hpoints
      (List.Subset.refl _) (fun _ _ _ _ hmem => by simp at hmem) ?_
    show View.Fits _ _ _ _ ((f.toCore.issue i c req).view w c.tag) .pending
    rw [hself]
    refine ⟨f.nextId, req, rfl, ?_, ?_, hR, rfl, hpay⟩
    · show _ ∈ Ublk.points (f.toCore.issue i c req).log
      rw [hpoints]
      exact List.mem_append_right _ (List.mem_singleton.mpr rfl)
    · -- no request with this number has been seen before
      show _ ∉ lins (Ublk.points (f.toCore.issue i c req).log)
      rw [hpoints, Linearization.lins_append, List.mem_append]
      rintro (hold | hnew)
      · exact Nat.lt_irrefl _ (h.lin_lt hold)
      · cases hnew
  · show ∀ id req', .inv id req' ∈ Ublk.points (f.toCore.issue i c req).log → id < f.nextId + 1
    rw [hpoints]
    refine fresh_concat h.fresh (Nat.le_succ _) ?_
    rintro id req' ⟨⟩
    exact Nat.lt_succ_self _

/-- **`handleIO` is the linearization point.** -/
theorem serve (h : ObjectInv w R O f S) (hi : f.Inv w) (hO : Serves bk w.bufSize R O)
    {tag : UInt16} (hpc : f.pc = .handle tag) {out : Handled β}
    (hout : handleIO bk w.bufSize (f.descs tag.toNat)
      (readBytes f.mem (w.bufAddr tag.toNat) w.bufSize) f.backend = some out) :
    ∃ S', ObjectInv w R O { f with toCore := w.served f.toCore tag out } S' := by
  have hplaces : f.places w = (tag.toNat, .pending) ::ₘ f.placesOut :=
    Flow.places_hand (by rw [hpc]; rfl)
  obtain ⟨id, req, hid, hinv, hnot, hR, hdesc, hpay⟩ : (f.toCore.view w tag.toNat).Fits w.bufSize R
      (Ublk.points f.log) S .pending := h.fits _ (by rw [hplaces]; exact Multiset.mem_cons_self _ _)
  have hdesc : f.descs tag.toNat = req.desc := hdesc
  -- the outcome is that of the object's operation
  rw [hdesc] at hout
  obtain ⟨out', hout', hlen, happly⟩ := hO.serve f.backend req _ hR
    (length_readBytes f.mem (w.bufAddr tag.toNat) w.bufSize) hpay
  obtain rfl : out' = out := Option.some_inj.mp (hout'.symm.trans hout)
  obtain ⟨hview, hself⟩ := view_served f tag hlen
  have hpoints : Ublk.points (w.served f.toCore tag out').log =
      Ublk.points f.log ++ [.lin id] := by
    refine (points_concat _ _).trans ?_
    rw [show f.serving tag.toNat = some id from hid]
    rfl
  have happly' : O.apply (O.final O.init S) req =
      (out'.backend, req.desc.answer out'.result out'.buf) := by rw [h.state, happly]
  refine ⟨S ++ [(id, req, req.desc.answer out'.result out'.buf)], ?_, ?_, ?_, ?_, h.served,
    h.single, ?_⟩
  · have := h.points.concat_lin hinv hnot
    rw [happly'] at this
    exact hpoints ▸ this
  · rw [SeqObject.final_concat]
    exact congrArg Prod.fst happly'
  · have hnew : Flow.places w { f with toCore := w.served f.toCore tag out' } =
        (tag.toNat, .resting out'.result) ::ₘ f.placesOut := Flow.places_hand rfl
    refine h.fits_move hi hplaces hnew hview hpoints (List.subset_append_left _ _) ?_ ?_
    · -- a request of another tag is another request
      intro u id' hne hid' hmem
      obtain rfl : id' = id := by simpa using hmem
      exact hne (h.single _ _ _ hid' hid)
    · show View.Fits _ _ _ _ ((w.served f.toCore tag out').view w tag.toNat) (.resting out'.result)
      rw [hself]
      intro id' hid'
      obtain rfl : id = id' := Option.some_inj.mp (Eq.trans (Eq.symm hid) hid')
      exact ⟨req, hdesc, List.mem_append_right _ (List.mem_singleton.mpr rfl),
        fun hop hfull => handleIO_full_read hop hout hfull⟩
  · show ∀ id' req', .inv id' req' ∈ Ublk.points (w.served f.toCore tag out').log → id' < f.nextId
    rw [hpoints]
    exact fresh_concat h.fresh (Nat.le_refl _) fun _ _ h => by cases h
  · intro e he
    rcases List.mem_append.mp he with he | he
    · exact h.sent e he
    · rw [List.mem_singleton.mp he]
      exact hR

/-- The kernel ends a request with the answer it had when it took effect. -/
theorem respond (h : ObjectInv w R O f S) (hi : f.Inv w) (hc : f.inflight[i]? = some c)
    (hreq : c.request = none) {id : Nat} (hid : f.serving c.io.tag.toNat = some id) :
    ObjectInv w R O { f with toCore := f.toCore.respond c id } S := by
  obtain ⟨htag, -, -⟩ := hi.command hc
  have hplace : c.place = (c.tag, .resting c.io.result) := by rw [Command.place, hreq]; rfl
  have hplaces : f.places w = (c.tag, .resting c.io.result) ::ₘ f.placesBut w i :=
    hplace ▸ Flow.places_inflight hc
  have hresting : (f.toCore.view w c.tag).Fits w.bufSize R (Ublk.points f.log) S
      (.resting c.io.result) := h.fits _ (by rw [hplaces]; exact Multiset.mem_cons_self _ _)
  obtain ⟨req, hdesc, hmem, hfull⟩ := hresting id (htag ▸ hid)
  have hpoints : Ublk.points (f.toCore.respond c id).log = Ublk.points f.log ++
      [.res id (req.desc.answer c.io.result (f.toCore.buf w c.tag))] := by
    rw [← response_eq hi hc hdesc hfull]
    exact points_concat _ _
  obtain ⟨hview, hself⟩ := view_respond hi hc id
  have hserved : ∀ t id', (f.toCore.respond c id).serving t = some id' →
      f.serving t = some id' := by
    intro t id' h'
    by_cases ht : t = c.tag
    · rw [ht, show (f.toCore.respond c id).serving c.tag = none from hself] at h'
      cases h'
    · rwa [show (f.toCore.respond c id).serving t = f.serving t from
        congrArg View.serving (hview t ht)] at h'
  refine ⟨hpoints ▸ h.points.concat_res hmem, h.state, ?_, ?_,
    fun t id' h' => h.served t id' (hserved t id' h'),
    fun t t' id' h1 h2 => h.single t t' id' (hserved t id' h1) (hserved t' id' h2), h.sent⟩
  · refine h.fits_move hi hplaces hplaces hview hpoints (List.Subset.refl _)
      (fun _ _ _ _ hmem => by simp at hmem) ?_
    intro id' hid'
    rw [show _ = none from hself] at hid'
    cases hid'
  · show ∀ id' req', .inv id' req' ∈ Ublk.points (f.toCore.respond c id).log → id' < f.nextId
    rw [hpoints]
    exact fresh_concat h.fresh (Nat.le_refl _) fun _ _ h => by cases h

/-- The kernel posts a completion: it delivers a request, or gives the tag up. -/
theorem post (h : ObjectInv w R O f S) (hi : f.Inv w) (hc : f.inflight[i]? = some c)
    {res : Int32} (flags : UInt32) (hok : 0 ≤ res → c.request.isSome) :
    ObjectInv w R O { f with
      toCore := f.toCore.post i (c.cqe res flags)
      unread := f.unread ++ [c.cqe res flags] } S := by
  have hpoints : Ublk.points (f.toCore.post i (c.cqe res flags)).log = Ublk.points f.log ++ [] :=
    points_concat _ _
  have hold := Flow.places_inflight (w := w) hc
  have hmine : (f.toCore.view w c.tag).Fits w.bufSize R (Ublk.points f.log) S c.place.2 :=
    h.fits c.place (by rw [hold]; exact Multiset.mem_cons_self _ _)
  refine ⟨?_, h.state, ?_, fun id req hmem => h.fresh id req ?_, h.served, h.single, h.sent⟩
  · exact hpoints ▸ (List.append_nil (Ublk.points f.log)).symm ▸ h.points
  · refine h.fits_move hi hold (Flow.places_post res flags) (fun _ _ => rfl) hpoints
      (List.Subset.refl _) (fun _ _ _ _ hmem => by simp at hmem) ?_
    show View.Fits _ _ (Ublk.points (f.toCore.post i (c.cqe res flags)).log) _
      (f.toCore.view w c.tag) (if res < 0 then .gone else .pending)
    rw [hpoints, List.append_nil]
    split_ifs with hneg
    · trivial
    · rwa [Command.place, if_pos (hok (Int32.not_lt.mp hneg))] at hmine
  · have hmem : .inv id req ∈ Ublk.points (f.toCore.post i (c.cqe res flags)).log := hmem
    rwa [hpoints, List.append_nil] at hmem

/-- **One step.** -/
theorem step (h : ObjectInv w R O f S) (hi : f.Inv w) (hO : Serves bk w.bufSize R O)
    (hok : Sends R f.toCore a) (hs : Flow.Step w bk f a f') : ∃ S', ObjectInv w R O f' S' := by
  rcases hi.step_cases hs with hr | ⟨hplaces, hsame⟩
  · cases hr with
    | issue hc => exact ⟨S, h.issue hi hc hok (hO.fits _ hok)⟩
    | serve hpc hlt hout => exact h.serve hi hO hpc hout
    | respond hc hid => exact ⟨S, h.respond hi hc (hok _ hc) hid⟩
    | post hc => exact ⟨S, h.post hi hc _ (hok _ hc)⟩
  · exact ⟨S, h.same hplaces hsame⟩

theorem boot (w : Worker) (R : Request → Prop) (b : Worker.Boot β)
    (hinit : O.init = b.backend) : ObjectInv w R O (Flow.boot b) [] where
  points := .nil _
  state := hinit
  fits := by
    intro e he
    -- every tag is in the hand of `init`, and none has a request
    have hplaces : (Flow.boot b).places w = (w.handPlaces (.init 0) : Multiset _) := by
      show ((([] : List (Nat × Place)) : Multiset _) + (([] : List (Nat × Place)) : Multiset _) +
        (([] : List (Nat × Place)) : Multiset _) + (([] : List (Nat × Place)) : Multiset _) +
        (w.handPlaces (.init 0) : Multiset (Nat × Place))) = _
      simp only [Multiset.coe_nil, Multiset.zero_add]
    rw [hplaces, Multiset.mem_coe] at he
    obtain ⟨t, -, rfl⟩ := List.mem_map.mp he
    intro id hid
    cases hid
  fresh := fun _ _ h => by cases h
  served := fun _ _ h => by cases h
  single := fun _ _ _ h _ => by cases h
  sent := fun _ h => by cases h

end ObjectInv

/-! ## The result -/

/-- `S` lists the requests served in the run, in the order of the `handleIO` calls, each with
the answer of the sequential object; it linearizes what the block layer saw, and its final state
is the backend's. -/
structure Refines (R : Request → Prop) (O : SeqObject β Request Response) (s : World β)
    (S : List (Nat × Request × Response)) : Prop where
  linearizes : Linearizes O (history (points s.log)) S
  order : S.map Prod.fst = lins (points s.log)
  state : O.final O.init S = s.backend
  sent : ∀ e ∈ S, R e.2.1

/-- **A device refines every object that its request handler implements.** -/
theorem Serves.refines {O : SeqObject β Request Response} (hO : Serves bk w.bufSize R O)
    {b : Worker.Boot β} (hb : b.Fits w) (hinit : O.init = b.backend) {as : List Action}
    {s : World β} (h : w.Run bk (Sends R) b as s) : ∃ S, Refines R O s S := by
  obtain ⟨k, kc, f, -, hp, hm, -⟩ := h.simulates hb
  obtain ⟨S, hd⟩ : ∃ S, ObjectInv w R O f S := by
    refine Flow.holds_of_path (P := fun f => ∃ S, ObjectInv w R O f S)
      ⟨[], .boot w R b hinit⟩ ?_ hp
    rintro f a f' hi ⟨S, hd⟩ hok hs
    exact hd.step hi hO hok hs
  have hlog : s.log = f.log := congrArg Core.log hm.core
  have hback : s.backend = f.backend := congrArg Core.backend hm.core
  exact ⟨S, hlog ▸ hd.points.linearizes, hlog ▸ hd.points.order, hback ▸ hd.state, hd.sent⟩

/-- **The device adds nothing to its backend.**  Over every backend whose `ReadAt` keeps to its
contract, whatever requests the kernel sends, a run is linearizable to single calls of
`handleIO` on the backend, in the order in which they were made. -/
theorem any_backend_linearizable (bk : Backend β) (hbk : bk.IgnoresBuffer) (w : Worker)
    (b : Worker.Boot β) (hb : b.Fits w) (as : List Action) (s : World β)
    (h : w.Run bk (Sends (Request.Fits w.bufSize)) b as s) :
    ∃ S, Refines (Request.Fits w.bufSize) (requestObject bk w.bufSize b.backend) s S :=
  (serves_requestObject hbk b.backend).refines hb rfl h

theorem fullBackend_ignoresBuffer : fullBackend.IgnoresBuffer where
  reply := fun _ p p' _ h => by simp only [fullBackend, h]
  state := fun _ _ _ _ _ => rfl
  data := fun _ p p' _ h _ => by
    simp only [fullBackend, overwrite, List.map_const', List.length_replicate, List.drop_length]
    rw [h]

/-- A `DISCARD`, and an operation that does not exist. -/
def Worker.smallOthers : List Action :=
  Worker.smallStart (.consumed 3) ++
    ((Request.sector opDiscard 1 []).roundTrip ++ (Request.sector 9 1 []).roundTrip)

theorem any_backend_linearizable_small : ∃ (s : World Unit) (S : List (Nat × Request × Response)),
    Worker.small.Run fullBackend (Sends (Request.Fits Worker.small.bufSize)) Worker.smallBoot
      Worker.smallOthers s ∧
    S.map Prod.fst = [0, 1] ∧ Refines (Request.Fits Worker.small.bufSize)
      (requestObject fullBackend Worker.small.bufSize ()) s S := by
  have hex : ∃ s : World Unit,
      Worker.small.Run fullBackend (Sends (Request.Fits Worker.small.bufSize)) Worker.smallBoot
        Worker.smallOthers s ∧ lins (points s.log) = [0, 1] :=
    exists_run_of_exec (fun s : World Unit => lins (points s.log) = [0, 1]) (by decide +kernel)
  obtain ⟨s, hr, hlins⟩ := hex
  obtain ⟨S, hS⟩ := any_backend_linearizable fullBackend fullBackend_ignoresBuffer Worker.small
    Worker.smallBoot Worker.small_fits _ s hr
  exact ⟨s, S, hr, hS.order.trans hlins, hS⟩

end
end Ublk
