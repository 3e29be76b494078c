import UblkProof.CompletionQueue
import UblkProof.WorkerFlow

/-! # The machine follows the flow

`Models k kc s f` relates a state of the machine, whose ring has `2 ^ k` submission and
`2 ^ kc` completion entries, to a flow: the ring's two queues hold the flow's lists, and
everything else is the same.  `Models.step` matches each step of the machine by a step of
the flow.  The ring's operations have side conditions: `GetSQE` needs a free slot, a post
needs room.  Both follow from the flow's invariant, which leaves no tag for an entry too
many; this is where a queue depth of at most the ring's size is used.
-/
namespace Ublk
open ByteMemory LittleEndian Runs
open Ublk.Ring (EnterReply)

/-- `roundUp2` rounds up to a power of two. -/
theorem roundUp2_eq {v : UInt32} (h0 : 0 < v.toNat) (hle : v.toNat ≤ 2 ^ 31) :
    ∃ k, (roundUp2 v).toNat = 2 ^ k ∧ v.toNat ≤ 2 ^ k := by
  unfold roundUp2
  by_cases h1 : v ≤ 1
  · rw [if_pos h1]
    exact ⟨0, rfl, UInt32.le_iff_toNat_le.mp h1⟩
  · rw [if_neg h1]
    have hgt : 1 < v.toNat := Nat.lt_of_not_le fun h => h1 (UInt32.le_iff_toNat_le.mpr h)
    have hsub : (v - 1).toNat = v.toNat - 1 :=
      UInt32.toNat_sub_of_le _ _ (UInt32.le_iff_toNat_le.mpr (Nat.le_of_lt hgt))
    have hne : v - 1 ≠ 0 := by
      intro h
      have := congrArg UInt32.toNat h
      rw [hsub] at this
      have : v.toNat - 1 = 0 := this
      omega
    have hlog : v.toNat - 1 < 2 ^ ((v.toNat - 1).log2 + 1) := Nat.lt_log2_self
    have hlog' : (v.toNat - 1).log2 < 31 := (Nat.log2_lt (by omega)).mpr (by omega)
    refine ⟨(v.toNat - 1).log2 + 1, ?_, by omega⟩
    rw [len32, if_neg hne, hsub, Nat.one_shiftLeft]
    exact CircularBuffer.toNat_ofNat_of_lt (Nat.pow_lt_pow_right (by decide) (by omega))

/-! ## Preparing an entry -/

namespace SQRep
variable {r : Ring 16} {k head : Nat} {queued waiting : List SQE64}

/-- With a free slot, `prepare` appends the entry, filled in from zero. -/
theorem prepare (h : SQRep r k head queued waiting) (hlt : queued.length + waiting.length < 2 ^ k)
    (w : Worker) (op : UInt32) (tag : UInt16) (result : Int32) :
    (w.prepare op tag result r).1 = some (w.fill op tag result (SQE.zero 16)) ∧
      SQRep (w.prepare op tag result r).2 k head queued
        (waiting ++ [w.fill op tag result (SQE.zero 16)]) := by
  have hget := h.getSQE_of_lt (by omega)
  have hzero : (r.getSQE.2).sqes ((head + (queued.length + waiting.length)) % 2 ^ k) =
      SQE.zero 16 := by
    rw [hget]
    exact Function.update_self ..
  have hrep := h.getSQE hlt
  have hset := hrep.writeSQE (j := waiting.length) (by rw [List.length_append]; simp)
    (w.fill op tag result (SQE.zero 16))
  rw [List.set_append_right _ _ (Nat.le_refl _), Nat.sub_self, List.set_cons_zero] at hset
  have hprep : w.prepare op tag result r = (some (w.fill op tag result (SQE.zero 16)),
      r.getSQE.2.writeSQE ((head + (queued.length + waiting.length)) % 2 ^ k)
        (w.fill op tag result (SQE.zero 16))) := by
    unfold Worker.prepare
    rw [← hzero, hget]
  rw [hprep]
  exact ⟨rfl, hset⟩

end SQRep

theorem CQRep.prepare {r : Ring 16} {k head : Nat} {unread : List CQE} (h : CQRep r k head unread)
    (w : Worker) (op : UInt32) (tag : UInt16) (result : Int32) :
    CQRep (w.prepare op tag result r).2 k head unread := by
  have hget := h.getSQE
  unfold Worker.prepare
  cases he : r.getSQE with | mk o r' =>
    rw [he] at hget
    cases o with
    | none => exact hget
    | some idx => exact hget.writeSQE _ _

theorem Worker.prepare_cancelled (w : Worker) (op : UInt32) (tag : UInt16) (result : Int32)
    (r : Ring 16) : (w.prepare op tag result r).2.cancelled = r.cancelled := by
  have hget : r.getSQE.2.cancelled = r.cancelled := by rw [Ring.getSQE_frame]
  unfold Worker.prepare
  cases he : r.getSQE with | mk o r' =>
    rw [he] at hget
    cases o <;> exact hget

/-- The whole buffer is there, so nothing is sliced out of range. -/
theorem handleIO_total {β : Type} (bk : Backend β) {bufSize : Nat} (d : IODesc) {buf : List UInt8}
    (hbuf : buf.length = bufSize) (b : β) : ∃ out, handleIO bk bufSize d buf b = some out := by
  unfold handleIO sliceTo
  split_ifs <;> first
    | exact ⟨_, rfl⟩
    | (split <;> exact ⟨_, rfl⟩)
    | omega

/-! ## The relation -/

/-- The completion slot the worker has a pointer to. -/
def PC.slot? : PC → Option Nat
  | .took _ idx | .copied _ idx _ => some idx
  | _ => none

section
variable {β : Type}

/-- The queues of `f` are what the ring of `s` holds. -/
structure Models (k kc : Nat) (s : World β) (f : Flow β) : Prop where
  core : s.toCore = f.toCore
  cancelled : s.ring.cancelled = f.cancelled
  sq : ∃ head, SQRep s.ring k head f.queued f.waiting
  cq : ∃ head, CQRep s.ring kc head f.unread ∧ ∀ idx ∈ f.pc.slot?, idx = head % 2 ^ kc

namespace Models
variable {w : Worker} {bk : Backend β} {k kc : Nat} {s s' : World β} {f : Flow β}

theorem boot {b : Worker.Boot β} (hk : b.p.sqEntries.toNat = 2 ^ k)
    (hkc : b.p.cqEntries.toNat = 2 ^ kc) : Models k kc (Worker.boot b) (Flow.boot b) where
  core := rfl
  cancelled := rfl
  sq := ⟨_, setup_rep hk b.sq b.cq b.sqArray b.sqes b.cqes⟩
  cq := ⟨_, setup_cqRep hkc b.sq b.cq b.sqArray b.sqes b.cqes, fun _ h => by cases h⟩

/-- The ring stays as it is, and so does the pointer into it. -/
theorem goto (h : Models k kc s f) (pc : PC) (hslot : pc.slot? = none ∨ pc.slot? = f.pc.slot?) :
    Models k kc { s with pc := pc } { f with pc := pc } where
  core := by rw [h.core]
  cancelled := h.cancelled
  sq := h.sq
  cq := by
    obtain ⟨head, hrep, hidx⟩ := h.cq
    refine ⟨head, hrep, fun idx hi => ?_⟩
    rcases hslot with hs | hs
    · rw [show pc.slot? = none from hs] at hi; cases hi
    · exact hidx idx (hs ▸ hi)

/-- The worker takes a pointer to the oldest completion. -/
theorem gotoSlot {head : Nat} (h : Models k kc s f) (hrep : CQRep s.ring kc head f.unread)
    (origin : Origin) : Models k kc { s with pc := .took origin (head % 2 ^ kc) }
      { f with pc := .took origin (head % 2 ^ kc) } where
  core := by rw [h.core]
  cancelled := h.cancelled
  sq := h.sq
  cq := ⟨head, hrep, fun idx hi => (Option.mem_some_iff.mp hi).symm⟩

/-- Reading through the pointer gives the oldest completion. -/
theorem deref (h : Models k kc s f) {idx : Nat} (hs : f.pc.slot? = some idx) {c : CQE}
    {cs : List CQE} (hun : f.unread = c :: cs) : s.ring.cqes idx = c := by
  obtain ⟨head, hrep, hidx⟩ := h.cq
  rw [hidx idx hs]
  rw [hun] at hrep
  exact hrep.slot_head

/-- `PeekCQE` and the loads of `WaitCQE`. -/
theorem peek (h : Models k kc s f) : (f.unread = [] ∧ s.ring.peekCQE = none) ∨
    ∃ head, f.unread ≠ [] ∧ s.ring.peekCQE = some (head % 2 ^ kc) ∧
      CQRep s.ring kc head f.unread := by
  obtain ⟨head, hrep, -⟩ := h.cq
  cases hun : f.unread with
  | nil => exact Or.inl ⟨rfl, (hun ▸ hrep).peekCQE_nil⟩
  | cons c cs =>
    exact Or.inr ⟨head, List.cons_ne_nil _ _, (hun ▸ hrep).peekCQE_cons, hun ▸ hrep⟩

/-- A tag in the worker's hand leaves a slot free. -/
theorem prepared (h : Models k kc s f) (hi : f.Inv w) (hk : w.depth.toNat ≤ 2 ^ k)
    (hand : w.hand f.pc ≠ []) (op : UInt32) (tag : UInt16) (result : Int32) {next : PC}
    (hslot : next.slot? = none) :
    Models k kc (Worker.prepared s tag next (w.prepare op tag result s.ring))
      { f with
        waiting := f.waiting ++ [w.fill op tag result (SQE.zero 16)]
        log := f.log ++ [.prepared (w.fill op tag result (SQE.zero 16))]
        pc := next } := by
  obtain ⟨head, hsq⟩ := h.sq
  obtain ⟨chead, hcq, -⟩ := h.cq
  have hroom : f.queued.length + f.waiting.length < 2 ^ k := by
    have := hi.card_le
    have := List.length_pos_iff.mpr hand
    omega
  obtain ⟨hsome, hrep⟩ := hsq.prepare hroom w op tag result
  have hprep : w.prepare op tag result s.ring =
      (some (w.fill op tag result (SQE.zero 16)), (w.prepare op tag result s.ring).2) :=
    Prod.ext hsome rfl
  rw [hprep]
  exact {
    core := by simp only [Worker.prepared, h.core]
    cancelled := (w.prepare_cancelled op tag result s.ring).trans h.cancelled
    sq := ⟨head, hrep⟩
    cq := ⟨chead, hcq.prepare w op tag result, fun idx hidx => by
      rw [show next.slot? = none from hslot] at hidx; cases hidx⟩ }

/-- What `flushSQ` counts and publishes is what waits. -/
theorem flushed (h : Models k kc s f) : s.ring.flushSQ.1.toNat = f.waiting.length ∧
    ∀ next : PC, next.slot? = none →
      Models k kc
        { s with
          ring := s.ring.flushSQ.2
          log := s.log ++ s.ring.unpublished.map .published
          pc := next }
        { f with
          queued := f.queued ++ f.waiting
          waiting := []
          log := f.log ++ f.waiting.map .published
          pc := next } := by
  obtain ⟨head, hsq⟩ := h.sq
  obtain ⟨chead, hcq, -⟩ := h.cq
  refine ⟨hsq.flushSQ.1, fun next hslot => ?_⟩
  exact {
    core := by rw [hsq.unpublished_eq, h.core]
    cancelled := by
      show s.ring.flushSQ.2.cancelled = _
      rw [Ring.flushSQ_frame]
      exact h.cancelled
    sq := ⟨head, hsq.flushSQ.2⟩
    cq := ⟨chead, hcq.flushSQ, fun idx hidx => by
      rw [show next.slot? = none from hslot] at hidx; cases hidx⟩ }

theorem afterEnter_slot (s : Core β) (ret : Except UringError Nat) :
    (Worker.afterEnter s ret).1.slot? = none := by
  unfold Worker.afterEnter
  split <;> rfl

theorem enterWith (h : Models k kc s f) (hi : f.Inv w) {count : UInt32} {wrap : Errno → UringError}
    (he : Flow.Entering f.pc count wrap) {reply : EnterReply}
    (hs : Worker.enterWith s count wrap reply = some s') :
    ∃ f', Flow.Step w bk f (.enter reply) f' ∧ Models k kc s' f' := by
  unfold Worker.enterWith at hs
  split_ifs at hs with hl
  cases hs
  obtain ⟨head, hsq⟩ := h.sq
  obtain ⟨chead, hcq, -⟩ := h.cq
  have hle : reply.amount ≤ f.queued.length := by
    have hcount : count.toNat ≤ f.queued.length := by
      have hloc := hi.loc
      revert he hloc
      generalize f.pc = pc
      intro he hloc
      cases he <;> exact hloc.2
    cases reply with
    | consumed j => exact Nat.le_trans hl hcount
    | errno e => exact Nat.zero_le _
  obtain ⟨hread, hrep⟩ := hsq.enter count wrap hle
  refine ⟨_, .enter he hl, ?_⟩
  exact {
    core := by
      rw [hread, h.core]
      rfl
    cancelled := by
      show (s.ring.enter count wrap reply).ring.cancelled = _
      rw [Ring.enter_frame]
      exact h.cancelled
    sq := ⟨_, hrep⟩
    cq := ⟨chead, hcq.enter count wrap reply, fun idx hidx => by
      have := afterEnter_slot f.toCore (reply.ret wrap)
      rw [show (Worker.afterEnter f.toCore (reply.ret wrap)).1.slot? = none from this] at hidx
      cases hidx⟩ }

/-- Where the worker is done with the pointer, nothing is asked of it. -/
theorem seenCQE (h : Models k kc s f) {origin : Origin} {tag : UInt16} {res : Int32}
    {c : CQE} {cs : List CQE} (hun : f.unread = c :: cs) :
    Models k kc
      { s with
        ring := s.ring.seenCQE
        log := s.log ++ [.taken tag res]
        pc := if res < 0 then .done (.negativeRes origin tag) else .handle tag }
      { f with
        unread := cs
        log := f.log ++ [.taken tag res]
        pc := if res < 0 then .done (.negativeRes origin tag) else .handle tag } := by
  obtain ⟨head, hsq⟩ := h.sq
  obtain ⟨chead, hcq, -⟩ := h.cq
  have hnone : ∀ p : Prop, [Decidable p] →
      (if p then PC.done (.negativeRes origin tag) else .handle tag).slot? = none := by
    intro p _
    split_ifs <;> rfl
  exact {
    core := by rw [h.core]
    cancelled := h.cancelled
    sq := ⟨head, hsq.seenCQE⟩
    cq := ⟨chead + 1, (hun ▸ hcq).seenCQE, fun idx hidx => by
      rw [hnone] at hidx
      cases hidx⟩ }

/-- A change outside ring and worker. -/
theorem withCore (h : Models k kc s f) {core : Core β} (hslot : core.pc.slot? = none ∨
    core.pc = f.pc) : Models k kc { s with toCore := core } { f with toCore := core } where
  core := rfl
  cancelled := h.cancelled
  sq := h.sq
  cq := by
    obtain ⟨chead, hcq, hidx⟩ := h.cq
    refine ⟨chead, hcq, fun idx hi => ?_⟩
    rcases hslot with hs | hs
    · rw [show core.pc.slot? = none from hs] at hi; cases hi
    · exact hidx idx (hs ▸ hi)

/-- The two places where the worker looks for a completion, in `WaitCQE` and in `PeekCQE`. -/
theorem look (h : Models k kc s f) {origin : Origin} {otherwise : PC}
    (hfound : ∀ c cs idx, f.unread = c :: cs → Flow.Move w f .work f.pc (.took origin idx))
    (hnone : f.unread = [] → Flow.Move w f .work f.pc otherwise) (hslot : otherwise.slot? = none)
    (hs : (match s.ring.peekCQE with
      | some idx => some { s with pc := .took origin idx }
      | none => some { s with pc := otherwise }) = some s') :
    ∃ f', Flow.Step w bk f .work f' ∧ Models k kc s' f' := by
  rcases h.peek with ⟨hun, hp⟩ | ⟨head, hun, hp, hrep⟩
  · rw [hp] at hs
    cases hs
    exact ⟨_, .move (hnone hun), h.goto _ (Or.inl hslot)⟩
  · rw [hp] at hs
    cases hs
    obtain ⟨c, cs, hun⟩ := List.exists_cons_of_ne_nil hun
    exact ⟨_, .move (hfound c cs _ hun), h.gotoSlot hrep _⟩

/-- `Submit` makes the system call unless nothing waits. -/
theorem flush (h : Models k kc s f) (hpc : f.pc = .flush) :
    ∃ f', Flow.Step w bk f .work f' ∧ Models k kc
      { s with
        ring := s.ring.flushSQ.2
        log := s.log ++ s.ring.unpublished.map .published
        pc := if s.ring.flushSQ.1 = 0 then .waitCheck else .submitEnter s.ring.flushSQ.1 } f' := by
  obtain ⟨hcount, hm⟩ := h.flushed
  by_cases h0 : s.ring.flushSQ.1 = 0
  · rw [if_pos h0]
    have hw : f.waiting = [] := by
      rw [h0] at hcount
      exact List.length_eq_zero_iff.mp hcount.symm
    exact ⟨_, .publish (hpc ▸ .empty hw), hm _ rfl⟩
  · rw [if_neg h0]
    have hw : f.waiting ≠ [] := by
      intro hw
      rw [hw] at hcount
      exact h0 (UInt32.toNat_inj.mp hcount)
    exact ⟨_, .publish (hpc ▸ .submit hcount hw), hm _ rfl⟩

/-- `handleIO` finds the tag in range and its buffer of the right length. -/
theorem serve (h : Models k kc s f) (hi : f.Inv w) {tag : UInt16} (hpc : f.pc = .handle tag) :
    ∃ f', Flow.Step w bk f .work f' ∧
      Models k kc { s with toCore := w.serve bk s.toCore tag } f' := by
  have hlt : tag < w.depth :=
    UInt16.lt_iff_toNat_lt.mpr (hi.hand_lt (by rw [hpc]; exact List.mem_singleton_self _))
  obtain ⟨out, hout⟩ := handleIO_total bk (f.descs tag.toNat)
    (length_readBytes f.mem (w.bufAddr tag.toNat) w.bufSize) f.backend
  have hserve : w.serve bk s.toCore tag = w.served f.toCore tag out := by
    rw [h.core]
    simp only [Worker.serve, if_pos hlt, hout]
  rw [hserve]
  exact ⟨_, .serve hpc hlt hout, h.withCore (Or.inl rfl)⟩

/-- **Each statement of the worker is a step of the flow.** -/
theorem work (h : Models k kc s f) (hi : f.Inv w) (hk : w.depth.toNat ≤ 2 ^ k)
    (hs : w.work bk s = some s') : ∃ f', Flow.Step w bk f .work f' ∧ Models k kc s' f' := by
  have hpcs : s.pc = f.pc := congrArg Core.pc h.core
  have hloc := hi.loc
  cases hpc : f.pc with
  | init tag =>
    simp only [Worker.work, hpcs, hpc] at hs
    split_ifs at hs with hlt
    · cases hs
      refine ⟨_, .fetch hpc hlt, h.prepared hi hk ?_ _ _ _ rfl⟩
      rw [hpc, Flow.hand_init hlt]
      exact List.cons_ne_nil _ _
    · cases hs
      exact ⟨_, .move (hpc ▸ .initDone hlt), h.goto _ (Or.inl rfl)⟩
  | start =>
    simp only [Worker.work, hpcs, hpc] at hs
    cases hs
    obtain ⟨hcount, hm⟩ := h.flushed
    exact ⟨_, .publish (hpc ▸ .start hcount), hm _ rfl⟩
  | waitCheck =>
    simp only [Worker.work, hpcs, hpc] at hs
    rw [h.cancelled] at hs
    split_ifs at hs with hc <;> cases hs
    · exact ⟨_, .move (hpc ▸ .cancelled hc), h.goto _ (Or.inl rfl)⟩
    · exact ⟨_, .move (hpc ▸ .check (Bool.not_eq_true _ ▸ hc)), h.goto _ (Or.inl rfl)⟩
  | waitLoad =>
    simp only [Worker.work, hpcs, hpc] at hs
    exact h.look (fun _ _ idx hun => hpc ▸ .found idx hun) (fun hun => hpc ▸ .block hun) rfl hs
  | took origin idx =>
    simp only [Worker.work, hpcs, hpc] at hs
    cases hs
    rw [hpc] at hloc
    obtain ⟨c, cs, hun⟩ := List.exists_cons_of_ne_nil hloc.2
    rw [h.deref (by rw [hpc]; rfl) hun]
    exact ⟨_, .move (hpc ▸ .copyTag hun), h.goto _ (Or.inr (by rw [hpc]; rfl))⟩
  | copied origin idx tag =>
    simp only [Worker.work, hpcs, hpc] at hs
    cases hs
    rw [hpc] at hloc
    obtain ⟨-, c, cs, hun, -⟩ := hloc
    rw [h.deref (by rw [hpc]; rfl) hun]
    exact ⟨_, .move (hpc ▸ .copyRes hun), h.goto _ (Or.inl rfl)⟩
  | seen origin tag res =>
    simp only [Worker.work, hpcs, hpc] at hs
    cases hs
    rw [hpc] at hloc
    obtain ⟨-, c, cs, hun, -⟩ := hloc
    exact ⟨_, .seen hpc hun, h.seenCQE hun⟩
  | handle tag =>
    simp only [Worker.work, hpcs, hpc] at hs
    cases hs
    exact h.serve hi hpc
  | commit tag result =>
    simp only [Worker.work, hpcs, hpc] at hs
    cases hs
    refine ⟨_, .commit hpc, h.prepared hi hk ?_ _ _ _ rfl⟩
    rw [hpc]
    exact List.cons_ne_nil _ _
  | peek =>
    simp only [Worker.work, hpcs, hpc] at hs
    exact h.look (fun _ _ idx hun => hpc ▸ .more idx hun) (fun hun => hpc ▸ .drained hun) rfl hs
  | flush =>
    simp only [Worker.work, hpcs, hpc] at hs
    cases hs
    exact h.flush hpc
  | startEnter _ | waitEpoll | submitEnter _ | done _ | panicked =>
    simp only [Worker.work, hpcs, hpc] at hs
    cases hs

/-- The kernel posts, while a command in flight leaves room for its completion. -/
theorem post (h : Models k kc s f) (hi : f.Inv w) (hkc : w.depth.toNat ≤ 2 ^ kc) {i : Nat}
    {c : Command} (hc : f.inflight[i]? = some c) (x : CQE) :
    Models k kc { s with toCore := s.toCore.post i x, ring := s.ring.post x }
      { f with toCore := f.toCore.post i x, unread := f.unread ++ [x] } := by
  obtain ⟨head, hsq⟩ := h.sq
  obtain ⟨chead, hcq, hidx⟩ := h.cq
  have hroom : f.unread.length < 2 ^ kc := by
    have := hi.card_le
    have := (List.getElem?_eq_some_iff.mp hc).1
    omega
  exact {
    core := by rw [h.core]
    cancelled := h.cancelled
    sq := ⟨head, hsq.post x⟩
    cq := ⟨chead, hcq.post hroom x, hidx⟩ }

theorem epoll (h : Models k kc s f) {reply : EpollReply} (hs : Worker.epoll s reply = some s') :
    ∃ f', Flow.Step w bk f (.epoll reply) f' ∧ Models k kc s' f' := by
  have hpcs : s.pc = f.pc := congrArg Core.pc h.core
  have hefd : s.efd = f.efd := congrArg Core.efd h.core
  cases reply with
  | interrupted =>
    simp only [Worker.epoll, hpcs] at hs
    split_ifs at hs with hpc
    cases hs
    exact ⟨_, .move (hpc ▸ .interrupted), h.goto _ (Or.inl rfl)⟩
  | failed e =>
    simp only [Worker.epoll, hpcs] at hs
    split_ifs at hs with hpc
    cases hs
    exact ⟨_, .move (hpc ▸ .epollFailed e), h.goto _ (Or.inl rfl)⟩
  | events cancelFD =>
    obtain ⟨⟨hpc, hfd⟩, hs⟩ := Option.ite_none_right_eq_some.mp hs
    rw [hpcs] at hpc
    cases cancelFD with
    | true =>
      cases hs
      exact ⟨_, .move (hpc ▸ .woken (hefd ▸ hfd rfl)), h.goto _ (Or.inl rfl)⟩
    | false =>
      cases hs
      exact ⟨_, .move (hpc ▸ .events), h.goto _ (Or.inl rfl)⟩

/-- **Each step of the machine is a step of the flow.** -/
theorem step {a : Action} (h : Models k kc s f) (hi : f.Inv w) (hk : w.depth.toNat ≤ 2 ^ k)
    (hkc : w.depth.toNat ≤ 2 ^ kc) (hs : w.step bk s a = some s') :
    ∃ f', Flow.Step w bk f a f' ∧ Models k kc s' f' := by
  have hpcs : s.pc = f.pc := congrArg Core.pc h.core
  have hready : s.ready = f.ready := congrArg Core.ready h.core
  have hin : s.inflight = f.inflight := congrArg Core.inflight h.core
  cases a with
  | work => exact h.work hi hk hs
  | enter reply =>
    simp only [Worker.step, Worker.enter, hpcs] at hs
    split at hs
    · rename_i count hpc
      exact h.enterWith hi (hpc ▸ .start) hs
    · rename_i count hpc
      exact h.enterWith hi (hpc ▸ .submit) hs
    · cases hs
  | epoll reply => exact h.epoll hs
  | signal =>
    simp only [Worker.step, hready] at hs
    split_ifs at hs with hr
    cases hs
    exact ⟨_, .control (.signal hr), ⟨by rw [h.core], h.cancelled, h.sq, h.cq⟩⟩
  | receive =>
    simp only [Worker.step, hready] at hs
    split at hs
    · rename_i err hr
      cases hs
      exact ⟨_, .control (.receive hr), ⟨by rw [h.core], h.cancelled, h.sq, h.cq⟩⟩
    · cases hs
  | cancelStore =>
    cases hs
    obtain ⟨head, hsq⟩ := h.sq
    obtain ⟨chead, hcq, hidx⟩ := h.cq
    exact ⟨_, .control .cancelStore,
      ⟨by rw [h.core], rfl, ⟨head, hsq.cancel⟩, ⟨chead, hcq.cancel, hidx⟩⟩⟩
  | cancelWake =>
    simp only [Worker.step, h.cancelled] at hs
    split_ifs at hs with hc
    cases hs
    exact ⟨_, .control (.cancelWake hc), ⟨by rw [h.core], h.cancelled, h.sq, h.cq⟩⟩
  | issue i req =>
    simp only [Worker.step, hin] at hs
    obtain ⟨c, hc, rfl⟩ := Option.map_eq_some_iff.mp hs
    rw [h.core]
    exact ⟨_, .issue hc, h.withCore (Or.inr rfl)⟩
  | respond i =>
    simp only [Worker.step, h.core] at hs
    obtain ⟨c, hc, hs⟩ := Option.bind_eq_some_iff.mp hs
    obtain ⟨id, hid, rfl⟩ := Option.map_eq_some_iff.mp hs
    exact ⟨_, .respond hc hid, h.withCore (Or.inr rfl)⟩
  | post i res flags =>
    simp only [Worker.step, hin] at hs
    obtain ⟨c, hc, rfl⟩ := Option.map_eq_some_iff.mp hs
    exact ⟨_, .post hc, h.post hi hkc hc _⟩

/-- The machine follows the flow from any state that models one. -/
theorem follow (h : Models k kc s f) (ok : Core β → Action → Prop) {as : List Action}
    (hi : f.Inv w) (hk : w.depth.toNat ≤ 2 ^ k) (hkc : w.depth.toNat ≤ 2 ^ kc)
    (hr : Runs.Run (w.step bk) (fun s a => ok s.toCore a) s as s') :
    ∃ f', Path (Flow.StepIf w bk ok) f as f' ∧ Models k kc s' f' ∧ f'.Inv w := by
  refine Runs.Run.simulate (R := Flow.StepIf w bk ok)
    (M := fun s f => Models k kc s f ∧ f.Inv w) ⟨h, hi⟩ ?_ hr
  rintro s a s' as f ⟨hm, hi⟩ - hok hs
  obtain ⟨f', hstep, hm'⟩ := hm.step hi hk hkc hs
  exact ⟨f', ⟨hm.core ▸ hok, hstep⟩, hm', hi.step hstep⟩

end Models

/-- Runs of the machine in which the actions meet `ok`. -/
abbrev Worker.Run (w : Worker) (bk : Backend β) (ok : Core β → Action → Prop) (b : Worker.Boot β) :
    List Action → World β → Prop :=
  Runs.Run (w.step bk) (fun s a => ok s.toCore a) (Worker.boot b)

/-- Both queues have a power of two of entries, and room for every tag. -/
theorem Worker.Boot.Fits.sizes {w : Worker} {b : Worker.Boot β} (hb : b.Fits w) :
    ∃ k kc, b.p.sqEntries.toNat = 2 ^ k ∧ b.p.cqEntries.toNat = 2 ^ kc ∧
      w.depth.toNat ≤ 2 ^ k ∧ w.depth.toNat ≤ 2 ^ kc := by
  have hdepth : w.depth.toUInt32.toNat = w.depth.toNat := UInt16.toNat_toUInt32 _
  obtain ⟨k, hk, hle⟩ := roundUp2_eq (v := w.depth.toUInt32) (hdepth ▸ w.depth_pos)
    (hdepth ▸ Nat.le_trans w.depth_le (by decide))
  rw [hdepth] at hle
  obtain ⟨kc, hkc⟩ := hb.cqPow
  rw [← hb.sqEntries] at hk
  have := UInt32.le_iff_toNat_le.mp hb.cqEntries
  exact ⟨k, kc, hk, hkc, hle, by omega⟩

/-- **The machine follows the flow**, through every run. -/
theorem Worker.Run.simulates {w : Worker} {bk : Backend β} {ok : Core β → Action → Prop}
    {b : Worker.Boot β} (hb : b.Fits w) {as : List Action} {s : World β} (h : w.Run bk ok b as s) :
    ∃ k kc f, w.depth.toNat ≤ 2 ^ kc ∧ Path (Flow.StepIf w bk ok) (Flow.boot b) as f ∧
      Models k kc s f ∧ f.Inv w := by
  obtain ⟨k, kc, hk, hkc, hle, hlec⟩ := hb.sizes
  obtain ⟨f, hp, hm, hi⟩ := (Models.boot hk hkc).follow ok (Flow.inv_boot w b) hle hlec h
  exact ⟨k, kc, f, hlec, hp, hm, hi⟩

end
end Ublk
