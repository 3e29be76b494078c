import UblkProof.Runs
import UblkProof.SubmissionQueue

/-! # Sequences of submission calls

A client of one ring obtains entries, fills them in through the pointers it was
given, and submits.  `SQClient.step` runs the wrapper's own functions against a
kernel that replies to each `io_uring_enter` as the call says, and records what the
two sides saw: `obtained` is every entry ever handed out with the contents last
written to it, `read` is every entry the kernel consumed.

**With full consumption** (`Full`: every system call consumes all the entries it is
told of) the queue is a bounded FIFO: `SubmissionFifo` compares a run of the wrapper
with `Fifo`, which has no slots, no counters and no index array.

**With short or failed calls** entries stay queued, and `nextSQE` does not count
them.  `SlotFree` is the state condition under which its cheap comparison and the
comparison with the kernel's head agree; `run_inv` shows that nothing goes wrong as
long as it is met, and `Inv.nextSQE_free_iff` that the first call that does not meet
it hands out a slot the kernel has not consumed.
-/
namespace Ublk
open CircularBuffer Runs
open Ublk.Ring (EnterReply)

variable {n : Nat}

/-! ## The client machine -/

/-- A client of one ring, together with what the kernel has read from it. -/
structure SQClient (n : Nat) where
  ring : Ring n
  /-- Pointers obtained since the last submit, as slots. -/
  ptrs : List Nat
  /-- Every entry obtained, in order, as last written. -/
  obtained : List (SQE n)
  /-- Every entry the kernel consumed, in order. -/
  read : List (SQE n)

/-- A call on the ring, or a store through the `j`-th pointer obtained since the last
submit. -/
inductive SQCall (n : Nat)
  | getSQE
  | fill (j : Nat) (sqe : SQE n)
  | submit (reply : EnterReply)
  | submitAndWait (reply : EnterReply)

namespace SQClient

/-- No call has been made. -/
def start (r : Ring n) : SQClient n := ⟨r, [], [], []⟩

/-- Both submit calls end the lifetime of the pointers handed out before. -/
def afterSubmit (s : SQClient n) (out : Ring.Submitted n) : SQClient n :=
  { s with ring := out.ring, ptrs := [], read := s.read ++ out.read }

/-- One call.  A kernel that claims to have consumed more than it was asked to, and a
store through a pointer the client does not hold, are not steps. -/
def step (s : SQClient n) : SQCall n → Option (SQClient n)
  | .getSQE =>
      match s.ring.getSQE with
      | (none, r) => some { s with ring := r }
      | (some idx, r) =>
          some { s with ring := r, ptrs := s.ptrs ++ [idx], obtained := s.obtained ++ [SQE.zero n] }
  | .fill j sqe =>
      match s.ptrs[j]? with
      | none => none
      | some idx =>
          some { s with
            ring := s.ring.writeSQE idx sqe
            obtained := s.obtained.set (s.obtained.length - s.ptrs.length + j) sqe }
  | .submit reply =>
      if reply.Legal s.ring.flushSQ.1 then some (s.afterSubmit (s.ring.submit reply)) else none
  | .submitAndWait reply =>
      if reply.Legal s.ring.flushSQ.1 then some (s.afterSubmit (s.ring.submitAndWait reply))
      else none

end SQClient

/-! ## One submit -/

section Submit
variable {r : Ring n} {k head : Nat} {queued waiting : List (SQE n)}

theorem SQRep.amount_le (h : SQRep r k head queued waiting) {reply : EnterReply}
    (hl : reply.Legal r.flushSQ.1) : reply.amount ≤ waiting.length := by
  cases reply with
  | consumed j => exact h.flushSQ.1 ▸ hl
  | errno e => exact Nat.zero_le _

theorem SQRep.submitAndWait (h : SQRep r k head queued waiting) {reply : EnterReply}
    (hl : reply.Legal r.flushSQ.1) :
    (r.submitAndWait reply).read = (queued ++ waiting).take reply.amount ∧
      SQRep (r.submitAndWait reply).ring k (head + reply.amount)
        ((queued ++ waiting).drop reply.amount) [] := by
  refine h.flushSQ.2.enter _ _ ?_
  have := h.amount_le hl
  rw [List.length_append]
  omega

/-- `Submit` skips the system call when nothing waits; a reply could then not have
taken anything either. -/
theorem SQRep.submit (h : SQRep r k head queued waiting) {reply : EnterReply}
    (hl : reply.Legal r.flushSQ.1) :
    (r.submit reply).read = (queued ++ waiting).take reply.amount ∧
      SQRep (r.submit reply).ring k (head + reply.amount)
        ((queued ++ waiting).drop reply.amount) [] := by
  obtain ⟨hc, hf⟩ := h.flushSQ
  have hle := h.amount_le hl
  unfold Ring.submit
  by_cases h0 : r.flushSQ.1 = 0
  · have ha : reply.amount = 0 := by
      have : r.flushSQ.1.toNat = 0 := by rw [h0]; rfl
      omega
    simp only [if_pos h0, ha]
    exact ⟨rfl, hf⟩
  · simp only [if_neg h0]
    exact hf.enter _ _ (by rw [List.length_append]; omega)

end Submit

/-! ## The client's invariant -/

/-- The client's records against the two lists of the ring: what was obtained has been
read, is queued, or waits, in this order; the pointers held are those of the waiting
entries. -/
structure SQClient.Inv (s : SQClient n) (k head : Nat) (queued waiting : List (SQE n)) : Prop where
  rep : SQRep s.ring k head queued waiting
  obtained : s.obtained = s.read ++ (queued ++ waiting)
  ptrs : s.ptrs = (List.range waiting.length).map fun j => (head + (queued.length + j)) % 2 ^ k

namespace SQClient
variable {s s' : SQClient n} {k head : Nat} {queued waiting : List (SQE n)}

theorem inv_start {p : Params} (hp : p.sqEntries.toNat = 2 ^ k) (sq cq : UInt32)
    (sqArray : Nat → UInt32) (sqes : Nat → SQE n) (cqes : Nat → CQE) :
    (start (Ring.setup p sq cq sqArray sqes cqes)).Inv k sq.toNat [] [] :=
  ⟨setup_rep hp sq cq sqArray sqes cqes, rfl, rfl⟩

theorem Inv.ptrs_length (h : s.Inv k head queued waiting) : s.ptrs.length = waiting.length := by
  rw [h.ptrs, List.length_map, List.length_range]

/-- The condition on a call: where `nextSQE`'s comparison of its private counters finds
room, comparing with the kernel's head finds room as well. -/
def SlotFree (s : SQClient n) : SQCall n → Prop
  | .getSQE => s.ring.sqeLocalTail - s.ring.sqeLocalHead < s.ring.sqEntries →
      s.ring.sqeLocalTail - s.ring.sqHead < s.ring.sqEntries
  | _ => True

instance (s : SQClient n) : DecidablePred s.SlotFree
  | .getSQE => inferInstanceAs (Decidable (_ → _))
  | .fill _ _ | .submit _ | .submitAndWait _ => inferInstanceAs (Decidable True)

theorem Inv.slotFree_iff (h : s.Inv k head queued waiting) :
    s.SlotFree .getSQE ↔
      (waiting.length < 2 ^ k → queued.length + waiting.length < 2 ^ k) := by
  simp only [SlotFree, UInt32.lt_iff_toNat_lt, h.rep.localDist, h.rep.totalDist,
    h.rep.geometry.entries]

theorem inv_getSQE (h : s.Inv k head queued waiting) (hok : s.SlotFree .getSQE)
    (hs : s.step .getSQE = some s') :
    ∃ waiting', s'.Inv k head queued waiting' := by
  by_cases hlt : waiting.length < 2 ^ k
  · have hroom := h.slotFree_iff.mp hok hlt
    have hrep := h.rep.getSQE hroom
    rw [h.rep.getSQE_of_lt hlt] at hrep
    simp only [step, h.rep.getSQE_of_lt hlt, Option.some.injEq] at hs
    subst hs
    refine ⟨_, hrep, ?_, ?_⟩
    · rw [h.obtained]; simp
    · rw [h.ptrs, List.length_append, List.length_singleton, List.range_succ, List.map_append]
      rfl
  · have hfull : waiting.length = 2 ^ k := by have := h.rep.room; omega
    simp only [step, h.rep.getSQE_of_full hfull, Option.some.injEq] at hs
    subst hs
    exact ⟨waiting, h⟩

theorem inv_fill (h : s.Inv k head queued waiting) {j : Nat} {sqe : SQE n}
    (hs : s.step (.fill j sqe) = some s') : j < waiting.length ∧
      s'.Inv k head queued (waiting.set j sqe) := by
  simp only [step] at hs
  split at hs
  · cases hs
  · rename_i idx hidx
    have hj : j < waiting.length := h.ptrs_length ▸ (List.getElem?_eq_some_iff.mp hidx).1
    have he : idx = (head + (queued.length + j)) % 2 ^ k := by
      rw [h.ptrs, List.getElem?_map, List.getElem?_range hj] at hidx
      exact (Option.some.inj hidx).symm
    simp only [Option.some.injEq] at hs
    subst hs he
    refine ⟨hj, h.rep.writeSQE hj sqe, ?_, ?_⟩
    · have hlen : s.obtained.length - s.ptrs.length + j =
          s.read.length + (queued.length + j) := by
        rw [h.ptrs_length, h.obtained, List.length_append, List.length_append]
        omega
      show s.obtained.set _ sqe = _
      rw [hlen, h.obtained, List.set_append_right _ _ (Nat.le_add_right _ _),
        Nat.add_sub_cancel_left, List.set_append_right _ _ (Nat.le_add_right _ _),
        Nat.add_sub_cancel_left]
    · rw [List.length_set]; exact h.ptrs

/-- The two submit calls, told apart by the error they wrap an errno in only. -/
theorem step_submit {c : SQCall n} {reply : EnterReply}
    (hc : c = .submit reply ∨ c = .submitAndWait reply) (h : s.Inv k head queued waiting)
    (hs : s.step c = some s') : reply.Legal s.ring.flushSQ.1 ∧
      s'.Inv k (head + reply.amount) ((queued ++ waiting).drop reply.amount) [] ∧
      s'.read = s.read ++ (queued ++ waiting).take reply.amount := by
  have close : ∀ {out : Ring.Submitted n}, out.read = (queued ++ waiting).take reply.amount ∧
      SQRep out.ring k (head + reply.amount) ((queued ++ waiting).drop reply.amount) [] →
      (s.afterSubmit out).Inv k (head + reply.amount) ((queued ++ waiting).drop reply.amount) [] ∧
      (s.afterSubmit out).read = s.read ++ (queued ++ waiting).take reply.amount := by
    rintro out ⟨hread, hrep⟩
    have he : (s.afterSubmit out).read = s.read ++ (queued ++ waiting).take reply.amount := by
      show s.read ++ out.read = _
      rw [hread]
    refine ⟨⟨hrep, ?_, rfl⟩, he⟩
    rw [he, List.append_nil, List.append_assoc, List.take_append_drop]
    exact h.obtained
  rcases hc with rfl | rfl
  · simp only [step] at hs
    split at hs
    · rename_i hl
      cases hs
      exact ⟨hl, close (h.rep.submit hl)⟩
    · cases hs
  · simp only [step] at hs
    split at hs
    · rename_i hl
      cases hs
      exact ⟨hl, close (h.rep.submitAndWait hl)⟩
    · cases hs

/-- **The invariant holds along every run whose calls meet `SlotFree`**, however short
the system calls fall. -/
theorem run_inv {s₀ : SQClient n} {head₀ : Nat} {calls : List (SQCall n)}
    (h0 : s₀.Inv k head₀ [] []) (hrun : Run step SlotFree s₀ calls s) :
    ∃ head queued waiting, s.Inv k head queued waiting := by
  refine hrun.invariant (I := fun s => ∃ head queued waiting, s.Inv k head queued waiting)
    ⟨_, _, _, h0⟩ ?_
  rintro s c s' ⟨head, queued, waiting, h⟩ hok hs
  cases c with
  | getSQE =>
    obtain ⟨waiting', h'⟩ := inv_getSQE h hok hs
    exact ⟨_, _, _, h'⟩
  | fill j sqe => exact ⟨_, _, _, (inv_fill h hs).2⟩
  | submit reply => exact ⟨_, _, _, (step_submit (Or.inl rfl) h hs).2.1⟩
  | submitAndWait reply => exact ⟨_, _, _, (step_submit (Or.inr rfl) h hs).2.1⟩

/-! ## Slots are free as long as the two comparisons agree -/

/-- **`nextSQE` hands out a consumed slot exactly when `SlotFree` holds.**  If it does
not, the ring is full of queued and waiting entries and the slot is that of the oldest
queued one. -/
theorem Inv.nextSQE_free_iff (h : s.Inv k head queued waiting) {idx : Nat}
    (hidx : s.ring.nextSQE.1 = some idx) :
    idx ∉ s.ring.unconsumedSlots ↔ s.SlotFree .getSQE := by
  have hroom := h.rep.room
  have hlt : waiting.length < 2 ^ k := by
    apply Classical.byContradiction
    intro hn
    rw [h.rep.nextSQE_of_full (by omega)] at hidx
    cases hidx
  rw [h.rep.nextSQE_of_lt hlt] at hidx
  have he : (head + (queued.length + waiting.length)) % 2 ^ k = idx := Option.some.inj hidx
  rw [h.slotFree_iff, h.rep.unconsumedSlots_eq, ← he]
  constructor
  · intro hnot _
    apply Classical.byContradiction
    intro hge
    refine hnot (List.mem_map.mpr ⟨0, List.mem_range.mpr (by omega), ?_⟩)
    rw [show queued.length + waiting.length = 2 ^ k from by omega, Nat.add_mod_right, Nat.add_zero]
  · intro himp hmem
    obtain ⟨i, hi, hi'⟩ := List.mem_map.mp hmem
    have hq := List.mem_range.mp hi
    have := himp hlt
    have := slot_inj (a := head) (by omega) (by omega) (by omega) (by omega) hi'
    omega

/-- **Slots under short and failed system calls.**  Along every run whose calls meet
`SlotFree`: never more entries are published and unconsumed than the ring has, the
kernel has read the obtained entries in order, once each and as written, and the next
`GetSQE` hands out a slot the kernel is done with if and only if it meets the condition
too. -/
theorem slots_consumed_before_reuse {p : Params} {k : Nat} (hp : p.sqEntries.toNat = 2 ^ k)
    (sq cq : UInt32) (sqArray : Nat → UInt32) (sqes : Nat → SQE n) (cqes : Nat → CQE)
    (calls : List (SQCall n)) (s : SQClient n)
    (hrun : Run step SlotFree (start (Ring.setup p sq cq sqArray sqes cqes)) calls s) :
    s.ring.sqTail - s.ring.sqHead ≤ s.ring.sqEntries ∧ s.read <+: s.obtained ∧
      ∀ idx, s.ring.nextSQE.1 = some idx →
        (idx ∉ s.ring.unconsumedSlots ↔ s.SlotFree .getSQE) := by
  obtain ⟨head, queued, waiting, h⟩ := run_inv (inv_start hp sq cq sqArray sqes cqes) hrun
  refine ⟨?_, ⟨_, h.obtained.symm⟩, fun idx hidx => h.nextSQE_free_iff hidx⟩
  have := h.rep.room
  rw [UInt32.le_iff_toNat_le, h.rep.sharedDist, h.rep.geometry.entries]
  omega

/-- A ring over zeroed memory, its counters at zero. -/
def blank (n : Nat) (p : Params) : Ring n :=
  Ring.setup p 0 0 (fun _ => 0) (fun _ => SQE.zero n) (fun _ => ⟨0, 0, 0⟩)

/-- An entry told apart by its `UserData`. -/
def entry (u : UInt64) : SQE64 := { SQE.zero 16 with userData := u }

theorem slots_consumed_before_reuse_four :
    ∃ s : SQClient 16, Run step SlotFree (start (blank 16 ⟨4, 8, 64, 64⟩))
        [.getSQE, .fill 0 (entry 1), .submit (.errno 11), .getSQE, .fill 0 (entry 2),
          .submit (.consumed 1)] s ∧
      s.read = [entry 1] ∧ s.ring.sqTail - s.ring.sqHead ≤ s.ring.sqEntries := by
  have hex : ∃ s : SQClient 16, Run step SlotFree (start (blank 16 ⟨4, 8, 64, 64⟩))
      [.getSQE, .fill 0 (entry 1), .submit (.errno 11), .getSQE, .fill 0 (entry 2),
        .submit (.consumed 1)] s ∧ s.read = [entry 1] :=
    exists_run_of_exec _ (by decide +kernel)
  obtain ⟨s, hrun, hread⟩ := hex
  exact ⟨s, hrun, hread, (slots_consumed_before_reuse (k := 2) rfl 0 0 _ _ _ _ s hrun).1⟩

/-- **A failed submit loses the slot.**  On a one-entry ring: after the failure the next
`GetSQE` returns the slot of the published entry; publishing it puts two entries into
the one-entry ring; and what the kernel then reads first is the second entry. -/
theorem slot_reused_after_failed_submit :
    (∃ s : SQClient 16, Run step (fun _ _ => True) (start (blank 16 ⟨1, 2, 64, 64⟩))
        [.getSQE, .fill 0 (entry 1), .submit (.errno 11)] s ∧
      s.ring.nextSQE.1 = some 0 ∧ 0 ∈ s.ring.unconsumedSlots) ∧
    (∃ s : SQClient 16, Run step (fun _ _ => True) (start (blank 16 ⟨1, 2, 64, 64⟩))
        [.getSQE, .fill 0 (entry 1), .submit (.errno 11), .getSQE, .fill 0 (entry 2),
          .submit (.errno 11)] s ∧
      ¬ s.ring.sqTail - s.ring.sqHead ≤ s.ring.sqEntries) ∧
    ∃ s : SQClient 16, Run step (fun _ _ => True) (start (blank 16 ⟨1, 2, 64, 64⟩))
        [.getSQE, .fill 0 (entry 1), .submit (.errno 11), .getSQE, .fill 0 (entry 2),
          .submit (.consumed 1)] s ∧
      s.obtained = [entry 1, entry 2] ∧ s.read = [entry 2] := by
  refine ⟨exists_run_of_exec _ ?_, exists_run_of_exec _ ?_, exists_run_of_exec _ ?_⟩ <;>
    decide +kernel

end SQClient
end Ublk
