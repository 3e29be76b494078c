import UblkProof.SubmissionCalls

/-! # The submission queue is a bounded FIFO

When every `io_uring_enter` consumes all the entries it is told of, nothing is ever
queued between two calls, and a ring behaves as `Fifo`: a list of entries obtained
since the last submit, at most `2 ^ k` of them, and the list of entries delivered to
the kernel.  The abstract queue has neither counters nor slots, so the comparison
(`submission_refines_fifo`) is also the statement that counter wrap, masking and the
index array are invisible.
-/
namespace Ublk
open CircularBuffer Runs
open Ublk.Ring (EnterReply)

variable {n : Nat}

/-- A bounded queue with batched delivery. -/
structure Fifo (α : Type) where
  waiting : List α
  delivered : List α

namespace Fifo

/-- Nothing is in it. -/
def empty {α : Type} : Fifo α := ⟨[], []⟩

/-- One call on the abstract queue of capacity `cap`. -/
def step (cap : Nat) (q : Fifo (SQE n)) : SQCall n → Fifo (SQE n)
  | .getSQE =>
      if q.waiting.length < cap then { q with waiting := q.waiting ++ [SQE.zero n] } else q
  | .fill j sqe => { q with waiting := q.waiting.set j sqe }
  | .submit _ | .submitAndWait _ => ⟨[], q.delivered ++ q.waiting⟩

/-- The abstract queue after a sequence of calls. -/
def after (cap : Nat) (calls : List (SQCall n)) : Fifo (SQE n) := calls.foldl (step cap) empty

theorem after_concat (cap : Nat) (calls : List (SQCall n)) (c : SQCall n) :
    after cap (calls ++ [c]) = step cap (after cap calls) c := by
  rw [after, List.foldl_append]; rfl

end Fifo

namespace SQClient
variable {s s' : SQClient n} {k head : Nat} {queued waiting : List (SQE n)}

/-- The kernel consumes everything it is told of. -/
def Full (s : SQClient n) : SQCall n → Prop
  | .submit reply | .submitAndWait reply => reply = .consumed s.ring.flushSQ.1.toNat
  | _ => True

instance (s : SQClient n) : DecidablePred s.Full
  | .submit _ | .submitAndWait _ => inferInstanceAs (Decidable (_ = _))
  | .getSQE | .fill _ _ => inferInstanceAs (Decidable True)

/-- A run with full consumption and the abstract queue: nothing is queued, and the two
lists are the abstract ones. -/
def Matches (k : Nat) (q : Fifo (SQE n)) (s : SQClient n) : Prop :=
  s.read = q.delivered ∧ ∃ head, s.Inv k head [] q.waiting

theorem matches_getSQE {q : Fifo (SQE n)} (h : Matches k q s)
    (hs : s.step .getSQE = some s') : Matches k (q.step (2 ^ k) .getSQE) s' := by
  obtain ⟨hread, head, h⟩ := h
  have hroom := h.rep.room
  rw [List.length_nil, Nat.zero_add] at hroom
  by_cases hlt : q.waiting.length < 2 ^ k
  · have hrep := h.rep.getSQE (by simpa using hlt)
    rw [h.rep.getSQE_of_lt hlt] at hrep
    simp only [step, h.rep.getSQE_of_lt hlt, Option.some.injEq] at hs
    subst hs
    rw [Fifo.step, if_pos hlt]
    refine ⟨hread, head, hrep, ?_, ?_⟩
    · rw [h.obtained]; simp
    · rw [h.ptrs, List.length_append, List.length_singleton, List.range_succ, List.map_append]
      rfl
  · simp only [step, h.rep.getSQE_of_full (by omega), Option.some.injEq] at hs
    subst hs
    rw [Fifo.step, if_neg hlt]
    exact ⟨hread, head, h⟩

theorem matches_submit {q : Fifo (SQE n)} (h : Matches k q s) {c : SQCall n} {reply : EnterReply}
    (hc : c = .submit reply ∨ c = .submitAndWait reply)
    (hfull : reply = .consumed s.ring.flushSQ.1.toNat) (hs : s.step c = some s') :
    Matches k ⟨[], q.delivered ++ q.waiting⟩ s' := by
  obtain ⟨hread, head, h⟩ := h
  obtain ⟨-, hinv, hread'⟩ := step_submit hc h hs
  have ha : reply.amount = q.waiting.length := by rw [hfull]; exact h.rep.flushSQ.1
  rw [List.nil_append, ha] at hinv hread'
  rw [List.drop_length] at hinv
  rw [List.take_length, hread] at hread'
  exact ⟨hread', _, hinv⟩

/-- Along a run with full consumption the ring matches the abstract queue. -/
theorem run_matches {s₀ : SQClient n} {head₀ : Nat} {calls : List (SQCall n)}
    (h0 : s₀.Inv k head₀ [] []) (hr0 : s₀.read = [])
    (hrun : Run step Full s₀ calls s) : Matches k (Fifo.after (2 ^ k) calls) s := by
  induction hrun with
  | start => exact ⟨hr0, head₀, h0⟩
  | @next calls s s' c _ hok hs ih =>
    rw [Fifo.after_concat]
    cases c with
    | getSQE => exact matches_getSQE ih hs
    | fill j sqe =>
      obtain ⟨hread, head, h⟩ := ih
      refine ⟨?_, head, (inv_fill h hs).2⟩
      simp only [step] at hs
      split at hs
      · cases hs
      · cases hs; exact hread
    | submit reply => exact matches_submit ih (Or.inl rfl) hok hs
    | submitAndWait reply => exact matches_submit ih (Or.inr rfl) hok hs

/-- No call moves the mappings. -/
theorem step_p {c : SQCall n} (hs : s.step c = some s') : s'.ring.p = s.ring.p := by
  have hflush : s.ring.flushSQ.2.p = s.ring.p := by rw [Ring.flushSQ_frame]
  have henter : ∀ count wrap reply,
      (s.ring.flushSQ.2.enter count wrap reply).ring.p = s.ring.p := by
    intro count wrap reply
    rw [Ring.enter_frame]
    exact hflush
  cases c with
  | getSQE =>
    have hget : s.ring.getSQE.2.p = s.ring.p := by rw [Ring.getSQE_frame]
    simp only [step] at hs
    split at hs <;> rename_i he <;> rw [he] at hget <;> cases hs <;> exact hget
  | fill j sqe =>
    simp only [step] at hs
    split at hs
    · cases hs
    · cases hs; rfl
  | submit reply =>
    simp only [step, Ring.submit] at hs
    split_ifs at hs
    · cases hs; exact hflush
    · cases hs; exact henter s.ring.flushSQ.1 .enterSubmit reply
  | submitAndWait reply =>
    simp only [step] at hs
    split_ifs at hs
    cases hs
    exact henter s.ring.flushSQ.1 .enterSubmitWait reply

/-- What a ring set up with `p` and the abstract queue have to do with each other. -/
structure SubmissionFifo (p : Params) (q : Fifo (SQE n)) (s : SQClient n) : Prop where
  /-- The kernel has read exactly what was delivered, in order. -/
  read : s.read = q.delivered
  /-- What was obtained, as filled in, has been delivered or waits for the next submit. -/
  obtained : s.obtained = q.delivered ++ q.waiting
  held : s.ptrs.length = q.waiting.length
  /-- `GetSQE` returns nil exactly when the whole ring was obtained since the last submit. -/
  nil_iff : s.ring.getSQE.1 = none ↔ s.ptrs.length = p.sqEntries.toNat
  /-- The next submit counts what was obtained since the last one. -/
  count : s.ring.flushSQ.1.toNat = s.ptrs.length
  submit_count : ∀ reply, (s.ring.submit reply).toSubmit =
    if s.ptrs.length = 0 then none else some s.ring.flushSQ.1
  submitAndWait_count : ∀ reply, (s.ring.submitAndWait reply).toSubmit = some s.ring.flushSQ.1
  /-- Stores to entries, by `GetSQE` and through the pointers it returned. -/
  get_access : ∀ idx, s.ring.getSQE.1 = some idx → idx * sqeSize n + sqeSize n ≤ p.sqesSize n
  fill_access : ∀ idx ∈ s.ptrs, idx * sqeSize n + sqeSize n ≤ p.sqesSize n
  /-- Stores to the index array. -/
  flush_access : ∀ idx ∈ s.ring.flushSlots, p.sqOffArray.toNat + idx.toNat * 4 + 4 ≤ p.sqRingSize
  /-- The kernel's loads from the index array and of the entries it points to. -/
  kernel_access : ∀ a ∈ s.ring.flushSQ.2.unconsumedSlots,
    p.sqOffArray.toNat + a * 4 + 4 ≤ p.sqRingSize ∧
      (s.ring.flushSQ.2.sqArray a).toNat * sqeSize n + sqeSize n ≤ p.sqesSize n

/-- **The submission queue refines a bounded FIFO**, from any common initial value of
its counters and so across any number of wraps past `2 ^ 32`. -/
theorem submission_refines_fifo {p : Params} {k : Nat} (hp : p.sqEntries.toNat = 2 ^ k)
    (sq cq : UInt32) (sqArray : Nat → UInt32) (sqes : Nat → SQE n) (cqes : Nat → CQE)
    (calls : List (SQCall n)) (s : SQClient n)
    (hrun : Run step Full (start (Ring.setup p sq cq sqArray sqes cqes)) calls s) :
    SubmissionFifo p (Fifo.after (2 ^ k) calls) s := by
  obtain ⟨hread, head, h⟩ := run_matches (inv_start hp sq cq sqArray sqes cqes) rfl hrun
  have hparam : s.ring.p = p := hrun.invariant (I := fun s => s.ring.p = p) rfl
    fun s c s' hI _ hs => (step_p hs).trans hI
  have hring : s.ring.mmapSQ = p.sqRingSize := by
    rw [h.rep.geometry.ringLength, hparam, Params.sqRingSize, hp]
  have hsqes : s.ring.mmapSQEs = p.sqesSize n := by
    rw [h.rep.geometry.sqesLength, Params.sqesSize, hp]
  have hlen := h.ptrs_length
  obtain ⟨hcount, hflush⟩ := h.rep.flushSQ
  have slot : ∀ q : Nat, p.sqOffArray.toNat + q % 2 ^ k * 4 + 4 ≤ p.sqRingSize ∧
      q % 2 ^ k * sqeSize n + sqeSize n ≤ p.sqesSize n := by
    intro q
    exact ⟨by rw [← hring, ← hparam]; exact h.rep.slot_in_ring q,
      by rw [← hsqes]; exact h.rep.slot_in_sqes q⟩
  have hroom := h.rep.room
  rw [List.length_nil, Nat.zero_add] at hroom
  refine ⟨hread, by rw [h.obtained, hread]; rfl, hlen, ?_, hcount.trans hlen.symm, ?_, ?_, ?_, ?_,
    ?_, ?_⟩
  · rw [hlen, hp]
    rcases Nat.lt_or_eq_of_le hroom with hlt | hfull
    · rw [h.rep.getSQE_of_lt hlt]
      simp only [reduceCtorEq, false_iff]
      omega
    · rw [h.rep.getSQE_of_full hfull]
      simp only [hfull]
  · intro reply
    rw [hlen, ← hcount]
    unfold Ring.submit
    by_cases h0 : s.ring.flushSQ.1 = 0
    · simp only [h0]; rfl
    · have h0' : s.ring.flushSQ.1.toNat ≠ 0 := fun he => h0 (UInt32.toNat_inj.mp he)
      simp only [if_neg h0, if_neg h0']
      cases reply <;> rfl
  · intro reply
    cases reply <;> rfl
  · intro idx hidx
    by_cases hlt : (Fifo.after (2 ^ k) calls).waiting.length < 2 ^ k
    · rw [h.rep.getSQE_of_lt hlt] at hidx
      exact Option.some.inj hidx ▸ (slot _).2
    · rw [h.rep.getSQE_of_full (by omega)] at hidx
      cases hidx
  · intro idx hidx
    rw [h.ptrs] at hidx
    obtain ⟨j, -, rfl⟩ := List.mem_map.mp hidx
    exact (slot _).2
  · intro idx hidx
    have hmem := List.mem_map_of_mem (f := UInt32.toNat) hidx
    rw [h.rep.flushSlots] at hmem
    obtain ⟨j, -, hj⟩ := List.mem_map.mp hmem
    exact hj ▸ (slot _).1
  · intro a ha
    rw [hflush.unconsumedSlots_eq] at ha
    obtain ⟨i, hi, rfl⟩ := List.mem_map.mp ha
    exact ⟨(slot _).1, by rw [hflush.array i (List.mem_range.mp hi)]; exact (slot _).2⟩

/-- The counters of this run start one below the wrap. -/
theorem submission_refines_fifo_wrap :
    ∃ s : SQClient 16, Run step Full
        (start (Ring.setup ⟨2, 4, 64, 64⟩ 0xFFFFFFFF 0 (fun _ => 7) (fun _ => entry 9)
          (fun _ => ⟨0, 0, 0⟩)))
        [.getSQE, .fill 0 (entry 1), .getSQE, .fill 1 (entry 2), .getSQE,
          .submit (.consumed 2), .getSQE] s ∧
      SubmissionFifo ⟨2, 4, 64, 64⟩ ⟨[SQE.zero 16], [entry 1, entry 2]⟩ s := by
  have hex : ∃ s : SQClient 16, Run step Full
      (start (Ring.setup ⟨2, 4, 64, 64⟩ 0xFFFFFFFF 0 (fun _ => 7) (fun _ => entry 9)
        (fun _ => ⟨0, 0, 0⟩)))
      [.getSQE, .fill 0 (entry 1), .getSQE, .fill 1 (entry 2), .getSQE,
        .submit (.consumed 2), .getSQE] s ∧ s.ring.sqTail = 1 :=
    exists_run_of_exec _ (by decide +kernel)
  obtain ⟨s, hrun, -⟩ := hex
  exact ⟨s, hrun, submission_refines_fifo (k := 1) rfl _ _ _ _ _ _ s hrun⟩

end SQClient
end Ublk
