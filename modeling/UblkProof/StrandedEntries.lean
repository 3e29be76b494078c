import UblkProof.SubmissionCalls

/-! # What the next submit offers

A submit tells the kernel how many entries to take: the distance from `sqeLocalHead` to the
tail.  `flushSQ` moves `sqeLocalHead` to the tail before the system call is made, so whatever
the kernel does not take is no longer counted.  Only `nextSQE` sets `sqeLocalHead` back, to the
kernel's head, and only when it finds the ring privately full.

`Offsets` follows the four counters through every sequence of calls, with no condition on them:
entry numbers count from the ring's initial counters, and `counted` is the entry number at
`sqeLocalHead`, which is that of the shared tail or that of the kernel's head.
-/
namespace Ublk
open CircularBuffer Runs
open Ublk.Ring (EnterReply)

variable {n : Nat}

theorem Ring.length_consume : ∀ (j : Nat) (r : Ring n), (r.consume j).1.length = j
  | 0, _ => rfl
  | j + 1, r => congrArg (· + 1) (Ring.length_consume j r.consumeOne.2)

/-- What `GetSQE` does to the private counters. -/
theorem Ring.getSQE_counters (r : Ring n) :
    (r.getSQE.2.sqeLocalHead = r.sqeLocalHead ∨ r.getSQE.2.sqeLocalHead = r.sqHead) ∧
      r.getSQE.2.sqeLocalTail =
        match r.getSQE.1 with
        | some _ => r.sqeLocalTail + 1
        | none => r.sqeLocalTail := by
  simp only [Ring.getSQE, Ring.nextSQE]
  split_ifs
  · exact ⟨.inr rfl, rfl⟩
  · exact ⟨.inr rfl, rfl⟩
  · exact ⟨.inl rfl, rfl⟩

/-- What `flushSQ` does to the counters, if there is something to publish. -/
theorem Ring.flushSQ_counters {r : Ring n} (h : r.flushSQ.1 ≠ 0) :
    r.flushSQ.2.sqHead = r.sqHead ∧ r.flushSQ.2.sqTail = r.sqeLocalTail ∧
      r.flushSQ.2.sqeLocalHead = r.sqeLocalTail ∧ r.flushSQ.2.sqeLocalTail = r.sqeLocalTail := by
  simp only [Ring.flushSQ] at h ⊢
  split_ifs at h ⊢
  · exact absurd rfl h
  · exact ⟨rfl, rfl, rfl, rfl⟩

theorem Ring.flushSQ_zero {r : Ring n} (h : r.flushSQ.1 = 0) : r.flushSQ.2 = r := by
  simp only [Ring.flushSQ] at h ⊢
  split_ifs at h ⊢ with h0
  · rfl
  · exact absurd h h0

namespace SQClient
variable {s s' : SQClient n} {base published counted : Nat}

/-- The counters of a ring whose entries are numbered from `base` on. -/
structure Offsets (base published counted : Nat) (s : SQClient n) : Prop where
  sqHead : s.ring.sqHead = UInt32.ofNat (base + s.read.length)
  sqTail : s.ring.sqTail = UInt32.ofNat (base + published)
  localHead : s.ring.sqeLocalHead = UInt32.ofNat (base + counted)
  localTail : s.ring.sqeLocalTail = UInt32.ofNat (base + s.obtained.length)
  read_le : s.read.length ≤ published
  published_le : published ≤ s.obtained.length
  counted_eq : counted = published ∨ counted = s.read.length

/-- The number of entries obtained and not yet consumed. -/
def left (s : SQClient n) : Nat := s.obtained.length - s.read.length

/-- How many entries a submit offers to the kernel; none if it makes no system call. -/
def offered (out : Ring.Submitted n) : Nat := (out.toSubmit.getD 0).toNat

namespace Offsets

theorem start (p : Params) (sq cq : UInt32) (sqArray : Nat → UInt32) (sqes : Nat → SQE n)
    (cqes : Nat → CQE) :
    Offsets sq.toNat 0 0 (SQClient.start (Ring.setup p sq cq sqArray sqes cqes)) where
  sqHead := UInt32.ofNat_toNat.symm
  sqTail := UInt32.ofNat_toNat.symm
  localHead := UInt32.ofNat_toNat.symm
  localTail := UInt32.ofNat_toNat.symm
  read_le := Nat.le_refl 0
  published_le := Nat.le_refl 0
  counted_eq := .inl rfl

theorem counted_le (h : Offsets base published counted s) : counted ≤ s.obtained.length := by
  have := h.read_le
  have := h.published_le
  rcases h.counted_eq with he | he <;> omega

theorem read_le_counted (h : Offsets base published counted s) : s.read.length ≤ counted := by
  have := h.read_le
  rcases h.counted_eq with he | he <;> omega

/-- The private distance, as the counters have it. -/
theorem localDist (h : Offsets base published counted s) :
    s.ring.sqeLocalTail - s.ring.sqeLocalHead = UInt32.ofNat (s.obtained.length - counted) := by
  have := h.counted_le
  rw [h.localTail, h.localHead, ofNat_sub_ofNat (by omega)]
  congr 1
  omega

theorem flushSQ_fst (h : Offsets base published counted s) :
    s.ring.flushSQ.1 = UInt32.ofNat (s.obtained.length - counted) := by
  rw [← h.localDist]
  simp only [Ring.flushSQ]
  split_ifs with h0
  · exact h0.symm
  · rfl

/-- The count a submit passes is at most what is counted; less if it wraps. -/
theorem flushSQ_le (h : Offsets base published counted s) :
    s.ring.flushSQ.1.toNat ≤ s.obtained.length - counted := by
  rw [h.flushSQ_fst, UInt32.toNat_ofNat']
  exact Nat.mod_le _ _

/-- Told of no more entries than wait, the kernel takes no more than are left. -/
theorem amount_le (h : Offsets base published counted s) {reply : EnterReply}
    (hl : reply.Legal s.ring.flushSQ.1) : reply.amount ≤ s.obtained.length - counted := by
  cases reply with
  | consumed j => exact Nat.le_trans hl h.flushSQ_le
  | errno e => exact Nat.zero_le _

/-- `nextSQE` leaves `sqeLocalHead` alone or loads the kernel's head. -/
theorem getSQE (h : Offsets base published counted s) (hs : s.step .getSQE = some s') :
    ∃ counted', Offsets base published counted' s' := by
  obtain ⟨hhead, htail⟩ := s.ring.getSQE_counters
  have hframe := s.ring.getSQE_frame
  have hcounted : ∃ counted', s.ring.getSQE.2.sqeLocalHead = UInt32.ofNat (base + counted') ∧
      (counted' = published ∨ counted' = s.read.length) := by
    rcases hhead with he | he
    · exact ⟨counted, he.trans h.localHead, h.counted_eq⟩
    · exact ⟨s.read.length, he.trans h.sqHead, .inr rfl⟩
  obtain ⟨counted', hc, heq⟩ := hcounted
  have hsq : s.ring.getSQE.2.sqHead = s.ring.sqHead ∧ s.ring.getSQE.2.sqTail = s.ring.sqTail := by
    rw [hframe]
    exact ⟨rfl, rfl⟩
  simp only [SQClient.step] at hs
  split at hs <;> rename_i hget <;> rw [hget] at hc htail hsq <;> cases hs
  · exact ⟨counted', hsq.1.trans h.sqHead, hsq.2.trans h.sqTail, hc, htail.trans h.localTail,
      h.read_le, h.published_le, heq⟩
  · refine ⟨counted', hsq.1.trans h.sqHead, hsq.2.trans h.sqTail, hc, ?_, h.read_le, ?_, heq⟩
    · rw [List.length_append, List.length_singleton, ← Nat.add_assoc, ← ofNat_add_one,
        ← h.localTail]
      exact htail
    · rw [List.length_append]
      exact Nat.le_trans h.published_le (Nat.le_add_right _ _)

theorem fill (h : Offsets base published counted s) {j : Nat} {sqe : SQE n}
    (hs : s.step (.fill j sqe) = some s') : Offsets base published counted s' := by
  simp only [SQClient.step] at hs
  split at hs
  · cases hs
  · cases hs
    exact ⟨h.sqHead, h.sqTail, h.localHead, by rw [List.length_set]; exact h.localTail, h.read_le,
      by rw [List.length_set]; exact h.published_le, h.counted_eq⟩

/-- A system call that is told of some entries: everything is published, and what the kernel
does not take is counted no more. -/
theorem enter (h : Offsets base published counted s) {reply : EnterReply}
    (hl : reply.Legal s.ring.flushSQ.1) (h0 : s.ring.flushSQ.1 ≠ 0) (wrap : Errno → UringError) :
    Offsets base s.obtained.length s.obtained.length
        (s.afterSubmit (s.ring.flushSQ.2.enter s.ring.flushSQ.1 wrap reply)) ∧
      (s.afterSubmit (s.ring.flushSQ.2.enter s.ring.flushSQ.1 wrap reply)).read.length =
        s.read.length + reply.amount := by
  obtain ⟨hhead, htail, hlhead, hltail⟩ := Ring.flushSQ_counters h0
  have hle := h.amount_le hl
  have := h.read_le_counted
  have := h.counted_le
  have hring : (s.ring.flushSQ.2.enter s.ring.flushSQ.1 wrap reply).ring =
      { s.ring.flushSQ.2 with
        sqHead := s.ring.flushSQ.2.sqHead + UInt32.ofNat reply.amount } :=
    Ring.consume_snd reply.amount s.ring.flushSQ.2
  have hread : (s.read ++ (s.ring.flushSQ.2.enter s.ring.flushSQ.1 wrap reply).read).length =
      s.read.length + reply.amount := by
    rw [List.length_append]
    exact congrArg (s.read.length + ·) (Ring.length_consume reply.amount s.ring.flushSQ.2)
  refine ⟨⟨?_, ?_, ?_, ?_, ?_, Nat.le_refl _, .inl rfl⟩, hread⟩
  · show (s.ring.flushSQ.2.enter s.ring.flushSQ.1 wrap reply).ring.sqHead = _
    show _ = UInt32.ofNat (base + (s.read ++ _).length)
    rw [hring, hread, ← Nat.add_assoc, UInt32.ofNat_add, ← h.sqHead, ← hhead]
  · show (s.ring.flushSQ.2.enter s.ring.flushSQ.1 wrap reply).ring.sqTail = _
    rw [hring]
    exact htail.trans h.localTail
  · show (s.ring.flushSQ.2.enter s.ring.flushSQ.1 wrap reply).ring.sqeLocalHead = _
    rw [hring]
    exact hlhead.trans h.localTail
  · show (s.ring.flushSQ.2.enter s.ring.flushSQ.1 wrap reply).ring.sqeLocalTail = _
    rw [hring]
    exact hltail.trans h.localTail
  · show (s.read ++ _).length ≤ _
    rw [hread]
    show _ ≤ s.obtained.length
    omega

/-- A submit that has nothing to publish leaves everything as it is. -/
theorem submit_zero (h : Offsets base published counted s) {c : SQCall n} {reply : EnterReply}
    (hc : c = .submit reply ∨ c = .submitAndWait reply) (h0 : s.ring.flushSQ.1 = 0)
    (hs : s.step c = some s') : Offsets base published counted s' := by
  have hflush := Ring.flushSQ_zero h0
  have hsame : ∀ out : Ring.Submitted n, out.ring = s.ring → out.read = [] →
      Offsets base published counted (s.afterSubmit out) := by
    rintro ⟨ring, read, toSubmit, ret⟩ rfl rfl
    have hr : s.read ++ [] = s.read := List.append_nil _
    exact ⟨by rw [afterSubmit, hr]; exact h.sqHead, h.sqTail, h.localHead, h.localTail,
      by rw [afterSubmit, hr]; exact h.read_le, h.published_le,
      by rw [afterSubmit, hr]; exact h.counted_eq⟩
  rcases hc with rfl | rfl <;> simp only [SQClient.step] at hs <;> split_ifs at hs with hl <;>
    cases hs
  · refine hsame _ ?_ ?_ <;> simp only [Ring.submit, if_pos h0, hflush]
  · -- the kernel is told of no entries and takes none
    have ha : reply.amount = 0 := by
      have hle := h.amount_le hl
      cases reply with
      | consumed j =>
        have hj : j ≤ s.ring.flushSQ.1.toNat := hl
        rw [h0] at hj
        exact Nat.le_zero.mp hj
      | errno e => rfl
    refine hsame _ ?_ ?_
    · show (s.ring.flushSQ.2.consume reply.amount).2 = _
      rw [ha, hflush]
      rfl
    · show (s.ring.flushSQ.2.consume reply.amount).1 = _
      rw [ha]
      rfl

/-- A submit that has something to publish. -/
theorem submit_pos (h : Offsets base published counted s) {c : SQCall n} {reply : EnterReply}
    (hc : c = .submit reply ∨ c = .submitAndWait reply) (h0 : s.ring.flushSQ.1 ≠ 0)
    (hs : s.step c = some s') : Offsets base s.obtained.length s.obtained.length s' ∧
      s'.obtained = s.obtained ∧ s'.read.length = s.read.length + reply.amount ∧
      reply.Legal s.ring.flushSQ.1 := by
  rcases hc with rfl | rfl <;> simp only [SQClient.step] at hs <;> split_ifs at hs with hl <;>
    cases hs
  · have hsub : s.ring.submit reply =
        s.ring.flushSQ.2.enter s.ring.flushSQ.1 .enterSubmit reply := by
      simp only [Ring.submit, if_neg h0]
    rw [hsub]
    obtain ⟨ho, hr⟩ := h.enter hl h0 .enterSubmit
    exact ⟨ho, rfl, hr, hl⟩
  · obtain ⟨ho, hr⟩ := h.enter hl h0 .enterSubmitWait
    exact ⟨ho, rfl, hr, hl⟩

theorem step (h : Offsets base published counted s) {c : SQCall n} (hs : s.step c = some s') :
    ∃ published' counted', Offsets base published' counted' s' := by
  have hsubmit : ∀ reply, c = .submit reply ∨ c = .submitAndWait reply →
      ∃ published' counted', Offsets base published' counted' s' := by
    intro reply hc
    by_cases h0 : s.ring.flushSQ.1 = 0
    · exact ⟨published, counted, h.submit_zero hc h0 hs⟩
    · exact ⟨_, _, (h.submit_pos hc h0 hs).1⟩
  cases c with
  | getSQE => exact ⟨published, h.getSQE hs⟩
  | fill j sqe => exact ⟨published, counted, h.fill hs⟩
  | submit reply => exact hsubmit reply (.inl rfl)
  | submitAndWait reply => exact hsubmit reply (.inr rfl)

/-! ## The next submit -/

/-- `Submit` offers what is counted. -/
theorem offered_eq (h : Offsets base published counted s) (reply : EnterReply) :
    offered (s.ring.submit reply) = (s.obtained.length - counted) % 2 ^ 32 := by
  have hcount : s.ring.flushSQ.1.toNat = (s.obtained.length - counted) % 2 ^ 32 := by
    rw [h.flushSQ_fst, UInt32.toNat_ofNat']
  rw [← hcount]
  by_cases h0 : s.ring.flushSQ.1 = 0
  · simp only [offered, Ring.submit, h0]
    rfl
  · simp only [offered, Ring.submit, if_neg h0]
    rfl

/-- The counters' own measure of what is left, after the flush. -/
theorem sharedDist (h : Offsets base published counted s) (hlt : s.left < 2 ^ 32) :
    (s.ring.flushSQ.2.sqTail - s.ring.flushSQ.2.sqHead).toNat = s.left := by
  have hrc := h.read_le_counted
  have hco := h.counted_le
  have hrp := h.read_le
  have hpo := h.published_le
  rw [left] at hlt ⊢
  have hdist : ∀ t, s.read.length ≤ t → t ≤ s.obtained.length →
      (UInt32.ofNat (base + t) - UInt32.ofNat (base + s.read.length)).toNat =
        t - s.read.length := by
    intro t h1 h2
    rw [dist_ofNat (by omega) (by omega)]
    omega
  by_cases h0 : s.ring.flushSQ.1 = 0
  · -- nothing is counted, so everything is published
    have hc : (s.obtained.length - counted) % 2 ^ 32 = 0 := by
      rw [← UInt32.toNat_ofNat', ← h.flushSQ_fst, h0]
      rfl
    rw [Nat.mod_eq_of_lt (by omega)] at hc
    rw [Ring.flushSQ_zero h0, h.sqTail, h.sqHead, hdist published hrp hpo]
    rcases h.counted_eq with he | he <;> omega
  · obtain ⟨hhead, htail, -, -⟩ := Ring.flushSQ_counters h0
    rw [htail, hhead, h.localTail, h.sqHead, hdist _ (by omega) (Nat.le_refl _)]

theorem offered_iff (h : Offsets base published counted s) (reply : EnterReply) :
    s.left ≤ offered (s.ring.submit reply) ↔
      s.ring.sqeLocalHead = s.ring.sqHead ∧ s.left < 2 ^ 32 := by
  have hrc := h.read_le_counted
  have hco := h.counted_le
  rw [h.offered_eq, left]
  constructor
  · -- entries below `counted` are never offered, so there must be none that is not consumed
    intro hle
    have hmod := Nat.mod_le (s.obtained.length - counted) (2 ^ 32)
    have hlt := Nat.mod_lt (s.obtained.length - counted) (Nat.two_pow_pos 32)
    have he : counted = s.read.length := by omega
    exact ⟨by rw [h.localHead, h.sqHead, he], by omega⟩
  · rintro ⟨he, hlt⟩
    have hdist : (s.ring.sqeLocalHead - s.ring.sqHead).toNat = counted - s.read.length := by
      rw [h.localHead, h.sqHead, dist_ofNat (by omega) (by omega)]
      omega
    rw [he, UInt32.sub_self] at hdist
    have hzero : (0 : UInt32).toNat = 0 := rfl
    rw [Nat.mod_eq_of_lt (by omega)]
    omega

theorem of_run {p : Params} {sq cq : UInt32} {sqArray : Nat → UInt32} {sqes : Nat → SQE n}
    {cqes : Nat → CQE} {calls : List (SQCall n)}
    (h : Run SQClient.step (fun _ _ => True)
      (SQClient.start (Ring.setup p sq cq sqArray sqes cqes)) calls s) :
    ∃ published counted, Offsets sq.toNat published counted s :=
  h.invariant (I := fun s => ∃ published counted, Offsets sq.toNat published counted s)
    ⟨0, 0, Offsets.start p sq cq sqArray sqes cqes⟩ fun _ _ _ ⟨_, _, hi⟩ _ hs => hi.step hs

end Offsets

/-- **What the next `Submit` offers**, after any sequence of calls and replies.

* It offers all entries obtained and not consumed exactly if `sqeLocalHead` is the kernel's
  head, and fewer than `2 ^ 32` entries are left.
* Their number is the distance of the shared counters after the flush.
* After a submit of which the kernel took less than it was told of, entries are left and
  `sqeLocalHead` is the tail: the next `Submit` makes no system call and returns `0, nil`. -/
theorem next_submit_offers_iff (p : Params) (sq cq : UInt32) (sqArray : Nat → UInt32)
    (sqes : Nat → SQE n) (cqes : Nat → CQE) (calls : List (SQCall n)) (s : SQClient n)
    (hrun : Run step (fun _ _ => True) (start (Ring.setup p sq cq sqArray sqes cqes)) calls s) :
    (∀ reply, s.left ≤ offered (s.ring.submit reply) ↔
      s.ring.sqeLocalHead = s.ring.sqHead ∧ s.left < 2 ^ 32) ∧
    (s.left < 2 ^ 32 → (s.ring.flushSQ.2.sqTail - s.ring.flushSQ.2.sqHead).toNat = s.left) ∧
    (∀ c reply s', (c = .submit reply ∨ c = .submitAndWait reply) →
      reply.amount < s.ring.flushSQ.1.toNat → s.step c = some s' →
      0 < s'.left ∧ ∀ reply', (s'.ring.submit reply').toSubmit = none ∧
        (s'.ring.submit reply').ret = .ok 0) := by
  obtain ⟨published, counted, h⟩ := Offsets.of_run hrun
  refine ⟨h.offered_iff, h.sharedDist, ?_⟩
  intro c reply s' hc hshort hs
  have h0 : s.ring.flushSQ.1 ≠ 0 := by
    intro he
    rw [he] at hshort
    exact absurd hshort (Nat.not_lt_zero _)
  obtain ⟨h', hobtained, hread, hl⟩ := h.submit_pos hc h0 hs
  have hcount := h.flushSQ_le
  have hrc := h.read_le_counted
  refine ⟨?_, fun reply' => ?_⟩
  · rw [left, hobtained, hread]
    omega
  · -- the flush of the short submit has counted everything, so the next one counts nothing
    have hzero : s'.ring.flushSQ.1 = 0 := by
      rw [h'.flushSQ_fst, hobtained, Nat.sub_self]
      rfl
    simp only [Ring.submit, hzero]
    exact ⟨rfl, rfl⟩

/-- A one-entry ring: a submit fails, one more entry is obtained, and a `GetSQE` that finds the
ring privately full puts `sqeLocalHead` back. -/
theorem next_submit_offers_reloaded :
    ∃ s : SQClient 16, Run step (fun _ _ => True) (start (blank 16 ⟨1, 2, 64, 64⟩))
        [.getSQE, .fill 0 (entry 1), .submit (.errno 11), .getSQE, .getSQE] s ∧
      s.left = 2 ∧ s.left ≤ offered (s.ring.submit (.consumed 2)) := by
  have hex : ∃ s : SQClient 16, Run step (fun _ _ => True) (start (blank 16 ⟨1, 2, 64, 64⟩))
      [.getSQE, .fill 0 (entry 1), .submit (.errno 11), .getSQE, .getSQE] s ∧
      s.left = 2 ∧ s.ring.sqeLocalHead = s.ring.sqHead :=
    exists_run_of_exec _ (by decide +kernel)
  obtain ⟨s, hrun, hleft, hhead⟩ := hex
  refine ⟨s, hrun, hleft, ?_⟩
  exact ((next_submit_offers_iff _ 0 0 _ _ _ _ s hrun).1 (.consumed 2)).mpr
    ⟨hhead, by rw [hleft]; decide⟩

/-- **A failed submit strands its entry.**  The next `Submit` finds nothing to count, although
the entry is in the ring and not consumed. -/
theorem entry_stranded_after_failed_submit :
    ∃ s : SQClient 16, Run step (fun _ _ => True) (start (blank 16 ⟨4, 8, 64, 64⟩))
        [.getSQE, .fill 0 (entry 1), .submit (.errno 11)] s ∧
      s.ring.sqTail - s.ring.sqHead = 1 ∧ s.left = 1 ∧
      (s.ring.submit (.consumed 1)).toSubmit = none ∧
      (s.ring.submit (.consumed 1)).ret.toOption = some 0 :=
  exists_run_of_exec _ (by decide +kernel)

end SQClient
end Ublk
