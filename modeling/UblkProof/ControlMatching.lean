import UblkProof.CompletionQueue
import UblkProof.ControlCommand

/-! # Matching control commands and completions

A failed `Submit` leaves its entry published: `flushSQ` has already moved the tail.  The next
call's `io_uring_enter` then takes the oldest entry, not the one just filled in, and the call
waits for that entry's completion.  Since `GetSQE128` looks at the private counters only, it
never finds the ring full, and later calls overwrite the entries left behind; after
`2 ^ k` failures the slot at the kernel's head is again the one filled last.

So after `f` failures, call `n` makes the kernel execute the command of call
`n - f % 2 ^ k` (`Trail.consumeOne`).  Responses match exactly while every successful
`io_uring_enter` comes after a number of failed ones that `2 ^ k` divides.
-/
namespace Ublk
open CircularBuffer LittleEndian Runs
open Ublk.Ring (EnterReply)

/-! ## The submission side of a ring that is overrun -/

section Trail
variable {n : Nat}

/-- What the submission side holds when entries may be left behind and overwritten: every
entry ever filled in, how many of them are published and how many the kernel has passed. -/
structure Trail (r : Ring n) (k base : Nat) (entries : List (SQE n)) (published consumed : Nat) :
    Prop where
  geometry : SQGeometry r k
  sqHead : r.sqHead = UInt32.ofNat (base + consumed)
  localHead : r.sqeLocalHead = UInt32.ofNat (base + published)
  localTail : r.sqeLocalTail = UInt32.ofNat (base + entries.length)
  consumed_le : consumed ≤ published
  published_le : published ≤ entries.length
  slots : Latest r.sqes (2 ^ k) base entries
  array : ∀ p < published, (r.sqArray ((base + p) % 2 ^ k)).toNat = (base + p) % 2 ^ k

theorem setup_trail {p : Params} {k : Nat} (hp : p.sqEntries.toNat = 2 ^ k) (sq cq : UInt32)
    (sqArray : Nat → UInt32) (sqes : Nat → SQE n) (cqes : Nat → CQE) :
    Trail (Ring.setup p sq cq sqArray sqes cqes) k sq.toNat [] 0 0 :=
  have h := setup_rep hp sq cq sqArray sqes cqes
  ⟨h.geometry, h.sqHead, h.localHead, h.localTail, Nat.le_refl _, Nat.le_refl _, .nil,
    fun _ h => absurd h (Nat.not_lt_zero _)⟩

namespace Trail
variable {r : Ring n} {k base : Nat} {entries : List (SQE n)} {published consumed : Nat}

/-- With nothing waiting, `GetSQE` hands out a slot, whatever the kernel still has to read. -/
theorem getSQE (h : Trail r k base entries entries.length consumed) :
    r.getSQE = (some ((base + entries.length) % 2 ^ k),
        Ring.writeSQE { r with sqeLocalTail := r.sqeLocalTail + 1 }
          ((base + entries.length) % 2 ^ k) (SQE.zero n)) := by
  have hpos : 0 < 2 ^ k := Nat.two_pow_pos k
  have hnot : ¬ r.sqeLocalTail - r.sqeLocalHead ≥ r.sqEntries := by
    rw [h.localTail, h.localHead, UInt32.sub_self, ge_iff_le, UInt32.le_iff_toNat_le,
      h.geometry.entries]
    exact Nat.not_le_of_lt hpos
  have hidx : (r.sqeLocalTail &&& r.sqMask).toNat = (base + entries.length) % 2 ^ k := by
    rw [h.localTail, and_mask_ofNat h.geometry.le h.geometry.mask]
  simp only [Ring.getSQE, Ring.nextSQE, if_neg hnot, hidx]

/-- Obtaining an entry and filling it in. -/
theorem prepare (h : Trail r k base entries entries.length consumed) (sqe : SQE n) :
    Trail (r.getSQE.2.writeSQE ((base + entries.length) % 2 ^ k) sqe) k base (entries ++ [sqe])
      entries.length consumed := by
  have hzero := h.slots.push (Nat.two_pow_pos k) (SQE.zero n)
  rw [h.getSQE]
  refine ⟨⟨h.geometry.entries, h.geometry.mask, h.geometry.ringLength, h.geometry.sqesLength⟩,
    h.sqHead, h.localHead, ?_, h.consumed_le, ?_, hzero.setLast (Nat.two_pow_pos k) sqe, h.array⟩
  · show r.sqeLocalTail + 1 = _
    rw [h.localTail, ofNat_add_one, List.length_append]
    rfl
  · rw [List.length_append]
    exact Nat.le_add_right _ _

/-- `flushSQ` publishes the one entry that waits. -/
theorem flushSQ (h : Trail r k base entries published consumed)
    (hone : entries.length = published + 1) :
    r.flushSQ.1 = 1 ∧ Trail r.flushSQ.2 k base entries entries.length consumed := by
  have hcount : r.sqeLocalTail - r.sqeLocalHead = 1 := by
    have hdiff : base + (published + 1) - (base + published) = 1 := by omega
    rw [h.localTail, h.localHead, hone, ofNat_sub_ofNat (by omega), hdiff]
    rfl
  have hslots : r.flushSlots = [UInt32.ofNat (base + published) &&& r.sqMask] := by
    rw [Ring.flushSlots, hcount, h.localHead]
    show [UInt32.ofNat (base + published) + 0 &&& r.sqMask] = _
    rw [UInt32.add_zero]
  have hslot := and_mask_ofNat h.geometry.le h.geometry.mask (base + published)
  rw [Ring.flushSQ, hcount, hslots]
  refine ⟨rfl, ⟨⟨h.geometry.entries, h.geometry.mask, h.geometry.ringLength,
    h.geometry.sqesLength⟩, h.sqHead, h.localTail, h.localTail, ?_, Nat.le_refl _, h.slots, ?_⟩⟩
  · exact Nat.le_trans h.consumed_le h.published_le
  · intro p hp
    show (Function.update r.sqArray (UInt32.ofNat (base + published) &&& r.sqMask).toNat
      (UInt32.ofNat (base + published) &&& r.sqMask) ((base + p) % 2 ^ k)).toNat = _
    rw [hslot]
    by_cases he : (base + p) % 2 ^ k = (base + published) % 2 ^ k
    · rw [he, Function.update_self, hslot]
    · have hne : p ≠ published := fun hpp => he (by rw [hpp])
      rw [Function.update_of_ne he]
      exact h.array p (by omega)

/-- The slot the kernel's next read goes to. -/
theorem head_slot (h : Trail r k base entries published consumed) (hlt : consumed < published) :
    (r.sqArray (r.sqHead &&& r.sqMask).toNat).toNat = (base + consumed) % 2 ^ k := by
  rw [h.sqHead, and_mask_ofNat h.geometry.le h.geometry.mask, h.array consumed hlt]

/-- **The kernel reads the entry filled in last among those of the slot at its head.** -/
theorem consumeOne (h : Trail r k base entries entries.length consumed) {m : Nat}
    (hlt : consumed < entries.length) (hm : m < entries.length)
    (he : m = entries.length - 1 - (entries.length - 1 - consumed) % 2 ^ k) :
    r.consumeOne.1 = entries[m] ∧
      Trail r.consumeOne.2 k base entries entries.length (consumed + 1) := by
  refine ⟨?_, ⟨h.geometry.entries, h.geometry.mask, h.geometry.ringLength,
    h.geometry.sqesLength⟩, ?_, h.localHead, h.localTail, hlt, Nat.le_refl _, h.slots, h.array⟩
  · show r.sqes (r.sqArray (r.sqHead &&& r.sqMask).toNat).toNat = _
    rw [h.head_slot hlt]
    exact h.slots.read (Nat.two_pow_pos k) hm he hlt
  · show r.sqHead + 1 = _
    rw [h.sqHead, ofNat_add_one]
    rfl

theorem post (h : Trail r k base entries published consumed) (c : CQE) :
    Trail (r.post c) k base entries published consumed :=
  ⟨⟨h.geometry.entries, h.geometry.mask, h.geometry.ringLength, h.geometry.sqesLength⟩,
    h.sqHead, h.localHead, h.localTail, h.consumed_le, h.published_le, h.slots, h.array⟩

theorem seenCQE (h : Trail r k base entries published consumed) :
    Trail r.seenCQE k base entries published consumed :=
  ⟨⟨h.geometry.entries, h.geometry.mask, h.geometry.ringLength, h.geometry.sqesLength⟩,
    h.sqHead, h.localHead, h.localTail, h.consumed_le, h.published_le, h.slots, h.array⟩

end Trail
end Trail

/-! ## The property -/

/-- The call whose command the kernel works on. -/
def CtrlEvent.executed : CtrlEvent → Option Nat
  | .consumed i _ => some i
  | .posted i _ => some i
  | .returned _ _ => none

/-- The call whose caller is told of an error. -/
def CtrlEvent.rejected : CtrlEvent → Option Nat
  | .returned i out => if out.failed then some i else none
  | .consumed _ _ => none
  | .posted _ _ => none

/-- A call returned because `io_uring_enter` failed. -/
def CtrlEvent.submitFailed : CtrlEvent → Bool
  | .returned _ (.uring (.enterSubmit _)) => true
  | _ => false

/-- The entry carries the command of the call. -/
structure Carries (ctrlFD : Int32) (sqe : SQE128) (c : CtrlCall) : Prop where
  opcode : sqe.opcode = opUringCmd
  fd : sqe.fd = ctrlFD
  off : sqe.off = c.cmdOp.toUInt64
  cmd : CtrlCmd.decode sqe.cmd = c.cmd

theorem CtrlCall.carries_fill (c : CtrlCall) (ctrlFD : Int32) (sqe : SQE128) :
    Carries ctrlFD (c.fill ctrlFD sqe) c :=
  ⟨rfl, rfl, rfl, CtrlCmd.decode_copyInto (by decide) sqe.cmd c.cmd⟩

/-- **Responses match.**  A `Res` a call returns is that of the completion of its own entry,
which carried its own command; and the kernel works on no command after its call returned
an error. -/
structure ResponsesMatched (ctrlFD : Int32) (s : CtrlWorld) : Prop where
  response : ∀ i op res, .returned i (.completed op res) ∈ s.log →
    (∃ c, s.calls[i]? = some c ∧ c.cmdOp = op) ∧
      ∃ sqe c, .consumed i sqe ∈ s.log ∧ .posted i c ∈ s.log ∧ c.res = res
  command : ∀ i sqe, .consumed i sqe ∈ s.log → ∃ c, s.calls[i]? = some c ∧ Carries ctrlFD sqe c
  in_time : s.log.Pairwise fun a b => ∀ i, a.rejected = some i → b.executed ≠ some i

/-- The number of `io_uring_enter` calls that failed so far. -/
def CtrlWorld.failures (s : CtrlWorld) : Nat := s.log.countP CtrlEvent.submitFailed

/-- `io_uring_enter` consumes the one entry it is asked to or fails, `epoll_wait` does not
fail. -/
def CtrlAction.Served : CtrlAction → Prop
  | .enter (.consumed k) => k = 1
  | .epoll (.failed _) => False
  | _ => True

/-- An `io_uring_enter` that succeeds comes after a multiple of the ring's size of failed
ones; in particular, after none. -/
def CtrlWorld.Aligned (s : CtrlWorld) : CtrlAction → Prop
  | .enter (.consumed _) => s.ring.sqEntries.toNat ∣ s.failures
  | _ => True

/-- What an appended event needs. -/
theorem ResponsesMatched.concat {ctrlFD : Int32} {s t : CtrlWorld}
    (h : ResponsesMatched ctrlFD s)
    {e : CtrlEvent} (hcalls : t.calls = s.calls) (hlog : t.log = s.log ++ [e])
    (hresp : ∀ i op res, e = .returned i (.completed op res) →
      (∃ c, s.calls[i]? = some c ∧ c.cmdOp = op) ∧
        ∃ sqe c, .consumed i sqe ∈ s.log ∧ .posted i c ∈ s.log ∧ c.res = res)
    (hcmd : ∀ i sqe, e = .consumed i sqe → ∃ c, s.calls[i]? = some c ∧ Carries ctrlFD sqe c)
    (htime : ∀ i out, e.executed = some i → .returned i out ∉ s.log) :
    ResponsesMatched ctrlFD t := by
  refine ⟨?_, ?_, ?_⟩
  · intro i op res hmem
    rw [hlog] at hmem ⊢
    rw [hcalls]
    have hold : (∃ c, s.calls[i]? = some c ∧ c.cmdOp = op) ∧
        ∃ sqe c, .consumed i sqe ∈ s.log ∧ .posted i c ∈ s.log ∧ c.res = res := by
      rcases List.mem_append.mp hmem with hmem | hmem
      · exact h.response i op res hmem
      · exact hresp i op res (List.mem_singleton.mp hmem).symm
    obtain ⟨hc, sqe, c, h1, h2, h3⟩ := hold
    exact ⟨hc, sqe, c, List.mem_append_left _ h1, List.mem_append_left _ h2, h3⟩
  · intro i sqe hmem
    rw [hlog] at hmem
    rw [hcalls]
    rcases List.mem_append.mp hmem with hmem | hmem
    · exact h.command i sqe hmem
    · exact hcmd i sqe (List.mem_singleton.mp hmem).symm
  · rw [hlog, List.pairwise_append]
    refine ⟨h.in_time, List.pairwise_singleton _ _, ?_⟩
    intro a ha b hb i hrej hexec
    rw [List.mem_singleton.mp hb] at hexec
    cases a with
    | consumed j sqe => cases hrej
    | posted j c => cases hrej
    | returned j out =>
      by_cases hf : out.failed
      · rw [CtrlEvent.rejected, if_pos hf, Option.some_inj] at hrej
        exact htime i out hexec (hrej ▸ ha)
      · rw [CtrlEvent.rejected, if_neg hf] at hrej
        cases hrej

/-! ## The invariant -/

/-- The entry of a call, on a slot that `GetSQE128` has cleared. -/
def CtrlCall.sqe (c : CtrlCall) (ctrlFD : Int32) : SQE128 := c.fill ctrlFD (SQE.zero 80)

/-- Calls whose entry is not published yet. -/
def CtrlPC.unpublished : CtrlPC → Nat
  | .submit => 1
  | _ => 0

/-- Calls whose `io_uring_enter` has not returned yet. -/
def CtrlPC.unanswered : CtrlPC → Nat
  | .submit => 1
  | .enter _ => 1
  | _ => 0

/-- Calls that have not returned yet. -/
def CtrlPC.ongoing : CtrlPC → Nat
  | .idle => 0
  | _ => 1

namespace CtrlWorld

/-- The counters: entry `i` of the ring was filled in by call `i`, and every call whose
`io_uring_enter` returned either made the kernel pass one entry or failed. -/
structure Counted (ctrlFD : Int32) (k base consumed : Nat) (s : CtrlWorld) : Prop where
  trail : Trail s.ring k base (s.calls.map (·.sqe ctrlFD)) (s.calls.length - s.pc.unpublished)
    consumed
  owner : Latest s.owner (2 ^ k) base (List.range s.calls.length)
  answered : consumed + s.failures + s.pc.unanswered = s.calls.length
  opened : s.pc.ongoing ≤ s.calls.length

/-- No command is running and no completion is unread. -/
def Quiet (kc : Nat) (s : CtrlWorld) : Prop := s.inflight = [] ∧ ∃ h, CQRep s.ring kc h []

/-- The kernel runs the current call's command. -/
def Running (kc : Nat) (s : CtrlWorld) : Prop :=
  ∃ sqe, s.inflight = [(s.current, sqe)] ∧ .consumed s.current sqe ∈ s.log ∧
    ∃ h, CQRep s.ring kc h []

/-- The only unread completion is the current call's. -/
def Held (kc : Nat) (s : CtrlWorld) (c : CQE) : Prop :=
  s.inflight = [] ∧ (∃ h, CQRep s.ring kc h [c]) ∧
    (∃ sqe, .consumed s.current sqe ∈ s.log) ∧ .posted s.current c ∈ s.log

/-- What the ring holds while a call is at `pc`. -/
def Progress (kc : Nat) (s : CtrlWorld) : CtrlPC → Prop
  | .idle => s.Quiet kc
  | .submit => s.Quiet kc
  | .enter count => count = 1 ∧ s.Quiet kc
  | .waitCheck => s.Running kc ∨ ∃ c, s.Held kc c
  | .waitLoad => s.Running kc ∨ ∃ c, s.Held kc c
  | .waitEpoll => s.Running kc ∨ ∃ c, s.Held kc c
  | .took idx => s.Held kc (s.ring.cqes idx)
  | .seen res => ∃ c, s.Held kc c ∧ c.res = res

/-- The calls that have returned. -/
def finished (s : CtrlWorld) : Nat := s.calls.length - s.pc.ongoing

/-- The log so far.  Since the last successful `io_uring_enter`, or since a whole turn of
the ring, every call returned an error. -/
structure History (ctrlFD : Int32) (k : Nat) (s : CtrlWorld) : Prop where
  matched : ResponsesMatched ctrlFD s
  returned : ∀ i out, .returned i out ∈ s.log → i < s.finished
  stale : ∀ j < s.failures % 2 ^ k, ∃ e,
    .returned (s.finished - 1 - j) (.uring (.enterSubmit e)) ∈ s.log

/-- What holds along a run whose successful `io_uring_enter`s are aligned. -/
structure Inv (ctrlFD : Int32) (k kc : Nat) (s : CtrlWorld) : Prop where
  counted : ∃ base consumed, s.Counted ctrlFD k base consumed
  progress : s.Progress kc s.pc
  history : s.History ctrlFD k
  aligned : s.pc.unanswered < s.pc.ongoing → s.failures % 2 ^ k = 0
  cancelled : s.ring.cancelled = false

variable {ctrlFD : Int32} {k kc : Nat} {s t : CtrlWorld}

/-! ### The log -/

theorem failures_concat {e : CtrlEvent} (ht : t.log = s.log ++ [e]) :
    t.failures = s.failures + if e.submitFailed then 1 else 0 := by
  rw [failures, ht, List.countP_append, List.countP_singleton]
  rfl

namespace History

/-- A step that is not seen, except perhaps as a new call. -/
theorem extend (h : s.History ctrlFD k) (hcalls : s.calls <+: t.calls) (hlog : t.log = s.log)
    (hfin : t.finished = s.finished) : t.History ctrlFD k := by
  have hget : ∀ (i : Nat) c, s.calls[i]? = some c → t.calls[i]? = some c := by
    intro i c hi
    obtain ⟨more, hmore⟩ := hcalls
    rw [← hmore, List.getElem?_append_left (List.getElem?_eq_some_iff.mp hi).1, hi]
  refine ⟨⟨?_, ?_, hlog ▸ h.matched.in_time⟩, ?_, ?_⟩
  · intro i op res hmem
    rw [hlog] at hmem ⊢
    obtain ⟨⟨c, hc, hop⟩, hrest⟩ := h.matched.response i op res hmem
    exact ⟨⟨c, hget i c hc, hop⟩, hrest⟩
  · intro i sqe hmem
    obtain ⟨c, hc, hcar⟩ := h.matched.command i sqe (hlog ▸ hmem)
    exact ⟨c, hget i c hc, hcar⟩
  · rw [hlog, hfin]
    exact h.returned
  · rw [failures, hlog, hfin]
    exact h.stale

/-- The kernel works on a call that has not returned. -/
theorem executed (h : s.History ctrlFD k) {e : CtrlEvent} {i : Nat} (hcalls : t.calls = s.calls)
    (hlog : t.log = s.log ++ [e]) (hfin : t.finished = s.finished) (he : e.executed = some i)
    (hi : s.finished ≤ i)
    (hcmd : ∀ j sqe, e = .consumed j sqe → ∃ c, s.calls[j]? = some c ∧ Carries ctrlFD sqe c) :
    t.History ctrlFD k := by
  have hret : ∀ j out, e ≠ .returned j out := by rintro j out rfl; cases he
  have hfail : t.failures = s.failures := by
    rw [failures_concat hlog]
    cases e with
    | consumed j sqe => rfl
    | posted j c => rfl
    | returned j out => cases he
  refine ⟨h.matched.concat hcalls hlog (fun j op res hj => absurd hj (hret j _)) hcmd ?_, ?_, ?_⟩
  · intro j out hj hmem
    rw [he, Option.some_inj] at hj
    have := h.returned j out hmem
    omega
  · intro j out hmem
    rw [hlog] at hmem
    rw [hfin]
    rcases List.mem_append.mp hmem with hmem | hmem
    · exact h.returned j out hmem
    · exact absurd (List.mem_singleton.mp hmem).symm (hret j out)
  · intro j hj
    rw [hfail] at hj
    rw [hfin, hlog]
    obtain ⟨e', he'⟩ := h.stale j hj
    exact ⟨e', List.mem_append_left _ he'⟩

/-- The current call returns. -/
theorem returns (h : s.History ctrlFD k) {out : CtrlOutcome} (hcalls : t.calls = s.calls)
    (hlog : t.log = s.log ++ [.returned s.finished out]) (hfin : t.finished = s.finished + 1)
    (hresp : ∀ op res, out = .completed op res →
      (∃ c, s.calls[s.finished]? = some c ∧ c.cmdOp = op) ∧
        ∃ sqe c, .consumed s.finished sqe ∈ s.log ∧ .posted s.finished c ∈ s.log ∧ c.res = res)
    (hstale : (∃ e, out = .uring (.enterSubmit e)) ∨
      (∃ op res, out = .completed op res) ∧ s.failures % 2 ^ k = 0) :
    t.History ctrlFD k := by
  refine ⟨h.matched.concat hcalls hlog ?_ (fun _ _ he => by cases he) (fun _ _ he => by cases he),
    ?_, ?_⟩
  · rintro i op res he
    cases he
    exact hresp op res rfl
  · intro i out' hmem
    rw [hlog] at hmem
    rw [hfin]
    rcases List.mem_append.mp hmem with hmem | hmem
    · exact Nat.lt_succ_of_lt (h.returned i out' hmem)
    · cases List.mem_singleton.mp hmem
      exact Nat.lt_succ_self _
  · intro j hj
    rw [hfin, hlog]
    rcases hstale with ⟨e, rfl⟩ | ⟨⟨op, res, rfl⟩, hzero⟩
    · -- one failure more: this call, then those that were stale before it
      have hf : t.failures = s.failures + 1 := failures_concat hlog
      rw [hf] at hj
      by_cases hj0 : j = 0
      · subst hj0
        exact ⟨e, List.mem_append_right _ (List.mem_singleton.mpr rfl)⟩
      · have hmod := Nat.add_mod s.failures 1 (2 ^ k)
        have hle := Nat.mod_le (s.failures % 2 ^ k + 1 % 2 ^ k) (2 ^ k)
        have hone := Nat.mod_le 1 (2 ^ k)
        obtain ⟨e', he'⟩ := h.stale (j - 1) (by omega)
        have hidx : s.finished + 1 - 1 - j = s.finished - 1 - (j - 1) := by omega
        exact ⟨e', List.mem_append_left _ (hidx ▸ he')⟩
    · have hf : t.failures = s.failures := failures_concat hlog
      rw [hf, hzero] at hj
      exact absurd hj (Nat.not_lt_zero _)

end History

/-! ### The statements of `ctrlCommand` -/

theorem current_append (s : CtrlWorld) (c : CtrlCall) :
    ({ s with calls := s.calls ++ [c] } : CtrlWorld).current = s.calls.length := by
  rw [current, List.length_append]
  rfl

theorem current_eq (hpc : s.pc.ongoing = 1) : s.current = s.finished := by
  rw [current, finished, hpc]

theorem headSlots_one {base published consumed : Nat} {entries : List SQE128}
    (h : Trail s.ring k base entries published consumed) (hlt : consumed < published) :
    s.headSlots 1 = [(base + consumed) % 2 ^ k] := by
  show [(s.ring.sqArray ((s.ring.sqHead + 0) &&& s.ring.sqMask).toNat).toNat] = _
  rw [UInt32.add_zero, h.head_slot hlt]

namespace Inv

/-- The invariant of a call that stands at `p`. -/
theorem at_pc (h : s.Inv ctrlFD k kc) {p : CtrlPC} (hpc : s.pc = p) :
    ∃ base consumed,
      Trail s.ring k base (s.calls.map (·.sqe ctrlFD)) (s.calls.length - p.unpublished) consumed ∧
      Latest s.owner (2 ^ k) base (List.range s.calls.length) ∧
      consumed + s.failures + p.unanswered = s.calls.length ∧ p.ongoing ≤ s.calls.length ∧
      s.Progress kc p := by
  subst hpc
  obtain ⟨base, consumed, hc⟩ := h.counted
  exact ⟨base, consumed, hc.trail, hc.owner, hc.answered, hc.opened, h.progress⟩

/-- A call obtains an entry and fills it in; it never finds the ring full. -/
theorem begin (h : s.Inv ctrlFD k kc) (hpc : s.pc = .idle) (c : CtrlCall) :
    (s.begin ctrlFD c).Inv ctrlFD k kc := by
  obtain ⟨base, consumed, htrail, howner, hans, -, hprog⟩ := h.at_pc hpc
  have hlen : s.calls.length - CtrlPC.idle.unpublished =
      (s.calls.map (·.sqe ctrlFD)).length := (List.length_map _).symm
  rw [hlen] at htrail
  have hget := htrail.getSQE
  rw [List.length_map] at hget
  have hzero : s.ring.getSQE.2.sqes ((base + s.calls.length) % 2 ^ k) = SQE.zero 80 := by
    rw [hget]
    exact Function.update_self ..
  have hbegin : s.begin ctrlFD c = { s with
      calls := s.calls ++ [c]
      ring := s.ring.getSQE.2.writeSQE ((base + s.calls.length) % 2 ^ k) (c.sqe ctrlFD)
      owner := Function.update s.owner ((base + s.calls.length) % 2 ^ k) s.calls.length
      pc := .submit } := by
    rw [CtrlCall.sqe, ← hzero]
    simp only [CtrlWorld.begin, hget, current_append]
  rw [hbegin]
  refine ⟨⟨base, consumed, ⟨?_, ?_, ?_, ?_⟩⟩, ?_, h.history.extend (List.prefix_append _ _) rfl ?_,
    fun hlt => absurd hlt (Nat.lt_irrefl _), ?_⟩
  · have := htrail.prepare (c.sqe ctrlFD)
    rw [List.length_map] at this
    simpa [CtrlPC.unpublished] using this
  · have := howner.push (Nat.two_pow_pos k) s.calls.length
    rw [List.length_range, ← List.range_succ] at this
    rwa [List.length_append]
  · show consumed + s.failures + 1 = (s.calls ++ [c]).length
    rw [List.length_append, ← hans]
    rfl
  · show 1 ≤ (s.calls ++ [c]).length
    rw [List.length_append]
    exact Nat.le_add_left _ _
  · obtain ⟨hin, cq, hcq⟩ := hprog
    exact ⟨hin, cq, hcq.getSQE.writeSQE _ _⟩
  · rw [finished, finished, hpc, List.length_append]
    rfl
  · show s.ring.getSQE.2.cancelled = false
    rw [Ring.getSQE_frame]
    exact h.cancelled

/-- `Submit` publishes the entry and makes the system call with a count of one. -/
theorem flush (h : s.Inv ctrlFD k kc) (hpc : s.pc = .submit) :
    ({ s with
      ring := s.ring.flushSQ.2
      pc := if s.ring.flushSQ.1 = 0 then .waitCheck else .enter s.ring.flushSQ.1 } :
        CtrlWorld).Inv ctrlFD k kc := by
  obtain ⟨base, consumed, htrail, howner, hans, hopen, hin, cq, hcq⟩ := h.at_pc hpc
  have hone : (s.calls.map (·.sqe ctrlFD)).length = s.calls.length - 1 + 1 := by
    rw [List.length_map]
    exact (Nat.sub_add_cancel hopen).symm
  obtain ⟨hcount, hflushed⟩ := htrail.flushSQ hone
  rw [List.length_map] at hflushed
  have hnext : (if s.ring.flushSQ.1 = 0 then .waitCheck else .enter s.ring.flushSQ.1) =
      CtrlPC.enter 1 := by rw [hcount]; rfl
  rw [hnext]
  refine ⟨⟨base, consumed, ⟨hflushed, howner, hans, hopen⟩⟩, ⟨rfl, hin, cq, hcq.flushSQ⟩,
    h.history.extend List.prefix_rfl rfl ?_, fun hlt => absurd hlt (Nat.lt_irrefl _), ?_⟩
  · rw [finished, finished, hpc]
    rfl
  · show s.ring.flushSQ.2.cancelled = false
    rw [Ring.flushSQ_frame]
    exact h.cancelled

/-- Moving on inside `WaitCQE`, from `q` to `p`. -/
theorem goto (h : s.Inv ctrlFD k kc) {p q : CtrlPC} (hpc : s.pc = q)
    (hpub : p.unpublished = q.unpublished) (hans : p.unanswered = q.unanswered)
    (hon : p.ongoing = q.ongoing) (hprog : s.Progress kc q → s.Progress kc p) :
    ({ s with pc := p } : CtrlWorld).Inv ctrlFD k kc := by
  subst hpc
  obtain ⟨base, consumed, hc⟩ := h.counted
  refine ⟨⟨base, consumed, ⟨?_, hc.owner, ?_, ?_⟩⟩, hprog h.progress,
    h.history.extend List.prefix_rfl rfl ?_, ?_, h.cancelled⟩
  · show Trail s.ring k base _ (s.calls.length - p.unpublished) consumed
    rw [hpub]
    exact hc.trail
  · show consumed + s.failures + p.unanswered = _
    rw [hans]
    exact hc.answered
  · show p.ongoing ≤ _
    rw [hon]
    exact hc.opened
  · show s.calls.length - p.ongoing = _
    rw [hon]
    rfl
  · show p.unanswered < p.ongoing → _
    rw [hans, hon]
    exact h.aligned

/-- A failed `io_uring_enter` leaves the entry in the ring and ends the call. -/
theorem enterFailed (h : s.Inv ctrlFD k kc) {count : UInt32} (hpc : s.pc = .enter count)
    (e : Errno) : (s.enter count (.errno e)).Inv ctrlFD k kc := by
  obtain ⟨base, consumed, htrail, howner, hans, hopen, -, hin, hcq⟩ := h.at_pc hpc
  have henter : s.enter count (.errno e) = { s with
      pc := .idle
      log := s.log ++ [.returned s.finished (.uring (.enterSubmit e))] } := by
    rw [← current_eq (by rw [hpc]; rfl)]
    simp [CtrlWorld.enter, CtrlWorld.returns, Ring.enter, Ring.consume, EnterReply.amount,
      EnterReply.ret, headSlots, current]
  have hfail : (s.enter count (.errno e)).failures = s.failures + 1 :=
    failures_concat (e := .returned s.finished (.uring (.enterSubmit e))) (by rw [henter])
  rw [henter] at hfail ⊢
  refine ⟨⟨base, consumed, ⟨htrail, howner, ?_, Nat.zero_le _⟩⟩, ⟨hin, hcq⟩,
    h.history.returns rfl rfl ?_ (fun op res he => by cases he) (.inl ⟨e, rfl⟩),
    fun hlt => absurd hlt (Nat.lt_irrefl _), h.cancelled⟩
  · rw [hfail, ← hans]
    show consumed + (s.failures + 1) + 0 = consumed + s.failures + 1
    omega
  · rw [finished, finished, hpc]
    exact (Nat.sub_add_cancel hopen).symm

/-- **What a successful `io_uring_enter` makes the kernel execute**: the command of the call
that is `failures % 2 ^ k` before the current one. -/
theorem enter_consumed (h : s.Inv ctrlFD k kc) {count : UInt32} (hpc : s.pc = .enter count) :
    ∃ base consumed c, s.calls[s.finished - s.failures % 2 ^ k]? = some c ∧
      Trail s.ring.consumeOne.2 k base (s.calls.map (·.sqe ctrlFD)) s.calls.length (consumed + 1) ∧
      consumed + s.failures + 1 = s.calls.length ∧
      Latest s.owner (2 ^ k) base (List.range s.calls.length) ∧
      s.enter count (.consumed 1) = { s with
        ring := s.ring.consumeOne.2
        inflight := [(s.finished - s.failures % 2 ^ k, c.sqe ctrlFD)]
        log := s.log ++ [.consumed (s.finished - s.failures % 2 ^ k) (c.sqe ctrlFD)]
        pc := .waitCheck } := by
  obtain ⟨base, consumed, htrail, hown, hans, hopen, -, hin, -⟩ := h.at_pc hpc
  have hans' : consumed + s.failures + 1 = s.calls.length := hans
  have hfin : s.finished = s.calls.length - 1 := by rw [finished, hpc]; rfl
  have hlen : (s.calls.map (·.sqe ctrlFD)).length = s.calls.length := List.length_map _
  have hm : s.finished - s.failures % 2 ^ k < s.calls.length := by omega
  have htrail' : Trail s.ring k base (s.calls.map (·.sqe ctrlFD))
      (s.calls.map (·.sqe ctrlFD)).length consumed := by rw [hlen]; exact htrail
  -- the position of the element read, counted from the end
  have hback : s.finished - s.failures % 2 ^ k =
      s.calls.length - 1 - (s.calls.length - 1 - consumed) % 2 ^ k := by
    have : s.calls.length - 1 - consumed = s.failures := by omega
    rw [this, hfin]
  obtain ⟨hread, hnext⟩ := htrail'.consumeOne (m := s.finished - s.failures % 2 ^ k)
    (by omega) (by omega) (by rw [hlen]; exact hback)
  have howner : s.owner ((base + consumed) % 2 ^ k) = s.finished - s.failures % 2 ^ k := by
    have := hown.read (Nat.two_pow_pos k) (p := consumed)
      (m := s.finished - s.failures % 2 ^ k) (by rwa [List.length_range])
      (by rwa [List.length_range]) (by rw [List.length_range]; omega)
    rwa [List.getElem_range] at this
  have hslots := headSlots_one htrail' (by omega)
  rw [List.getElem_map] at hread
  rw [hlen] at hnext
  refine ⟨base, consumed, _, List.getElem?_eq_getElem hm, hnext, hans', hown, ?_⟩
  rw [← hread]
  simp only [CtrlWorld.enter, EnterReply.amount, hslots, List.map_cons, List.map_nil, howner, hin,
    Ring.enter, Ring.consume, EnterReply.ret, List.zip_cons_cons, List.zip_nil_left,
    List.nil_append]

/-- An aligned success makes the kernel execute the current call's command. -/
theorem enterConsumed (h : s.Inv ctrlFD k kc) {count : UInt32} (hpc : s.pc = .enter count)
    (hal : s.Aligned (.enter (.consumed 1))) :
    (s.enter count (.consumed 1)).Inv ctrlFD k kc := by
  obtain ⟨base, consumed, c, hcall, htrail, hans, howner, henter⟩ := h.enter_consumed hpc
  obtain ⟨_, _, hold, -, -, hopen, -, hin, cq, hcq⟩ := h.at_pc hpc
  have hzero : s.failures % 2 ^ k = 0 := by
    have : s.ring.sqEntries.toNat ∣ s.failures := hal
    rw [hold.geometry.entries] at this
    exact Nat.mod_eq_zero_of_dvd this
  have hcur : s.current = s.finished := current_eq (by rw [hpc]; rfl)
  rw [hzero, Nat.sub_zero, ← hcur] at hcall henter
  rw [henter]
  have hfail : ∀ t : CtrlWorld, t.log = s.log ++ [.consumed s.current (c.sqe ctrlFD)] →
      t.failures = s.failures := fun _ ht => failures_concat ht
  refine ⟨⟨base, consumed + 1, ⟨htrail, howner, ?_, hopen⟩⟩, .inl ⟨c.sqe ctrlFD, rfl, ?_, ?_⟩,
    h.history.executed rfl rfl ?_ rfl (Nat.le_of_eq hcur.symm) ?_, fun _ => ?_, h.cancelled⟩
  · rw [hfail _ rfl, ← hans]
    show consumed + 1 + s.failures + 0 = _
    omega
  · exact List.mem_append_right _ (List.mem_singleton.mpr rfl)
  · exact ⟨cq, hcq.entries, hcq.mask, hcq.cqHead, hcq.cqTail, hcq.room, hcq.slots⟩
  · rw [finished, finished, hpc]
    rfl
  · rintro j sqe ⟨rfl, rfl⟩
    exact ⟨c, hcall, c.carries_fill ctrlFD _⟩
  · rw [hfail _ rfl]
    exact hzero

/-- `WaitCQE` loads the completion queue's counters. -/
theorem load (h : s.Inv ctrlFD k kc) (hpc : s.pc = .waitLoad) {t : CtrlWorld}
    (ht : (match s.ring.peekCQE with
      | some idx => some { s with pc := .took idx }
      | none => some { s with pc := .waitEpoll }) = some t) : t.Inv ctrlFD k kc := by
  have hprog := h.progress
  rw [hpc] at hprog
  rcases hprog with ⟨sqe, hin, hlog, cq, hcq⟩ | ⟨c, hin, ⟨cq, hcq⟩, hlog, hpost⟩
  · rw [hcq.peekCQE_nil] at ht
    cases ht
    exact h.goto hpc rfl rfl rfl id
  · rw [hcq.peekCQE_cons] at ht
    cases ht
    refine h.goto hpc rfl rfl rfl fun _ => ?_
    show s.Held kc (s.ring.cqes (cq % 2 ^ kc))
    rw [hcq.slot_head]
    exact ⟨hin, ⟨cq, hcq⟩, hlog, hpost⟩

/-- The call passes its completion and returns what it made of it. -/
theorem seen (h : s.Inv ctrlFD k kc) {res : Int32} (hpc : s.pc = .seen res) {c : CtrlCall}
    (hcall : s.calls[s.current]? = some c) :
    (CtrlWorld.returns { s with ring := s.ring.seenCQE } (.completed c.cmdOp res)).Inv
      ctrlFD k kc := by
  obtain ⟨base, consumed, htrail, howner, hans, hopen, hprog⟩ := h.at_pc hpc
  obtain ⟨cqe, ⟨hin, ⟨cq, hcq⟩, ⟨sqe, hsqe⟩, hpost⟩, hres⟩ := hprog
  have hal := h.aligned
  rw [hpc] at hal
  have hcur : s.current = s.finished := current_eq (by rw [hpc]; rfl)
  rw [hcur] at hcall hsqe hpost
  have hret : CtrlWorld.returns { s with ring := s.ring.seenCQE } (.completed c.cmdOp res) =
      { s with
        ring := s.ring.seenCQE
        pc := .idle
        log := s.log ++ [.returned s.finished (.completed c.cmdOp res)] } := by
    rw [← hcur]
    rfl
  have hfail : ∀ t : CtrlWorld,
      t.log = s.log ++ [.returned s.finished (.completed c.cmdOp res)] → t.failures = s.failures :=
    fun _ ht => failures_concat ht
  rw [hret]
  refine ⟨⟨base, consumed, ⟨htrail.seenCQE, howner, ?_, Nat.zero_le _⟩⟩,
    ⟨hin, cq + 1, hcq.seenCQE⟩, h.history.returns rfl rfl ?_ ?_ (.inr ⟨⟨_, _, rfl⟩, ?_⟩),
    fun hlt => absurd hlt (Nat.lt_irrefl _), h.cancelled⟩
  · rw [hfail _ rfl]
    exact hans
  · rw [finished, finished, hpc]
    exact (Nat.sub_add_cancel hopen).symm
  · rintro op res' ⟨rfl, rfl⟩
    exact ⟨⟨c, hcall, rfl⟩, sqe, cqe, hsqe, hpost, hres⟩
  · exact hal Nat.zero_lt_one

/-- The kernel posts the completion of the command it runs. -/
theorem post (h : s.Inv ctrlFD k kc) {i : Nat} {cmd : Nat × SQE128}
    (hi : s.inflight[i]? = some cmd) (res : Int32) (flags : UInt32) :
    (s.post i cmd res flags).Inv ctrlFD k kc := by
  -- a command is running, so the call waits for it
  have hrun : s.Running kc ∧ (s.pc = .waitCheck ∨ s.pc = .waitLoad ∨ s.pc = .waitEpoll) := by
    have hnot : s.inflight ≠ [] := by
      intro hnil
      rw [hnil] at hi
      cases hi
    have hwait : (s.Running kc ∨ ∃ c, s.Held kc c) → s.Running kc :=
      fun hprog => hprog.resolve_right fun ⟨_, hheld⟩ => hnot hheld.1
    have hprog := h.progress
    cases hpc : s.pc with rw [hpc] at hprog
    | idle => exact absurd hprog.1 hnot
    | submit => exact absurd hprog.1 hnot
    | enter count => exact absurd hprog.2.1 hnot
    | took idx => exact absurd hprog.1 hnot
    | seen res' => obtain ⟨c, hheld, _⟩ := hprog; exact absurd hheld.1 hnot
    | waitCheck => exact ⟨hwait hprog, .inl rfl⟩
    | waitLoad => exact ⟨hwait hprog, .inr (.inl rfl)⟩
    | waitEpoll => exact ⟨hwait hprog, .inr (.inr rfl)⟩
  obtain ⟨⟨sqe, hin, hlog, cq, hcq⟩, hwait⟩ := hrun
  obtain ⟨base, consumed, hc⟩ := h.counted
  obtain ⟨rfl, rfl⟩ : i = 0 ∧ cmd = (s.current, sqe) := by
    rw [hin] at hi
    cases i with
    | zero => exact ⟨rfl, (Option.some_inj.mp hi).symm⟩
    | succ i => cases hi
  have hon : s.pc.ongoing = 1 := by rcases hwait with hw | hw | hw <;> rw [hw] <;> rfl
  have hheld : (s.post 0 (s.current, sqe) res flags).Held kc ⟨sqe.userData, res, flags⟩ := by
    refine ⟨?_, ⟨cq, hcq.post (Nat.two_pow_pos kc) _⟩, ⟨sqe, List.mem_append_left _ hlog⟩,
      List.mem_append_right _ (List.mem_singleton.mpr rfl)⟩
    show s.inflight.eraseIdx 0 = []
    rw [hin]
    rfl
  have hfail : (s.post 0 (s.current, sqe) res flags).failures = s.failures :=
    failures_concat (e := .posted s.current ⟨sqe.userData, res, flags⟩) rfl
  refine ⟨⟨base, consumed, ⟨hc.trail.post _, hc.owner, ?_, hc.opened⟩⟩, ?_,
    h.history.executed rfl rfl rfl rfl (Nat.le_of_eq (current_eq hon).symm)
      (fun j sqe' he => by cases he), ?_, h.cancelled⟩
  · rw [hfail]
    exact hc.answered
  · show CtrlWorld.Progress kc _ s.pc
    rcases hwait with hw | hw | hw <;> rw [hw] <;> exact .inr ⟨_, hheld⟩
  · rw [hfail]
    exact h.aligned

/-- **One step keeps the invariant**, if its `io_uring_enter` is aligned. -/
theorem step (h : s.Inv ctrlFD k kc) {a : CtrlAction} (hserved : a.Served) (hal : s.Aligned a)
    {t : CtrlWorld} (ht : s.step ctrlFD a = some t) : t.Inv ctrlFD k kc := by
  cases a with
  | call c =>
    obtain ⟨hpc, ht⟩ := Option.ite_none_right_eq_some.mp ht
    cases ht
    exact h.begin hpc c
  | post i res flags =>
    obtain ⟨cmd, hi, rfl⟩ := Option.map_eq_some_iff.mp ht
    exact h.post hi res flags
  | epoll reply =>
    obtain ⟨hpc, ht⟩ := Option.ite_none_right_eq_some.mp ht
    have hback : ({ s with pc := .waitCheck } : CtrlWorld).Inv ctrlFD k kc :=
      h.goto hpc rfl rfl rfl id
    rcases reply with _ | e | cancelFD
    · cases ht; exact hback
    · exact hserved.elim
    · cases cancelFD with
      | false => cases ht; exact hback
      | true => cases ht
  | enter reply =>
    simp only [CtrlWorld.step] at ht
    split at ht
    · rename_i count hpc
      obtain ⟨-, ht⟩ := Option.ite_none_right_eq_some.mp ht
      cases ht
      cases reply with
      | errno e => exact h.enterFailed hpc e
      | consumed j =>
        obtain rfl : j = 1 := hserved
        exact h.enterConsumed hpc hal
    · cases ht
  | work =>
    have ht' : s.work = some t := ht
    cases hpc : s.pc <;> simp only [CtrlWorld.work, hpc] at ht'
    case submit => cases ht'; exact h.flush hpc
    case waitCheck =>
      rw [h.cancelled] at ht'
      cases ht'
      exact h.goto hpc rfl rfl rfl id
    case waitLoad => exact h.load hpc ht'
    case took idx =>
      cases ht'
      exact h.goto hpc rfl rfl rfl fun hheld => ⟨_, hheld, rfl⟩
    case seen res =>
      split at ht'
      · rename_i c hcall
        cases ht'
        exact h.seen hpc hcall
      · cases ht'
    all_goals cases ht'

/-- A success that is not aligned makes the kernel execute a command whose call has returned
an error. -/
theorem misaligned (h : s.Inv ctrlFD k kc) (hal : ¬ s.Aligned (.enter (.consumed 1)))
    {t : CtrlWorld} (ht : s.step ctrlFD (.enter (.consumed 1)) = some t) :
    ¬ ResponsesMatched ctrlFD t := by
  simp only [CtrlWorld.step] at ht
  split at ht
  · rename_i count hpc
    obtain ⟨-, ht⟩ := Option.ite_none_right_eq_some.mp ht
    cases ht
    obtain ⟨_, _, c, _, _, _, _, henter⟩ := h.enter_consumed hpc
    obtain ⟨_, _, hc⟩ := h.counted
    have hpos : s.failures % 2 ^ k ≠ 0 := by
      intro hzero
      refine hal (?_ : s.ring.sqEntries.toNat ∣ s.failures)
      rw [hc.trail.geometry.entries]
      exact Nat.dvd_of_mod_eq_zero hzero
    obtain ⟨e, he⟩ := h.history.stale (s.failures % 2 ^ k - 1) (by omega)
    have hidx : s.finished - 1 - (s.failures % 2 ^ k - 1) = s.finished - s.failures % 2 ^ k := by
      omega
    rw [hidx] at he
    intro hm
    have htime := hm.in_time
    rw [henter, List.pairwise_append] at htime
    exact htime.2.2 _ he _ (List.mem_singleton.mpr rfl) _ rfl rfl
  · cases ht

end Inv

theorem inv_boot {p : Params} (hsq : p.sqEntries.toNat = 2 ^ k) (hcq : p.cqEntries.toNat = 2 ^ kc)
    (sq cq : UInt32) (sqArray : Nat → UInt32) (sqes : Nat → SQE128) (cqes : Nat → CQE)
    (owner : Nat → Nat) : (boot p sq cq sqArray sqes cqes owner).Inv ctrlFD k kc where
  counted := ⟨sq.toNat, 0, setup_trail hsq sq cq sqArray sqes cqes, .nil, rfl, Nat.le_refl _⟩
  progress := ⟨rfl, cq.toNat, setup_cqRep hcq sq cq sqArray sqes cqes⟩
  history := by
    refine ⟨⟨?_, ?_, .nil⟩, ?_, ?_⟩
    · exact fun _ _ _ h => absurd h List.not_mem_nil
    · exact fun _ _ h => absurd h List.not_mem_nil
    · exact fun _ _ h => absurd h List.not_mem_nil
    · exact fun j hj => absurd hj (by rw [show failures _ = 0 from rfl, Nat.zero_mod]; omega)
  aligned := fun hlt => absurd hlt (Nat.lt_irrefl _)
  cancelled := rfl

end CtrlWorld

/-! ## Runs -/

instance : DecidablePred CtrlAction.Served
  | .enter (.consumed k) => inferInstanceAs (Decidable (k = 1))
  | .enter (.errno _) => inferInstanceAs (Decidable True)
  | .epoll (.failed _) => inferInstanceAs (Decidable False)
  | .epoll .interrupted => inferInstanceAs (Decidable True)
  | .epoll (.events _) => inferInstanceAs (Decidable True)
  | .call _ => inferInstanceAs (Decidable True)
  | .work => inferInstanceAs (Decidable True)
  | .post _ _ _ => inferInstanceAs (Decidable True)

instance (s : CtrlWorld) : DecidablePred s.Aligned
  | .enter (.consumed _) => inferInstanceAs (Decidable (_ ∣ _))
  | .enter (.errno _) => inferInstanceAs (Decidable True)
  | .epoll _ => inferInstanceAs (Decidable True)
  | .call _ => inferInstanceAs (Decidable True)
  | .work => inferInstanceAs (Decidable True)
  | .post _ _ _ => inferInstanceAs (Decidable True)

/-- The kernel serves the calls, and every success is aligned. -/
def CtrlWorld.Orderly (s : CtrlWorld) (a : CtrlAction) : Prop := a.Served ∧ s.Aligned a

instance (s : CtrlWorld) (a : CtrlAction) : Decidable (s.Orderly a) :=
  inferInstanceAs (Decidable (_ ∧ _))

/-- **Responses match in every run whose successful `io_uring_enter`s are aligned**, on a ring
of any size and from any value of its counters; and a success that is not aligned, after any
such run, breaks the match. -/
theorem control_responses_matched (ctrlFD : Int32) {k kc : Nat} {p : Params}
    (hsq : p.sqEntries.toNat = 2 ^ k) (hcq : p.cqEntries.toNat = 2 ^ kc) (sq cq : UInt32)
    (sqArray : Nat → UInt32) (sqes : Nat → SQE128) (cqes : Nat → CQE) (owner : Nat → Nat)
    {as : List CtrlAction} {s : CtrlWorld}
    (h : Run (CtrlWorld.step ctrlFD) CtrlWorld.Orderly
      (CtrlWorld.boot p sq cq sqArray sqes cqes owner) as s) :
    ResponsesMatched ctrlFD s ∧
      ∀ t, ¬ s.Aligned (.enter (.consumed 1)) → s.step ctrlFD (.enter (.consumed 1)) = some t →
        ¬ ResponsesMatched ctrlFD t := by
  have hinv : s.Inv ctrlFD k kc := by
    refine h.invariant (CtrlWorld.inv_boot hsq hcq sq cq sqArray sqes cqes owner) ?_
    intro s a t hs hok ht
    exact hs.step hok.1 hok.2 ht
  exact ⟨hinv.history.matched, fun t hal ht => hinv.misaligned hal ht⟩

/-! ### The control ring of a device -/

/-- What `NewSQE128(4)` finds. -/
def CtrlWorld.small : CtrlWorld :=
  .boot ⟨4, 8, 0, 0⟩ 0 0 (fun _ => 0) (fun _ => SQE.zero 80) (fun _ => ⟨0, 0, 0⟩) (fun _ => 0)

/-- `ADD_DEV` as `addDev` issues it, in either encoding. -/
def CtrlCall.addDev (cmdOp : UInt32) : CtrlCall := ⟨cmdOp, ⟨0xFFFFFFFF, 0xFFFF, 64, 0, 0, 0, 0, 0⟩⟩

/-- A call up to the return of `io_uring_enter`, and its wait for a completion with `res`. -/
def CtrlCall.submits (c : CtrlCall) (reply : EnterReply) : List CtrlAction :=
  [.call c, .work, .enter reply]

/-- The completion comes before the wait, which then takes it. -/
def CtrlCall.waits (res : Int32) : List CtrlAction := [.post 0 res 0, .work, .work, .work, .work]

/-- The kernel rejects the ioctl encoding and accepts the legacy one. -/
theorem control_responses_matched_fallback : ∃ s : CtrlWorld,
    Run (CtrlWorld.step 3) CtrlWorld.Orderly CtrlWorld.small
      ((CtrlCall.addDev uCmdAddDev).submits (.consumed 1) ++ CtrlCall.waits (-22) ++
        ((CtrlCall.addDev cmdAddDev).submits (.consumed 1) ++ CtrlCall.waits 0)) s ∧
      ResponsesMatched 3 s ∧ s.failures = 0 ∧
      .returned 0 (.completed uCmdAddDev (-22)) ∈ s.log ∧
      .returned 1 (.completed cmdAddDev 0) ∈ s.log := by
  have hex : ∃ s, Run (CtrlWorld.step 3) CtrlWorld.Orderly CtrlWorld.small
      ((CtrlCall.addDev uCmdAddDev).submits (.consumed 1) ++ CtrlCall.waits (-22) ++
        ((CtrlCall.addDev cmdAddDev).submits (.consumed 1) ++ CtrlCall.waits 0)) s ∧
      (s.failures = 0 ∧ .returned 0 (.completed uCmdAddDev (-22)) ∈ s.log ∧
        .returned 1 (.completed cmdAddDev 0) ∈ s.log) :=
    exists_run_of_exec (fun s : CtrlWorld => s.failures = 0 ∧
      .returned 0 (.completed uCmdAddDev (-22)) ∈ s.log ∧
        .returned 1 (.completed cmdAddDev 0) ∈ s.log) (by decide +kernel)
  obtain ⟨s, hrun, hlog⟩ := hex
  have hsq : (4 : UInt32).toNat = 2 ^ 2 := rfl
  have hcq : (8 : UInt32).toNat = 2 ^ 3 := rfl
  exact ⟨s, hrun, (control_responses_matched 3 hsq hcq 0 0 _ _ _ _ hrun).1, hlog⟩

/-- **A command that was reported as failed is executed.**  `io_uring_enter` is interrupted in
the first `ADD_DEV`; the fallback's `io_uring_enter` succeeds.  The kernel executes the first
command, and the second call returns success on the strength of its result. -/
theorem command_executed_after_error : ∃ s : CtrlWorld,
    Run (CtrlWorld.step 3) (fun _ a => a.Served) CtrlWorld.small
      ((CtrlCall.addDev uCmdAddDev).submits (.errno 4) ++
        ((CtrlCall.addDev cmdAddDev).submits (.consumed 1) ++ CtrlCall.waits 0)) s ∧
      s.log.map CtrlEvent.rejected = [some 0, none, none, none] ∧
      s.log.map CtrlEvent.executed = [none, some 0, some 0, none] ∧
      .returned 1 (.completed cmdAddDev 0) ∈ s.log ∧ ¬ ResponsesMatched 3 s := by
  have hex : ∃ s, Run (CtrlWorld.step 3) (fun _ a => a.Served) CtrlWorld.small
      ((CtrlCall.addDev uCmdAddDev).submits (.errno 4) ++
        ((CtrlCall.addDev cmdAddDev).submits (.consumed 1) ++ CtrlCall.waits 0)) s ∧
      (s.log.map CtrlEvent.rejected = [some 0, none, none, none] ∧
        s.log.map CtrlEvent.executed = [none, some 0, some 0, none] ∧
        .returned 1 (.completed cmdAddDev 0) ∈ s.log) :=
    exists_run_of_exec (fun s : CtrlWorld =>
      s.log.map CtrlEvent.rejected = [some 0, none, none, none] ∧
        s.log.map CtrlEvent.executed = [none, some 0, some 0, none] ∧
        .returned 1 (.completed cmdAddDev 0) ∈ s.log) (by decide +kernel)
  obtain ⟨s, hrun, hrej, hexec, hret⟩ := hex
  refine ⟨s, hrun, hrej, hexec, hret, fun hm => ?_⟩
  -- the second call's response would need a completion of its own entry
  obtain ⟨-, sqe, c, hcons, -, -⟩ := hm.response 1 _ _ hret
  have hmem : some 1 ∈ s.log.map CtrlEvent.executed := List.mem_map.mpr ⟨_, hcons, rfl⟩
  rw [hexec] at hmem
  revert hmem
  decide

end Ublk
