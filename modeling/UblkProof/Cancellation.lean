import UblkProof.ConsumerMachine

/-! # No lost cancellation

`Cancel` sets a flag and then writes an eventfd; `WaitCQE` checks the flag at the top of its
loop and otherwise blocks in `epoll_wait` on the ring and the eventfd.  The two steps of
`Cancel` may fall anywhere between the statements of `WaitCQE`.

A call that begins with the flag set stops at its first statement, so it is never anywhere else
(`Signals.first`).  A waiter that passed the check before the flag was set may block, but the
write that follows makes the eventfd readable for good (`Signals.woken`).  In the other
direction the flag, the eventfd and an event that names it are all traces of a `Cancel`.
-/
namespace Ublk
open Runs (exists_run_of_exec)
namespace Consumer
variable {n : Nat} {fds : PollSet} {q q' : Consumer n}

/-- What the flag and the eventfd say about the callers of `Cancel`, and what that means for
the `WaitCQE` in progress and those that returned. -/
structure Signals (fds : PollSet) (q : Consumer n) : Prop where
  flag : q.ring.cancelled = true ↔ 0 < q.begun
  begun : q.waking + q.woken = q.begun
  woken : q.woken ≤ q.efd
  efd : 0 < q.efd → 0 < q.begun
  late : q.late = true → q.ring.cancelled = true
  first : q.late = true → q.pc.waiting = true → q.pc = .waitFlag
  scan : ∀ events, q.pc = .waitScan events → fds.cancelEvent ∈ events → 0 < q.begun
  lateCalls : ∀ w ∈ q.waits, w.late = true → w.result = .error .cancelled
  cancelledCalls : ∀ w ∈ q.waits, w.result = .error .cancelled → 0 < q.begun

/-- The eventfd is ready exactly if it was written. -/
theorem cancelEvent_mem_iff (fds : PollSet) (q : Consumer n) :
    fds.cancelEvent ∈ q.readyEvents fds ↔ 0 < q.efd := by
  unfold readyEvents
  rw [List.mem_append]
  constructor
  · rintro (h | h)
    · split_ifs at h
      · exact absurd (List.mem_singleton.mp h).symm fds.events_ne
      · cases h
    · split_ifs at h with hefd
      · exact hefd
      · cases h
  · intro h
    rw [if_pos h]
    exact .inr (List.mem_singleton.mpr rfl)

namespace Signals

theorem start {r : Ring n} (h : r.cancelled = false) : Signals fds (Consumer.start r) where
  flag := by
    show r.cancelled = true ↔ 0 < 0
    rw [h]
    decide
  begun := rfl
  woken := Nat.le_refl 0
  efd h := h
  late h := by cases h
  first h := by cases h
  scan _ h := by cases h
  lateCalls _ h := by cases h
  cancelledCalls _ h := by cases h

/-- The consumer moves on inside a call, or leaves the completion queue alone between calls: to
a position that a late call does not reach. -/
theorem goto (h : Signals fds q) {pc : CallPC} (hfirst : q.late = true → pc.waiting = true →
      pc = .waitFlag)
    (hscan : ∀ events, pc = .waitScan events → fds.cancelEvent ∈ events → 0 < q.begun) :
    Signals fds { q with pc := pc } :=
  { h with first := hfirst, scan := hscan }

/-- A `WaitCQE` returns: with `ErrCancelled` if it began late, and with `ErrCancelled` only if
a `Cancel` has begun. -/
theorem waitReturns (h : Signals fds q) {result : Except UringError Nat}
    (hlate : q.late = true → result = .error .cancelled)
    (hcancelled : result = .error .cancelled → 0 < q.begun) :
    Signals fds (q.waitReturns result) where
  flag := h.flag
  begun := h.begun
  woken := h.woken
  efd := h.efd
  late := h.late
  first _ hw := by cases result <;> cases hw
  scan _ hpc := by cases result <;> cases hpc
  lateCalls w hw hl := by
    rcases List.mem_append.mp hw with hw | hw
    · exact h.lateCalls w hw hl
    · cases List.mem_singleton.mp hw
      exact hlate hl
  cancelledCalls w hw hr := by
    rcases List.mem_append.mp hw with hw | hw
    · exact h.cancelledCalls w hw hr
    · cases List.mem_singleton.mp hw
      exact hcancelled hr

/-- A call that is past the flag check began before the flag was set. -/
theorem not_late (h : Signals fds q) (hw : q.pc.waiting = true) (hne : q.pc ≠ .waitFlag) :
    ¬ q.late = true := fun hl => hne (h.first hl hw)

/-- The consumer's own statements. -/
theorem work (h : Signals fds q) (hs : Work fds q q') : Signals fds q' := by
  cases hs with
  | cancelled hpc hc => exact h.waitReturns (fun _ => rfl) fun _ => h.flag.mp hc
  | notCancelled hpc hc =>
    -- a late call finds the flag set, so it does not get past the check
    refine h.goto (fun hl => ?_) fun _ he => by cases he
    rw [h.late hl] at hc
    cases hc
  | waitHead hpc =>
    have hnl := h.not_late (by rw [hpc]; rfl) (by rw [hpc]; simp)
    exact h.goto (fun hl => absurd hl hnl) fun _ he => by cases he
  | found head hpc hne =>
    have hnl := h.not_late (by rw [hpc]; rfl) (by rw [hpc]; simp)
    exact h.waitReturns (fun hl => absurd hl hnl) fun he => by cases he
  | block head hpc he =>
    have hnl := h.not_late (by rw [hpc]; rfl) (by rw [hpc]; simp)
    exact h.goto (fun hl => absurd hl hnl) fun _ he => by cases he
  | woken events hpc he => exact h.waitReturns (fun _ => rfl) fun _ => h.scan events hpc he
  | again events hpc he => exact h.goto (fun _ _ => rfl) fun _ he => by cases he
  | peekHead hpc => exact h.goto (fun _ hw => by cases hw) fun _ he => by cases he
  | peekNil head hpc he =>
    exact { h with first := fun _ hw => (by cases hw), scan := fun _ he => (by cases he) }
  | peeked head hpc hne =>
    exact { h with first := fun _ hw => (by cases hw), scan := fun _ he => (by cases he) }
  | userData idx hpc => exact h.goto (fun _ hw => by cases hw) fun _ he => by cases he
  | res idx userData hpc =>
    exact { h with first := fun _ hw => (by cases hw), scan := fun _ he => (by cases he) }
  | seen hpc =>
    exact { h with first := fun _ hw => (by cases hw), scan := fun _ he => (by cases he) }

/-- **Every step keeps the signals in order.** -/
theorem step (h : Signals fds q) (hs : Step fds q q') : Signals fds q' := by
  cases hs with
  | wait hpc =>
    exact { h with
      late := fun hl => hl
      first := fun _ _ => rfl
      scan := fun _ he => by cases he }
  | peek hpc => exact h.goto (fun _ hw => by cases hw) fun _ he => by cases he
  | work hw => exact h.work hw
  | interrupted hpc => exact h.goto (fun _ _ => rfl) fun _ he => by cases he
  | failed e hpc =>
    have hnl := h.not_late (by rw [hpc]; rfl) (by rw [hpc]; simp)
    exact h.waitReturns (fun hl => absurd hl hnl) fun he => by cases he
  | events events hpc hready =>
    have hnl := h.not_late (by rw [hpc]; rfl) (by rw [hpc]; simp)
    refine h.goto (fun hl => absurd hl hnl) fun events' he hmem => ?_
    -- the eventfd is among the events only if it was written to
    cases he
    exact h.efd ((cancelEvent_mem_iff fds q).mp (hready _ hmem))
  | cancelStore =>
    have hpos : 0 < q.begun + 1 := Nat.succ_pos _
    exact { h with
      flag := ⟨fun _ => hpos, fun _ => rfl⟩
      begun := by
        show q.waking + 1 + q.woken = q.begun + 1
        rw [← h.begun]
        omega
      efd := fun _ => hpos
      late := fun _ => rfl
      scan := fun _ _ _ => hpos
      cancelledCalls := fun _ _ _ => hpos }
  | cancelWake hw =>
    have hbegun := h.begun
    have hwoken := h.woken
    have hefd : (q.cancelWake fds).efd = q.efd + 1 := if_pos fds.cancelFD_nonneg
    exact { h with
      begun := by
        show q.waking - 1 + (q.woken + 1) = q.begun
        omega
      woken := by
        rw [hefd]
        show q.woken + 1 ≤ q.efd + 1
        omega
      efd := fun _ => by
        show 0 < q.begun
        omega }
  | write c hn hroom => exact { h with }
  | advance c hc => exact { h with }

theorem of_run {r : Ring n} (hr : r.cancelled = false) {as : List CallAction}
    (h : Run fds (Consumer.start r) as q) : Signals fds q :=
  Runs.Run.invariant (start hr) (fun _ _ _ hi _ hs => hi.step (step_cases hs)) h

end Signals

/-- **No cancellation is lost**, whatever the callers of `Cancel`, the waiter and the kernel do
in between.

* A `WaitCQE` that began with the flag set and has returned, returned `ErrCancelled`; one that
  has not returned does so with its next statement, whatever is in the queue.
* Once a `Cancel` is complete, `epoll_wait` has a ready event.
* `ErrCancelled` is returned only if some `Cancel` has begun.
* The flag is set exactly if some `Cancel` has begun, so `late` says that one had. -/
theorem no_lost_cancellation (fds : PollSet) (r : Ring n) (hr : r.cancelled = false)
    (as : List CallAction) (q : Consumer n) (h : Run fds (Consumer.start r) as q) :
    (∀ w ∈ q.waits, w.late = true → w.result = .error .cancelled) ∧
      (q.late = true → q.pc.waiting = true →
        step fds q .work = some (q.waitReturns (.error .cancelled))) ∧
      (0 < q.woken → q.pc = .waitEpoll → q.readyEvents fds ≠ []) ∧
      (∀ w ∈ q.waits, w.result = .error .cancelled → 0 < q.begun) ∧
      (q.ring.cancelled = true ↔ 0 < q.begun) := by
  have hs := Signals.of_run hr h
  refine ⟨hs.lateCalls, ?_, ?_, hs.cancelledCalls, hs.flag⟩
  · intro hl hw
    have hpc := hs.first hl hw
    show q.work fds = _
    rw [work, hpc]
    exact if_pos (hs.late hl)
  · intro hwoken _ hnil
    have hmem := (cancelEvent_mem_iff fds q).mpr (Nat.lt_of_lt_of_le hwoken hs.woken)
    rw [hnil] at hmem
    cases hmem

/-- A waiter passes the flag check, both steps of a `Cancel` follow, and the waiter blocks. -/
theorem no_lost_cancellation_window :
    ∃ q : Consumer 16,
      Run .sample (Consumer.start (Ring.sample 0))
        [.wait, .work, .cancelStore, .cancelWake, .work, .work] q ∧
      q.pc = .waitEpoll ∧ q.readyEvents .sample ≠ [] := by
  have hex : ∃ q : Consumer 16,
      Run .sample (Consumer.start (Ring.sample 0))
        [.wait, .work, .cancelStore, .cancelWake, .work, .work] q ∧
      (q.pc = .waitEpoll ∧ 0 < q.woken) :=
    exists_run_of_exec (fun q : Consumer 16 => q.pc = .waitEpoll ∧ 0 < q.woken) (by decide +kernel)
  obtain ⟨q, hrun, hpc, hw⟩ := hex
  exact ⟨q, hrun, hpc, (no_lost_cancellation _ _ rfl _ q hrun).2.2.1 hw hpc⟩

end Consumer
end Ublk
