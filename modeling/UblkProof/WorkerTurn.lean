import UblkProof.WorkerSimulation

/-! # What a step does to the channel and the flag

`run` touches `ready` once: when its first `io_uring_enter` returns it either sends the error
itself or starts the goroutine that sends `nil`.  `Turn` says what each step of the worker does
to its position relative to that call and to `ready`; all later statements are `Late`.  Neither
the worker nor the kernel touches the flag that `Cancel` sets.
-/
namespace Ublk
open Ublk.Ring (EnterReply)

section
variable {β : Type}

/-- Past the first `io_uring_enter`, and not because it failed. -/
structure PC.Late (pc : PC) : Prop where
  early : pc.early = false
  fetched : ∀ e, pc ≠ .done (.fetchFailed e)

/-- A step of `run`: to the first `io_uring_enter`, out of it, or after it. -/
inductive Turn (s x : Core β) : Prop
  | call {count : UInt32} (hpc : s.pc = .start) (hpc' : x.pc = .startEnter count)
      (hr : x.ready = s.ready)
  | launches {count : UInt32} (hpc : s.pc = .startEnter count) (hpc' : x.pc = .waitCheck)
      (hr : x.ready = .sending)
  | fails {count : UInt32} {e : UringError} (hpc : s.pc = .startEnter count)
      (hpc' : x.pc = .done (.fetchFailed e)) (hr : x.ready = .buffered (some e))
  | late (hpc : s.pc.early = false) (hlate : x.pc.Late) (hr : x.ready = s.ready)

namespace Worker
variable {w : Worker} {bk : Backend β} {s x : World β} {a : Action}

theorem prepared_keeps (s : World β) (tag : UInt16) (next : PC) (out : Option SQE64 × Ring 16) :
    (prepared s tag next out).pc = next ∧ (prepared s tag next out).ready = s.ready ∧
      (prepared s tag next out).ring = out.2 := by
  obtain ⟨_ | sqe, r⟩ := out <;> exact ⟨rfl, rfl, rfl⟩

theorem serve_keeps (w : Worker) (bk : Backend β) (s : Core β) (tag : UInt16) :
    (w.serve bk s tag).pc.Late ∧ (w.serve bk s tag).ready = s.ready := by
  unfold serve
  split_ifs
  · split
    · exact ⟨⟨rfl, fun _ h => by cases h⟩, rfl⟩
    · exact ⟨⟨rfl, fun _ h => by cases h⟩, rfl⟩
  · exact ⟨⟨rfl, fun _ h => by cases h⟩, rfl⟩

/-- `w.init` prepares and then ends. -/
theorem init_keeps {tag : UInt16} (hpc : s.pc = .init tag) (h : w.work bk s = some x) :
    (x.pc = .start ∨ ∃ tag', x.pc = .init tag') ∧ x.ready = s.ready := by
  simp only [work, hpc] at h
  split_ifs at h <;> cases h
  · obtain ⟨hp, hr, -⟩ := prepared_keeps s tag (.init (tag + 1)) (w.prepareFetch tag s.ring)
    exact ⟨.inr ⟨_, hp⟩, hr⟩
  · exact ⟨.inl rfl, rfl⟩

/-- A statement of `run` goes from `SubmitAndWait` to its system call or stays past it. -/
theorem work_turn (h : w.work bk s = some x) (hinit : ∀ tag, s.pc ≠ .init tag) :
    Turn s.toCore x.toCore := by
  have hlate : ∀ {y : World β}, s.pc.early = false → y.pc.Late → y.ready = s.ready →
      Turn s.toCore y.toCore := fun hpc hl hr => .late hpc hl hr
  -- one case for each position, in the order of `PC`
  rcases hpc : s.pc with _ | _ | _ | _ | _ | _ | ⟨origin, idx⟩ | ⟨origin, idx, tag⟩ |
    ⟨origin, tag, res⟩ | tag | ⟨tag, result⟩ | _ | _ | _ | _ | _ <;>
    simp only [work, hpc] at h <;> rw [hpc] at hlate
  · exact absurd hpc (hinit _)
  · cases h
    exact .call hpc rfl rfl
  · cases h
  · split_ifs at h <;> cases h <;> exact hlate rfl ⟨rfl, fun _ h => by cases h⟩ rfl
  · split at h <;> cases h <;> exact hlate rfl ⟨rfl, fun _ h => by cases h⟩ rfl
  · cases h
  · cases h
    exact hlate rfl ⟨rfl, fun _ h => by cases h⟩ rfl
  · cases h
    exact hlate rfl ⟨rfl, fun _ h => by cases h⟩ rfl
  · cases h
    refine hlate rfl ?_ rfl
    show PC.Late (if res < 0 then .done (.negativeRes origin tag) else .handle tag)
    split_ifs
    · exact ⟨rfl, fun _ h => by cases h⟩
    · exact ⟨rfl, fun _ h => by cases h⟩
  · cases h
    obtain ⟨hl, hr⟩ := serve_keeps w bk s.toCore tag
    exact hlate rfl hl hr
  · cases h
    obtain ⟨hp, hr, -⟩ := prepared_keeps s tag .peek (w.prepareCommitAndFetch tag result s.ring)
    exact hlate rfl (by rw [hp]; exact ⟨rfl, fun _ h => by cases h⟩) hr
  · split at h <;> cases h <;> exact hlate rfl ⟨rfl, fun _ h => by cases h⟩ rfl
  · cases h
    refine hlate rfl ?_ rfl
    show PC.Late (if _ then .waitCheck else .submitEnter _)
    split_ifs
    · exact ⟨rfl, fun _ h => by cases h⟩
    · exact ⟨rfl, fun _ h => by cases h⟩
  all_goals cases h

/-- The return of `io_uring_enter`. -/
theorem enter_turn {reply : EnterReply} (h : enter s reply = some x) :
    Turn s.toCore x.toCore := by
  unfold enter at h
  split at h
  next count hpc =>
    rw [enterWith] at h
    split_ifs at h
    cases hret : (s.ring.enter count .enterSubmitWait reply).ret with
    | ok n =>
      cases h
      have hnext : afterEnter s.toCore (.ok n) = (.waitCheck, .sending) := by simp [afterEnter, hpc]
      rw [← hret] at hnext
      exact .launches hpc (congrArg Prod.fst hnext) (congrArg Prod.snd hnext)
    | error e =>
      cases h
      have hnext : afterEnter s.toCore (.error e) =
          (.done (.fetchFailed e), .buffered (some e)) := by simp [afterEnter, hpc]
      rw [← hret] at hnext
      exact .fails hpc (congrArg Prod.fst hnext) (congrArg Prod.snd hnext)
  next count hpc =>
    rw [enterWith] at h
    split_ifs at h
    have hlate : ∀ ret, (afterEnter s.toCore ret).1.Late ∧
        (afterEnter s.toCore ret).2 = s.ready := by
      intro ret
      cases ret with
      | ok n =>
        simp only [afterEnter, hpc]
        exact ⟨⟨rfl, fun _ h => by cases h⟩, trivial⟩
      | error e =>
        simp only [afterEnter, hpc]
        exact ⟨⟨rfl, fun _ h => by cases h⟩, trivial⟩
    cases h
    exact .late (by rw [hpc]; rfl) (hlate _).1 (hlate _).2
  · cases h

/-- **The first `io_uring_enter` is where `run` turns to `ready`**, and nowhere else. -/
theorem step_turn (h : w.step bk s a = some x) (ha : a.ofWorker = true)
    (hinit : ∀ tag, s.pc ≠ .init tag) : Turn s.toCore x.toCore := by
  cases a with
  | work => exact work_turn h hinit
  | enter reply => exact enter_turn h
  | epoll reply =>
    cases reply with
    | interrupted =>
      simp only [step, epoll] at h
      split_ifs at h with hpc
      cases h
      exact .late (by rw [hpc]; rfl) ⟨rfl, fun _ h => by cases h⟩ rfl
    | failed e =>
      simp only [step, epoll] at h
      split_ifs at h with hpc
      cases h
      exact .late (by rw [hpc]; rfl) ⟨rfl, fun _ h => by cases h⟩ rfl
    | events cancelFD =>
      simp only [step, epoll] at h
      split_ifs at h with hpc <;> cases h <;>
        exact .late (by rw [hpc.1]; rfl) ⟨rfl, fun _ h => by cases h⟩ rfl
  | _ => cases ha

/-- The kernel leaves all of it alone. -/
theorem kernel_keeps (h : w.step bk s a = some x) (ha : a.ofKernel = true) :
    x.pc = s.pc ∧ x.ready = s.ready ∧ x.ring.cancelled = s.ring.cancelled := by
  cases a with
  | issue i req =>
    obtain ⟨c, -, rfl⟩ := Option.map_eq_some_iff.mp h
    exact ⟨rfl, rfl, rfl⟩
  | respond i =>
    obtain ⟨c, -, h⟩ := Option.bind_eq_some_iff.mp h
    obtain ⟨id, -, rfl⟩ := Option.map_eq_some_iff.mp h
    exact ⟨rfl, rfl, rfl⟩
  | post i res flags =>
    obtain ⟨c, -, rfl⟩ := Option.map_eq_some_iff.mp h
    exact ⟨rfl, rfl, rfl⟩
  | _ => cases ha

theorem work_cancelled (h : w.work bk s = some x) : x.ring.cancelled = s.ring.cancelled := by
  have hflush : s.ring.flushSQ.2.cancelled = s.ring.cancelled := by rw [Ring.flushSQ_frame]
  have hprep : ∀ op tag result next, (prepared s tag next
      (w.prepare op tag result s.ring)).ring.cancelled = s.ring.cancelled := by
    intro op tag result next
    rw [(prepared_keeps _ _ _ _).2.2, w.prepare_cancelled]
  unfold work at h
  split at h
  · split_ifs at h <;> cases h
    · exact hprep _ _ _ _
    · rfl
  · cases h
    exact hflush
  · split_ifs at h <;> cases h <;> rfl
  · split at h <;> cases h <;> rfl
  · cases h
    rfl
  · cases h
    rfl
  · cases h
    rfl
  · cases h
    rfl
  · cases h
    exact hprep _ _ _ _
  · split at h <;> cases h <;> rfl
  · cases h
    exact hflush
  all_goals cases h

theorem enterWith_cancelled {count : UInt32} {wrap : Errno → UringError} {reply : EnterReply}
    (h : enterWith s count wrap reply = some x) : x.ring.cancelled = s.ring.cancelled := by
  rw [enterWith] at h
  split_ifs at h
  cases h
  show (s.ring.enter count wrap reply).ring.cancelled = _
  rw [Ring.enter_frame]

/-- The worker does not touch the flag. -/
theorem step_cancelled (h : w.step bk s a = some x) (ha : a.ofWorker = true) :
    x.ring.cancelled = s.ring.cancelled := by
  cases a with
  | work => exact work_cancelled h
  | enter reply =>
    simp only [step, enter] at h
    split at h
    · exact enterWith_cancelled h
    · exact enterWith_cancelled h
    · cases h
  | epoll reply =>
    cases reply <;> simp only [step, epoll] at h <;> split_ifs at h <;> cases h <;> rfl
  | _ => cases ha

/-- The two statements of `SubmitAndWait` are possible: its system call may fail. -/
theorem early_enabled (w : Worker) (bk : Backend β) (h : s.pc.early = true)
    (hinit : ∀ tag, s.pc ≠ .init tag) :
    ∃ b : Action, b.ofWorker = true ∧ (w.step bk s b).isSome = true := by
  cases hpc : s.pc with
  | init tag => exact absurd hpc (hinit tag)
  | start =>
    refine ⟨.work, rfl, ?_⟩
    simp only [step, work, hpc]
    rfl
  | startEnter count =>
    refine ⟨.enter (.errno 0), rfl, ?_⟩
    simp only [step, enter, hpc, enterWith]
    rw [if_pos (by trivial)]
    rfl
  | _ => rw [hpc] at h; cases h

end Worker
end
end Ublk
