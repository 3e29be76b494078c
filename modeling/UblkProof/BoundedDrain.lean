import UblkProof.TagConservation
import UblkProof.WorkerLog

/-! # The inner loop is bounded

The inner loop of `run` goes on while `PeekCQE` finds a completion, and the kernel may post one
at any time.  What ends it is that a tag completes only once between two submissions: each
iteration adds a commit to those that wait, and with all tags waiting there is nothing left to
complete.  So the room for further commits is what the loop consumes; `Worker.takesLeft`,
`Worker.servesLeft` and `Worker.stepsLeft` turn it into the number of iterations, of `handleIO`
calls and of statements the worker can still execute before it is back at the top of `WaitCQE`.

With the cancel flag set, the top of `WaitCQE` is the end.
-/
namespace Ublk
open Runs

section
variable {β : Type}

/-- How many completions the inner loop has taken, and how many requests it has served. -/
def Core.taken (s : Core β) : Nat := (s.log.filterMap Event.taken?).length

/-- How many requests `handleIO` has been called for. -/
def Core.served (s : Core β) : Nat := (s.log.filterMap Event.handled?).length

namespace Worker
variable (w : Worker)

/-- How many completions the worker can still take before the next `WaitCQE`, with `waiting`
commits prepared. -/
def takesLeft (waiting : Nat) : PC → Nat
  | .waitLoad | .took _ _ | .copied _ _ _ | .seen _ _ _ | .peek => w.depth.toNat - waiting
  | .handle _ | .commit _ _ => w.depth.toNat - waiting - 1
  | _ => 0

/-- How many requests it can still serve. -/
def servesLeft (waiting : Nat) : PC → Nat
  | .waitLoad | .took _ _ | .copied _ _ _ | .seen _ _ _ | .handle _ | .peek =>
      w.depth.toNat - waiting
  | .commit _ _ => w.depth.toNat - waiting - 1
  | _ => 0

/-- How many statements and system calls it can still execute: six for each iteration. -/
def stepsLeft (waiting : Nat) : PC → Nat
  | .init tag => w.depth.toNat - tag.toNat + 4
  | .start => 3
  | .startEnter _ => 2
  | .waitCheck => 1
  | .waitLoad => 6 * (w.depth.toNat - waiting) + 4
  | .waitEpoll => 2
  | .took _ _ => 6 * (w.depth.toNat - waiting) + 3
  | .copied _ _ _ => 6 * (w.depth.toNat - waiting) + 2
  | .seen _ _ _ => 6 * (w.depth.toNat - waiting) + 1
  | .handle _ => 6 * (w.depth.toNat - waiting)
  | .commit _ _ => 6 * (w.depth.toNat - waiting) - 1
  | .peek => 6 * (w.depth.toNat - waiting) + 4
  | .flush => 3
  | .submitEnter _ => 2
  | .done _ | .panicked => 0

theorem left_le (waiting : Nat) (pc : PC) : w.takesLeft waiting pc ≤ w.depth.toNat ∧
    w.servesLeft waiting pc ≤ w.depth.toNat ∧
    w.stepsLeft waiting pc ≤ 6 * w.depth.toNat + 4 := by
  cases pc <;> unfold takesLeft servesLeft stepsLeft <;> dsimp only <;> omega

end Worker

namespace Flow
variable {w : Worker} {bk : Backend β} {f f' : Flow β} {a : Action}

/-- The three quantities after a step, against those before it. -/
structure Spends (w : Worker) (f : Flow β) (a : Action) (f' : Flow β) : Prop where
  takes : f'.taken + w.takesLeft f'.waiting.length f'.pc ≤
    f.taken + w.takesLeft f.waiting.length f.pc
  serves : f'.served + w.servesLeft f'.waiting.length f'.pc ≤
    f.served + w.servesLeft f.waiting.length f.pc
  steps : w.stepsLeft f'.waiting.length f'.pc + a.ofWorker.toNat ≤
    w.stepsLeft f.waiting.length f.pc

/-- While the worker has a completion in sight or a tag in hand, not all tags wait. -/
theorem Inv.waiting_lt (h : f.Inv w) (hne : f.unread ≠ [] ∨ w.hand f.pc ≠ []) :
    f.waiting.length < w.depth.toNat := by
  have hcard := h.card_le
  rcases hne with hne | hne
  · have := List.length_pos_iff.mpr hne
    omega
  · have := List.length_pos_iff.mpr hne
    omega

/-- A step that takes and serves nothing. -/
theorem Spends.of_log (hlog : ∃ es : List Event, f'.log = f.log ++ es ∧
      es.filterMap Event.taken? = [] ∧ es.filterMap Event.handled? = [])
    (htakes : w.takesLeft f'.waiting.length f'.pc ≤ w.takesLeft f.waiting.length f.pc)
    (hserves : w.servesLeft f'.waiting.length f'.pc ≤ w.servesLeft f.waiting.length f.pc)
    (hsteps : w.stepsLeft f'.waiting.length f'.pc + a.ofWorker.toNat ≤
      w.stepsLeft f.waiting.length f.pc) : Spends w f a f' := by
  obtain ⟨es, hlog, ht, hh⟩ := hlog
  have htaken : f'.taken = f.taken := by
    rw [Core.taken, Core.taken, hlog, List.filterMap_append, ht, List.append_nil]
  have hserved : f'.served = f.served := by
    rw [Core.served, Core.served, hlog, List.filterMap_append, hh, List.append_nil]
  exact ⟨by omega, by omega, hsteps⟩

theorem Move.spends {pc pc' : PC} (hm : Move w f a pc pc')
    (hq : pc ≠ .waitCheck ∨ f.cancelled = true) (waiting : Nat) :
    w.takesLeft waiting pc' ≤ w.takesLeft waiting pc ∧
      w.servesLeft waiting pc' ≤ w.servesLeft waiting pc ∧
      w.stepsLeft waiting pc' + a.ofWorker.toNat ≤ w.stepsLeft waiting pc := by
  cases hm with
  | check hc =>
    -- the one move that starts a new batch: it needs the flag unset
    rcases hq with hq | hq
    · exact absurd rfl hq
    · rw [hc] at hq
      cases hq
  | _ =>
    unfold Worker.takesLeft Worker.servesLeft Worker.stepsLeft
    dsimp only [Action.ofWorker, Bool.toNat_true]
    omega

/-- Nothing can be taken or served between the flush of a batch and the next `WaitCQE`. -/
theorem Flushing.spends {pc next : PC} (hp : Flushing f pc next) (waiting waiting' : Nat) :
    w.takesLeft waiting' next = 0 ∧ w.servesLeft waiting' next = 0 ∧
      w.stepsLeft waiting' next + 1 ≤ w.stepsLeft waiting pc := by
  cases hp <;> exact ⟨rfl, rfl, Nat.le_of_ble_eq_true rfl⟩

theorem Entering.spends {pc : PC} {count : UInt32} {wrap : Errno → UringError}
    (he : Entering pc count wrap) (reply : Ring.EnterReply) (waiting waiting' : Nat) :
    w.takesLeft waiting' (Worker.afterEnter f.toCore (reply.ret wrap)).1 = 0 ∧
      w.servesLeft waiting' (Worker.afterEnter f.toCore (reply.ret wrap)).1 = 0 ∧
      w.stepsLeft waiting' (Worker.afterEnter f.toCore (reply.ret wrap)).1 + 1 ≤
        w.stepsLeft waiting pc := by
  have hbefore : w.stepsLeft waiting pc = 2 := by cases he <;> rfl
  rw [hbefore]
  unfold Worker.afterEnter
  split <;> exact ⟨rfl, rfl, Nat.le_of_ble_eq_true rfl⟩

/-- **Each step pays for what it does**, unless the worker passes the check of `WaitCQE`. -/
theorem Inv.spends (h : f.Inv w) (hs : Step w bk f a f')
    (hq : f.pc ≠ .waitCheck ∨ f.cancelled = true) : Spends w f a f' := by
  have hnil : ∃ es : List Event, f.log = f.log ++ es ∧ es.filterMap Event.taken? = [] ∧
      es.filterMap Event.handled? = [] := ⟨[], (List.append_nil _).symm, rfl, rfl⟩
  cases hs with
  | move hm =>
    obtain ⟨h1, h2, h3⟩ := hm.spends hq f.waiting.length
    exact .of_log hnil h1 h2 h3
  | control hc => cases hc <;> exact .of_log hnil (Nat.le_refl _) (Nat.le_refl _) (Nat.le_refl _)
  | @fetch tag hpc hlt =>
    have hsucc := succ_toNat hlt
    have hlt' := UInt16.lt_iff_toNat_lt.mp hlt
    refine .of_log ⟨_, rfl, rfl, rfl⟩ (Nat.zero_le _) (Nat.zero_le _) ?_
    rw [hpc]
    show w.depth.toNat - (tag + 1).toNat + 4 + 1 ≤ w.depth.toNat - tag.toNat + 4
    omega
  | @publish next hp =>
    obtain ⟨h1, h2, h3⟩ := hp.spends f.waiting.length 0
    exact .of_log ⟨_, rfl, filterMap_map_none _ _ (fun _ => rfl) _,
      filterMap_map_none _ _ (fun _ => rfl) _⟩ (h1.trans_le (Nat.zero_le _))
      (h2.trans_le (Nat.zero_le _)) h3
  | @enter count wrap reply he _ =>
    obtain ⟨h1, h2, h3⟩ := he.spends reply f.waiting.length f.waiting.length
    exact .of_log ⟨_, rfl, filterMap_map_none _ _ (fun _ => rfl) _,
      filterMap_map_none _ _ (fun _ => rfl) _⟩ (h1.trans_le (Nat.zero_le _))
      (h2.trans_le (Nat.zero_le _)) h3
  | @seen origin tag res c cs hpc hun =>
    -- the tag of this completion does not wait, so not all of them do
    have hlt := h.waiting_lt (.inl (by rw [hun]; exact List.cons_ne_nil c cs))
    have htaken : Core.taken { f.toCore with
        log := f.log ++ [.taken tag res]
        pc := if res < 0 then .done (.negativeRes origin tag) else .handle tag } = f.taken + 1 := by
      simp [Core.taken, Event.taken?]
    have hserved : Core.served { f.toCore with
        log := f.log ++ [.taken tag res]
        pc := if res < 0 then .done (.negativeRes origin tag) else .handle tag } = f.served := by
      simp [Core.served, filterMap_one, Event.handled?]
    refine ⟨?_, ?_, ?_⟩
    · rw [htaken, hpc]
      split_ifs <;> simp only [Worker.takesLeft] <;> omega
    · rw [hserved, hpc]
      split_ifs <;> unfold Worker.servesLeft <;> dsimp only <;> omega
    · rw [hpc]
      split_ifs <;> simp only [Worker.stepsLeft, Action.ofWorker, Bool.toNat_true] <;> omega
  | @serve tag out hpc hlt hout =>
    have hlt := h.waiting_lt (.inr (by rw [hpc]; exact List.cons_ne_nil _ _))
    have htaken : Core.taken (w.served f.toCore tag out) = f.taken := by
      simp [Core.taken, Worker.served, filterMap_one, Event.taken?]
    have hserved : Core.served (w.served f.toCore tag out) = f.served + 1 := by
      simp [Core.served, Worker.served, Event.handled?]
    refine ⟨?_, ?_, ?_⟩
    · rw [htaken, hpc]
      exact Nat.le_refl _
    · rw [hserved, hpc]
      show f.served + 1 + (w.depth.toNat - f.waiting.length - 1) ≤
        f.served + (w.depth.toNat - f.waiting.length)
      omega
    · rw [hpc]
      show 6 * (w.depth.toNat - f.waiting.length) - 1 + 1 ≤ 6 * (w.depth.toNat - f.waiting.length)
      omega
  | @commit tag result hpc =>
    have hlt := h.waiting_lt (.inr (by rw [hpc]; exact List.cons_ne_nil _ _))
    have hlen : (f.waiting ++ [w.commitSQE tag result]).length = f.waiting.length + 1 := by
      rw [List.length_append, List.length_singleton]
    refine .of_log ⟨_, rfl, rfl, rfl⟩ ?_ ?_ ?_ <;> rw [hpc, hlen]
    · show w.depth.toNat - (f.waiting.length + 1) ≤ w.depth.toNat - f.waiting.length - 1
      omega
    · show w.depth.toNat - (f.waiting.length + 1) ≤ w.depth.toNat - f.waiting.length - 1
      omega
    · -- the commit uses up a tag, which pays for the next iteration
      show 6 * (w.depth.toNat - (f.waiting.length + 1)) + 4 + 1 ≤
        6 * (w.depth.toNat - f.waiting.length) - 1
      omega
  | issue hi => exact .of_log ⟨_, rfl, rfl, rfl⟩ (Nat.le_refl _) (Nat.le_refl _) (Nat.le_refl _)
  | respond hi hid =>
    exact .of_log ⟨_, rfl, rfl, rfl⟩ (Nat.le_refl _) (Nat.le_refl _) (Nat.le_refl _)
  | post hi => exact .of_log ⟨_, rfl, rfl, rfl⟩ (Nat.le_refl _) (Nat.le_refl _) (Nat.le_refl _)

end Flow

/-- From `s` to `s'`, through the actions `as`, the worker does no more than one queue depth of
work. -/
structure Drained (w : Worker) (s : Core β) (as : List Action) (s' : Core β) : Prop where
  iterations : s'.taken ≤ s.taken + w.depth.toNat
  calls : s'.served ≤ s.served + w.depth.toNat
  steps : as.countP Action.ofWorker ≤ 6 * w.depth.toNat + 4

namespace Flow
variable {w : Worker} {bk : Backend β} {f f' : Flow β} {as : List Action}

/-- A path on which the worker never passes the check of `WaitCQE`. -/
theorem drained_of_path {ok : Core β → Action → Prop} {I : Flow β → Prop} (h0 : I f)
    (hinv : ∀ f, I f → f.Inv w)
    (hstep : ∀ f a f', I f → StepIf w bk ok f a f' → I f')
    (hquiet : ∀ f a, I f → ok f.toCore a → f.pc ≠ .waitCheck ∨ f.cancelled = true)
    (h : Path (StepIf w bk ok) f as f') : Drained w f.toCore as f'.toCore := by
  have hspends : ∀ f a f', I f → StepIf w bk ok f a f' → Spends w f a f' :=
    fun f a f' hi hs => (hinv f hi).spends hs.2 (hquiet f a hi hs.1)
  obtain ⟨-, htakes, hserves⟩ := h.invariant (I := fun f' => I f' ∧
      f'.taken + w.takesLeft f'.waiting.length f'.pc ≤
        f.taken + w.takesLeft f.waiting.length f.pc ∧
      f'.served + w.servesLeft f'.waiting.length f'.pc ≤
        f.served + w.servesLeft f.waiting.length f.pc)
    ⟨h0, Nat.le_refl _, Nat.le_refl _⟩ fun f₁ a f₂ hi hs =>
      ⟨hstep f₁ a f₂ hi.1 hs, Nat.le_trans (hspends f₁ a f₂ hi.1 hs).takes hi.2.1,
        Nat.le_trans (hspends f₁ a f₂ hi.1 hs).serves hi.2.2⟩
  have hsteps := h.countP_le Action.ofWorker (fun f => w.stepsLeft f.waiting.length f.pc) h0 hstep
    fun f a f' hi hs => (hspends f a f' hi hs).steps
  obtain ⟨h1, h2, h3⟩ := w.left_le f.waiting.length f.pc
  exact ⟨by omega, by omega, by omega⟩

/-- Nobody clears the flag. -/
theorem cancelled_step {a : Action} (h : f.cancelled = true) (hs : Step w bk f a f') :
    f'.cancelled = true := by
  cases hs with
  | control hc => cases hc <;> first | exact h | rfl
  | _ => exact h

end Flow

/-- The worker can go on unless it has returned, or is in `epoll_wait` and nobody has written the
eventfd. -/
theorem Worker.can_work (w : Worker) (bk : Backend β) {s : World β} (hp : s.pc ≠ .panicked)
    (hd : ∀ exit, s.pc ≠ .done exit) (he : s.pc = .waitEpoll → s.efd = true) :
    ∃ a, a.ofWorker = true ∧ (w.step bk s a).isSome = true := by
  cases hpc : s.pc with
  | startEnter count =>
    refine ⟨.enter (.errno 0), rfl, ?_⟩
    simp only [step, enter, hpc]
    rfl
  | submitEnter count =>
    refine ⟨.enter (.errno 0), rfl, ?_⟩
    simp only [step, enter, hpc]
    rfl
  | waitEpoll =>
    refine ⟨.epoll (.events true), rfl, ?_⟩
    simp only [step, epoll, hpc]
    rw [if_pos ⟨trivial, fun _ => he hpc⟩]
    rfl
  | done exit => exact absurd hpc (hd exit)
  | panicked => exact absurd hpc hp
  | init tag | waitCheck | waitLoad | peek =>
    refine ⟨.work, rfl, ?_⟩
    simp only [step, work, hpc]
    split <;> rfl
  | _ =>
    refine ⟨.work, rfl, ?_⟩
    simp only [step, work, hpc]
    rfl

/-- **The drain is bounded.**  From any state a run can reach:

* until the worker is back at the top of `WaitCQE`, it takes at most `depth` completions,
  whatever the kernel posts meanwhile, and the loop ends, as it executes at most `6 * depth + 4`
  statements and system calls;
* if the cancel flag is set, the same bounds hold for the rest of the run;
* meanwhile the worker can always go on, unless it has returned, or is in `epoll_wait` with the
  eventfd not written. -/
theorem drain_bounded (w : Worker) (bk : Backend β) (b : Worker.Boot β) (hb : b.Fits w)
    (as : List Action) (s : World β) (h : w.Run bk Anything b as s) :
    (∀ bs s', Runs.Run (w.step bk) (fun s _ => s.pc ≠ .waitCheck) s bs s' →
      Drained w s.toCore bs s'.toCore) ∧
    (s.ring.cancelled = true → ∀ bs s', Runs.Run (w.step bk) (fun _ _ => True) s bs s' →
      Drained w s.toCore bs s'.toCore) ∧
    ((∀ exit, s.pc ≠ .done exit) → (s.pc = .waitEpoll → s.efd = true) →
      ∃ a, a.ofWorker = true ∧ (w.step bk s a).isSome = true) := by
  obtain ⟨k, kc, hk, hkc, hle, hlec⟩ := hb.sizes
  obtain ⟨f, hp, hm, hi⟩ := (Models.boot hk hkc).follow Anything (Flow.inv_boot w b) hle hlec h
  refine ⟨?_, ?_, ?_⟩
  · intro bs s' hr
    obtain ⟨f', hp', hm', -⟩ := hm.follow (fun s _ => s.pc ≠ .waitCheck) hi hle hlec hr
    rw [hm.core, hm'.core]
    exact Flow.drained_of_path (I := fun f => f.Inv w) hi (fun _ hi => hi)
      (fun _ _ _ hi hs => hi.step hs.2) (fun _ _ _ hok => .inl hok) hp'
  · intro hc bs s' hr
    obtain ⟨f', hp', hm', -⟩ := hm.follow Anything hi hle hlec hr
    rw [hm.core, hm'.core]
    exact Flow.drained_of_path (I := fun f => f.Inv w ∧ f.cancelled = true)
      ⟨hi, hm.cancelled ▸ hc⟩ (fun _ hi => hi.1)
      (fun _ _ _ hi hs => ⟨hi.1.step hs.2, Flow.cancelled_step hi.2 hs.2⟩)
      (fun _ _ hi _ => .inr hi.2) hp'
  · refine w.can_work bk fun hpanic => ?_
    have hpc : s.pc = f.pc := congrArg Core.pc hm.core
    have hloc := hi.loc
    rw [← hpc, hpanic] at hloc
    exact hloc

/-- From the first `handleIO` of a batch of three to the return of `run`. -/
def Worker.smallDrain : List Action :=
  [.post 0 0 0] ++ List.replicate 16 .work ++ [.enter (.consumed 3), .work]

/-- The small worker is cancelled while it holds the first of two completions, and a third is
posted: it serves all three, submits and returns. -/
theorem drain_bounded_small : ∃ s s' : World Unit,
    Worker.small.Run fullBackend Anything Worker.smallBoot
      (Worker.smallStart (.consumed 3) ++ [.post 2 0 0, .post 0 0 0] ++ List.replicate 5 .work ++
        [.cancelStore]) s ∧
    Runs.Run (Worker.small.step fullBackend) (fun _ _ => True) s Worker.smallDrain s' ∧
    s'.served = s.served + 3 ∧ s'.pc = .done (.waitFailed .cancelled) ∧
    Drained Worker.small s.toCore Worker.smallDrain s'.toCore := by
  have hex : ∃ s : World Unit, Worker.small.Run fullBackend Anything Worker.smallBoot
      (Worker.smallStart (.consumed 3) ++ [.post 2 0 0, .post 0 0 0] ++ List.replicate 5 .work ++
        [.cancelStore]) s ∧ s.ring.cancelled = true ∧
      (exec (Worker.small.step fullBackend) (fun _ _ => True) s Worker.smallDrain).any (fun s' =>
        s'.served = s.served + 3 ∧ s'.pc = .done (.waitFailed .cancelled)) = true :=
    exists_run_of_exec (fun s : World Unit => s.ring.cancelled = true ∧
      (exec (Worker.small.step fullBackend) (fun _ _ => True) s Worker.smallDrain).any (fun s' =>
        s'.served = s.served + 3 ∧ s'.pc = .done (.waitFailed .cancelled)) = true)
      (by decide +kernel)
  obtain ⟨s, hr, hc, hrest⟩ := hex
  obtain ⟨s', hr', hserved, hpc⟩ := exists_run_of_exec (fun s' : World Unit =>
    s'.served = s.served + 3 ∧ s'.pc = .done (.waitFailed .cancelled)) hrest
  exact ⟨s, s', hr, hr', hserved, hpc,
    (drain_bounded _ _ _ Worker.small_fits _ s hr).2.1 hc _ s' hr'⟩

end
end Ublk
