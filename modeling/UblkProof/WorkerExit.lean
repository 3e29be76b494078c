import UblkProof.TagConservation
import UblkProof.WorkerLog

/-! # What is left behind when the worker stops

`run` defers commits to the end of a batch and has exits at several depths of its two
loops.  `WaitCQE` is called only when nothing waits, so an exit there leaves nothing
behind.  The exit on a negative `Res` is different: it is taken in the inner loop, before
the `Submit` that ends the batch.  If the completion came from `WaitCQE` it is the first
of its batch and nothing waits; if it came from `PeekCQE`, at least one request of the
batch has been handled and its commit is not published.
-/
namespace Ublk
open Runs
open Ublk.Ring (EnterReply)

section
variable {β : Type}

/-- `io_uring_enter` or `epoll_wait` failed. -/
def Exit.systemCallFailed : Exit → Bool
  | .fetchFailed _ | .submitFailed _ | .waitFailed (.epollWait _) => true
  | _ => false

/-- If `run` returned, and not because a system call failed, nothing waits, and the entries
published are the `FETCH` of each tag and the commit of each request handled. -/
def AllSubmitted (w : Worker) (s : World β) : Prop :=
  ∀ exit, s.pc = .done exit → exit.systemCallFailed = false →
    s.ring.sqeLocalHead = s.ring.sqeLocalTail ∧
    s.log.filterMap Event.published? =
      (List.range w.depth.toNat).map (fun t => w.fetchSQE (UInt16.ofNat t)) ++
        (s.log.filterMap Event.handled?).map fun h => w.commitSQE h.1 h.2.2.2

/-- The worker is about to stop at a completion that `PeekCQE` returned. -/
def PC.cutsBatch : PC → Bool
  | .seen .peek _ res => res < 0
  | _ => false

theorem PC.cutsBatch_iff {pc : PC} :
    pc.cutsBatch = true ↔ ∃ tag res, pc = .seen .peek tag res ∧ res < 0 := by
  constructor
  · intro h
    unfold PC.cutsBatch at h
    split at h
    · exact ⟨_, _, rfl, of_decide_eq_true h⟩
    · cases h
  · rintro ⟨tag, res, rfl, hres⟩
    exact decide_eq_true hres

/-- A completion that `PeekCQE` returned does not carry a negative `Res`. -/
def NegativeFirst (s : Core β) (_ : Action) : Prop := s.pc.cutsBatch = false

instance (s : Core β) (a : Action) : Decidable (NegativeFirst s a) :=
  inferInstanceAs (Decidable (s.pc.cutsBatch = false))

namespace Flow
variable {w : Worker} {bk : Backend β} {f f' : Flow β} {a : Action}

/-- The worker has not stopped in the middle of a batch. -/
def NotCut (f : Flow β) : Prop := ∀ tag, f.pc ≠ .done (.negativeRes .peek tag)

theorem notCut_step (h : f.NotCut) (hs : StepIf w bk NegativeFirst f a f') : f'.NotCut := by
  obtain ⟨hok, hs⟩ := hs
  intro tag
  cases hs with
  | move hm =>
    intro he
    revert hm
    cases he
    generalize f.pc = pc
    intro hm
    cases hm
  | control _ | issue _ | respond _ _ | post _ => exact h tag
  | fetch _ _ | commit _ | serve _ _ _ => exact PC.noConfusion
  | publish hp =>
    intro he
    revert hp
    cases he
    generalize f.pc = pc
    intro hp
    cases hp
  | @enter count wrap reply he _ =>
    show (Worker.afterEnter f.toCore (reply.ret wrap)).1 ≠ _
    unfold Worker.afterEnter
    split <;> intro hd <;> cases hd
  | @seen origin t res c cs hpc _ =>
    show (if res < 0 then PC.done (.negativeRes origin t) else .handle t) ≠ _
    split_ifs with hneg
    · intro hd
      cases hd
      -- the condition excludes this
      have hcut : PC.cutsBatch f.pc = false := hok
      rw [hpc] at hcut
      exact of_decide_eq_false hcut hneg
    · exact PC.noConfusion

/-- Nothing waits at an exit that no system call caused. -/
theorem Inv.waiting_nil (h : f.Inv w) (hcut : f.NotCut) {exit : Exit} (hpc : f.pc = .done exit) :
    f.waiting = [] := by
  have hloc := h.loc
  rw [hpc] at hloc
  cases exit with
  | negativeRes origin tag =>
    cases origin with
    | wait => exact hloc.mp rfl
    | peek => exact absurd hpc (hcut tag)
  | fetchFailed _ | waitFailed _ | submitFailed _ => exact hloc

end Flow

/-- At an exit no request is half handled. -/
theorem Unfinished.exit {w : Worker} {bk : Backend β} {n : Nat} {cycles : List Cycle}
    {tail : List Event} {exit : Exit} (h : Unfinished w bk n cycles tail (.done exit)) :
    n = w.depth.toNat ∧ tail.filterMap Event.handled? = [] := by
  cases exit with
  | negativeRes origin tag =>
    obtain ⟨hn, res, -, rfl⟩ := h
    exact ⟨hn, rfl⟩
  | _ =>
    obtain ⟨hn, rfl⟩ := h
    exact ⟨hn, rfl⟩

/-- **No handled request is left unanswered**, in every run in which no completion taken with
`PeekCQE` is negative; and the first such completion leaves one unanswered. -/
theorem handled_requests_submitted (w : Worker) (bk : Backend β) (b : Worker.Boot β)
    (hb : b.Fits w) (as : List Action) (s : World β) (h : w.Run bk NegativeFirst b as s) :
    AllSubmitted w s ∧
      (¬ NegativeFirst s.toCore .work →
        ∀ s', w.step bk s .work = some s' → ¬ AllSubmitted w s') := by
  obtain ⟨k, kc, f, hle, hp, hm, hi⟩ := h.simulates hb
  have hpc : s.pc = f.pc := congrArg Core.pc hm.core
  have hlog : s.log = f.log := congrArg Core.log hm.core
  obtain ⟨head, hsq⟩ := hm.sq
  constructor
  · intro exit hexit _
    have hcut : f.NotCut := hp.invariant (I := Flow.NotCut) (fun _ => PC.noConfusion)
      fun _ _ _ hc hs => Flow.notCut_step hc hs
    have hw := hi.waiting_nil hcut (hpc ▸ hexit)
    refine ⟨hsq.local_eq_iff.mpr hw, ?_⟩
    have hrec := Flow.recorded_of_path hp
    obtain ⟨n, cycles, tail, hu, hprep, hhand⟩ := (Flow.script_of_path hp).accounts
    rw [← hpc, hexit] at hu
    obtain ⟨rfl, htail⟩ := hu.exit
    have hpub : f.log.filterMap Event.published? = f.log.filterMap Event.prepared? := by
      rw [hrec.prepared, hrec.published, hw, List.append_nil]
    rw [hlog, hpub, hprep, hhand, htail, List.append_nil, List.map_map]
    rfl
  · intro hneg s' hs' hall
    obtain ⟨tag, res, hseen, hres⟩ := PC.cutsBatch_iff.mp (Bool.not_eq_false _ ▸ hneg)
    simp only [Worker.step, Worker.work, hseen, if_pos hres] at hs'
    cases hs'
    -- something waits, as the completion is not the first of its batch
    have hloc := hi.loc
    rw [← hpc, hseen] at hloc
    have hne : f.waiting ≠ [] := fun hw => Origin.noConfusion (hloc.1.mpr hw)
    exact hne (hsq.local_eq_iff.mp (hall _ rfl rfl).1)

/-! ## Both cases of the small worker -/

/-- A negative completion that is the first of its batch. -/
theorem handled_requests_submitted_small : ∃ s : World Unit,
    Worker.small.Run fullBackend NegativeFirst Worker.smallBoot
      (Worker.smallStart (.consumed 3) ++ [.post 2 0 0] ++ Worker.smallFirst ++
        [.work, .work, .enter (.consumed 1), .post 0 (-19) 0] ++ List.replicate 5 .work) s ∧
    s.pc = .done (.negativeRes .wait 0) ∧ AllSubmitted Worker.small s := by
  have hex : ∃ s : World Unit, Worker.small.Run fullBackend NegativeFirst Worker.smallBoot
      (Worker.smallStart (.consumed 3) ++ [.post 2 0 0] ++ Worker.smallFirst ++
        [.work, .work, .enter (.consumed 1), .post 0 (-19) 0] ++ List.replicate 5 .work) s ∧
      s.pc = .done (.negativeRes .wait 0) :=
    exists_run_of_exec (fun s : World Unit => s.pc = .done (.negativeRes .wait 0))
      (by decide +kernel)
  obtain ⟨s, hr, hpc⟩ := hex
  exact ⟨s, hr, hpc, (handled_requests_submitted _ _ _ Worker.small_fits _ s hr).1⟩

/-- **A request handled and never answered.**  Tag 2 is served, then the aborted tag 0 of the
same batch ends the worker: the commit of tag 2 stays in the ring, unpublished. -/
theorem commit_left_after_negative_res : ∃ s : World Unit,
    Worker.small.Run fullBackend Anything Worker.smallBoot
      (Worker.smallStart (.consumed 3) ++ [.post 2 0 0, .post 0 (-19) 0] ++ Worker.smallFirst ++
        List.replicate 4 .work) s ∧
    s.pc = .done (.negativeRes .peek 0) ∧
    s.ring.unpublished = [Worker.small.commitSQE 2 512] ∧ ¬ AllSubmitted Worker.small s := by
  have hex : ∃ s : World Unit, Worker.small.Run fullBackend Anything Worker.smallBoot
      (Worker.smallStart (.consumed 3) ++ [.post 2 0 0, .post 0 (-19) 0] ++ Worker.smallFirst ++
        List.replicate 4 .work) s ∧
      s.pc = .done (.negativeRes .peek 0) ∧
      s.ring.unpublished = [Worker.small.commitSQE 2 512] ∧
      s.ring.sqeLocalHead ≠ s.ring.sqeLocalTail :=
    exists_run_of_exec (fun s : World Unit => s.pc = .done (.negativeRes .peek 0) ∧
      s.ring.unpublished = [Worker.small.commitSQE 2 512] ∧
      s.ring.sqeLocalHead ≠ s.ring.sqeLocalTail) (by decide +kernel)
  obtain ⟨s, hr, hpc, hwait, hne⟩ := hex
  exact ⟨s, hr, hpc, hwait, fun hall => hne (hall _ hpc rfl).1⟩

end
end Ublk
