import UblkProof.WorkerSimulation

/-! # Tag conservation

The flow's invariant, read off the machine's own state: the slots between the private
counters, the published entries and the commands in flight, the completions between head
and tail, and the worker's hand together hold every tag below `depth` once.

Nothing is assumed of how many of the published entries a system call consumes: an entry
the kernel left in the queue still counts as given to the kernel.  The kernel posts one
completion for each command in flight, at any time and in any order.
-/
namespace Ublk
open Runs
open Ublk.Ring (EnterReply)

section
variable {β : Type}

/-! ## The four places -/

namespace World

/-- Prepared and not yet published. -/
def unpublishedTags (s : World β) : List Nat := s.ring.unpublished.map SQE.tag

/-- Given to the kernel: published, or consumed and not yet completed. -/
def kernelTags (s : World β) : List Nat :=
  s.ring.unconsumed.map SQE.tag ++ s.inflight.map Command.tag

/-- In a completion the worker has not passed. -/
def unreadTags (s : World β) : List Nat := s.ring.unread.map CQE.tag

end World

/-- What conservation of tags means for the code. -/
structure TagsConserved (w : Worker) (s : World β) : Prop where
  /-- Each tag below `depth` is at one of the four places, once, and there is no other. -/
  places : (s.unpublishedTags ++ s.kernelTags ++ s.unreadTags ++ w.hand s.pc).Perm
    (List.range w.depth.toNat)
  /-- `GetSQE64` has not returned nil to `prepareFetch` or `prepareCommitAndFetch`. -/
  noneLost : ∀ tag, .lost tag ∉ s.log
  /-- Every tag taken from a completion is in range, and nothing was indexed out of range. -/
  inRange : (∀ tag res, .taken tag res ∈ s.log → tag < w.depth) ∧ s.pc ≠ .panicked
  /-- The completion queue holds at most `depth` entries, which it has room for. -/
  noOverflow : (s.ring.cqTail - s.ring.cqHead).toNat ≤ w.depth.toNat ∧
    w.depth.toNat ≤ s.ring.cqEntries.toNat

/-! ## What the log of a flow shows -/

/-- No tag was lost, and those taken are in range. -/
def Event.InRange (w : Worker) : Event → Prop
  | .lost _ => False
  | .taken tag _ => tag < w.depth
  | _ => True

namespace Flow
variable {w : Worker} {bk : Backend β} {f f' : Flow β} {a : Action}

theorem inRange_step (h : f.Inv w) (hold : ∀ e ∈ f.log, e.InRange w) (hs : Step w bk f a f') :
    ∀ e ∈ f'.log, e.InRange w := by
  -- every step but `move` and `control` appends events; only `taken` has to be looked at
  have happend : ∀ es : List Event, (∀ e ∈ es, e.InRange w) →
      ∀ e ∈ f.log ++ es, e.InRange w := fun es hes => List.forall_mem_append.mpr ⟨hold, hes⟩
  have hmap : ∀ (mk : SQE64 → Event), (∀ x, (mk x).InRange w) → ∀ l : List SQE64,
      ∀ e ∈ l.map mk, e.InRange w := by
    intro mk hmk l e he
    obtain ⟨x, -, rfl⟩ := List.mem_map.mp he
    exact hmk x
  cases hs with
  | move _ | control _ => exact hold
  | fetch _ _ | commit _ | serve _ _ _ | issue _ | respond _ _ | post _ =>
    exact happend _ (List.forall_mem_singleton.mpr trivial)
  | publish _ => exact happend _ (hmap .published (fun _ => trivial) _)
  | enter _ _ => exact happend _ (hmap .consumed (fun _ => trivial) _)
  | seen hpc hun => exact happend _ (List.forall_mem_singleton.mpr (h.seen_eq hpc hun).2.1)

theorem inRange_of_path {ok : Core β → Action → Prop} {b : Worker.Boot β} {as : List Action}
    (h : Path (StepIf w bk ok) (boot b) as f) : ∀ e ∈ f.log, e.InRange w := by
  refine holds_of_path (P := fun f => ∀ e ∈ f.log, e.InRange w) (fun _ he => by cases he) ?_ h
  intro f a f' hi hr _ hs
  exact inRange_step hi hr hs

end Flow

/-! ## The machine -/

/-- No assumption on the environment beyond what the machine itself allows. -/
def Anything : Core β → Action → Prop := fun _ _ => True

instance (s : Core β) (a : Action) : Decidable (Anything s a) := inferInstanceAs (Decidable True)

namespace Models
variable {k kc : Nat} {s : World β} {f : Flow β}

/-- The machine's places hold what the flow's lists hold. -/
theorem places_eq (h : Models k kc s f) (w : Worker) :
    ((s.unpublishedTags ++ s.kernelTags ++ s.unreadTags ++ w.hand s.pc : List Nat) : Multiset Nat) =
      f.tags w := by
  obtain ⟨head, hsq⟩ := h.sq
  obtain ⟨chead, hcq, -⟩ := h.cq
  simp only [World.unpublishedTags, World.kernelTags, World.unreadTags, hsq.unpublished_eq,
    hsq.unconsumed_eq, hcq.unread_eq, h.core, Flow.tags, ← Multiset.coe_add]
  ac_rfl

end Models

/-- **Tag conservation.**  In every run of a worker of any depth, from any initial counters and
memory, each tag is at exactly one place, and so no entry is missing when one is needed,
no index is out of range and the completion queue does not overflow. -/
theorem tags_conserved (w : Worker) (bk : Backend β) (b : Worker.Boot β) (hb : b.Fits w)
    (as : List Action) (s : World β) (h : w.Run bk Anything b as s) : TagsConserved w s := by
  obtain ⟨k, kc, f, hle, hp, hm, hi⟩ := h.simulates hb
  obtain ⟨chead, hcq, -⟩ := hm.cq
  have hlog : s.log = f.log := congrArg Core.log hm.core
  have hpc : s.pc = f.pc := congrArg Core.pc hm.core
  have hrange := Flow.inRange_of_path hp
  refine ⟨?_, ?_, ⟨?_, ?_⟩, ?_, ?_⟩
  · rw [← Multiset.coe_eq_coe, hm.places_eq w, hi.tags]
    rfl
  · intro tag hmem
    exact hrange _ (hlog ▸ hmem)
  · intro tag res hmem
    exact hrange _ (hlog ▸ hmem)
  · rw [hpc]
    intro hpanic
    have hloc := hi.loc
    rw [hpanic] at hloc
    exact hloc
  · rw [hcq.dist]
    have := hi.card_le
    omega
  · rw [hcq.entries]
    exact hle

/-! ## A small worker -/

/-- Three tags in a ring of four entries, buffers of one sector. -/
def Worker.small : Worker :=
  ⟨0, 3, 512, 7, 4096, by decide, by decide, by decide, by decide⟩

/-- Both queues' counters are about to wrap; every descriptor is a read of one sector. -/
def Worker.smallBoot : Worker.Boot Unit :=
  ⟨⟨4, 8, 64, 64⟩, 0xFFFFFFFE, 0xFFFFFFFF, fun _ => 9, fun _ => SQE.zero 16, fun _ => ⟨9, -1, 0⟩,
    fun _ => 0, fun _ => ⟨0, 1, 0, 0⟩, ()⟩

theorem Worker.small_fits : Worker.smallBoot.Fits Worker.small :=
  ⟨by decide +kernel, by decide, ⟨3, rfl⟩⟩

/-- `init`, and `SubmitAndWait` answered by `reply`. -/
def Worker.smallStart (reply : EnterReply) : List Action :=
  [.work, .work, .work, .work, .work, .enter reply]

/-- From `WaitCQE` to the position after `prepareCommitAndFetch`. -/
def Worker.smallFirst : List Action := List.replicate 7 .work

/-- Two completions are posted, out of order; the first is handled and looked past. -/
theorem tags_conserved_small : ∃ s : World Unit,
    Worker.small.Run fullBackend Anything Worker.smallBoot
      (Worker.smallStart (.consumed 3) ++ [.post 2 0 0, .post 0 0 0] ++ Worker.smallFirst) s ∧
    s.pc = .peek ∧ TagsConserved Worker.small s := by
  have hex : ∃ s : World Unit, Worker.small.Run fullBackend Anything Worker.smallBoot
      (Worker.smallStart (.consumed 3) ++ [.post 2 0 0, .post 0 0 0] ++ Worker.smallFirst) s ∧
      s.pc = .peek := exists_run_of_exec (fun s : World Unit => s.pc = .peek) (by decide +kernel)
  obtain ⟨s, hr, hpc⟩ := hex
  exact ⟨s, hr, hpc, tags_conserved _ _ _ Worker.small_fits _ s hr⟩

end
end Ublk
