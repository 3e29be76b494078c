import UblkProof.DeviceLifecycle

/-! # Failure-atomic construction and single release

What a struct owns is read off its fields (`held`).  Each function of `DeviceLifecycle` has
one lemma: from a kernel whose live resources are those of the structs at hand, it leads to
one where this holds again, with the fields as the function leaves them.  A failing function
that cleans up after itself ends with what it began with.

`Kernel.Has` also keeps the control commands and the device's own entries in the ledger, which
only `ADD_DEV` and `DEL_DEV` change.
-/
namespace Ublk
open Ledger

/-! ## What is held -/

/-- Resources with their handles. -/
abbrev Held := Multiset (Nat × Resource)

/-- A descriptor field owns what it names, unless it is `-1`. -/
def ownedFD (fd : Int) (r : Resource) : Held := if fd ≥ 0 then {(fd.toNat, r)} else 0

/-- A mapping field owns what it names, unless it is `nil`. -/
def ownedMap (m : Option Nat) (r : Resource) : Held := m.elim 0 fun h => {(h, r)}

@[simp] theorem ownedMap_none (r : Resource) : ownedMap none r = 0 := rfl

/-- What a ring owns. -/
def RingHandles.held (r : RingHandles) : Held :=
  ownedMap r.mmapSQ (.ring r.owner .mmapSQ) + ownedMap r.mmapCQ (.ring r.owner .mmapCQ) +
    ownedMap r.mmapSQEs (.ring r.owner .mmapSQEs) + ownedFD r.epollFD (.ring r.owner .epollFD) +
    ownedFD r.cancelFD (.ring r.owner .cancelFD) + ownedFD r.fd (.ring r.owner .fd)

/-- What a ring owns that may be `nil`. -/
def heldRing (r : Option RingHandles) : Held := r.elim 0 RingHandles.held

/-- What a worker owns. -/
def WorkerHandles.held (w : WorkerHandles) : Held := ownedMap w.ioDescs .ioDescs + heldRing w.ioRing

/-- What the workers own. -/
def heldWorkers : List WorkerHandles → Held
  | [] => 0
  | w :: ws => w.held + heldWorkers ws

/-- The goroutines that `wg` counts. -/
def heldRunning : List Nat → Held
  | [] => 0
  | h :: hs => {(h, .goroutine)} + heldRunning hs

/-- What a device owns. -/
def Device.held (d : Device) : Held :=
  heldRunning d.running + heldWorkers d.workers + ownedFD d.charFD .charFD +
    ownedFD d.id .device + heldRing d.ctrlRing + ownedFD d.ctrlFD .ctrlFD

/-! ## The kernel's calls -/

/-- Entries about the kernel device. -/
def aboutDevice : Entry Resource → Bool
  | .acquired _ r => r = .device
  | .released _ r => r = .device
  | .stray _ => false

theorem filter_concat_other {e : Entry Resource} (h : aboutDevice e = false)
    (l : List (Entry Resource)) : (l ++ [e]).filter aboutDevice = l.filter aboutDevice := by
  rw [List.filter_append, List.filter_cons_of_neg (by rw [h]; decide), List.filter_nil,
    List.append_nil]

/-- What only `ADD_DEV` and `DEL_DEV` change, and all control commands. -/
structure Trace where
  commands : List (UInt32 × Bool)
  device : List (Entry Resource)

/-- What the kernel has seen of the device. -/
def Kernel.trace (k : Kernel) : Trace := ⟨k.commands, k.book.log.filter aboutDevice⟩

theorem Kernel.commands_record (k : Kernel) (op : UInt32) (id : Int) (reply : Option Nat) :
    (k.record op id reply).commands = k.commands ++ [(op, reply.isSome)] := List.map_append

/-- The kernel's live resources and its trace. -/
structure Kernel.Has (k : Kernel) (held : Held) (tr : Trace) : Prop where
  owns : k.book.Owns held
  trace : k.trace = tr

namespace Kernel.Has
variable {k : Kernel} {held : Held} {tr : Trace} {r : Resource}

theorem outcome (h : k.Has held tr) : k.outcome.2.Has held tr := ⟨h.owns, h.trace⟩

theorem congr {held' : Held} (h : k.Has held tr) (he : held = held') : k.Has held' tr := he ▸ h

/-- A call for a resource other than a device. -/
theorem acquire (h : k.Has held tr) (hr : r ≠ .device) :
    (∃ e k', k.acquire r = (.error e, k') ∧ k'.Has held tr) ∨
      ∃ n k', k.acquire r = (.ok n, k') ∧ k'.Has ({(n, r)} + held) tr := by
  unfold Kernel.acquire Kernel.outcome
  cases k.plan k.clock with
  | some e => exact .inl ⟨e, _, rfl, h.outcome⟩
  | none =>
    refine .inr ⟨_, _, rfl, h.owns.acquire r, ?_⟩
    have hlog : (k.book.acquire r).2.log.filter aboutDevice = k.book.log.filter aboutDevice :=
      filter_concat_other (by simpa [aboutDevice] using hr) _
    rw [← h.trace]
    exact congrArg (Trace.mk k.commands) hlog

/-- A control command that changes nothing but the list of commands. -/
theorem record {cmds : List (UInt32 × Bool)} {dev : List (Entry Resource)}
    (h : k.Has held ⟨cmds, dev⟩) (op : UInt32) (id : Int) (reply : Option Nat) :
    (k.record op id reply).Has held ⟨cmds ++ [(op, reply.isSome)], dev⟩ := by
  refine ⟨h.owns, ?_⟩
  have hc : k.commands = cmds := congrArg Trace.commands h.trace
  have hd : k.book.log.filter aboutDevice = dev := congrArg Trace.device h.trace
  rw [← hc, ← hd, ← commands_record]
  rfl

/-- A release of a resource other than a device. -/
theorem release {n : Nat} (h : k.Has ({(n, r)} + held) tr) (hr : r ≠ .device) :
    (k.release n).Has held tr := by
  refine ⟨h.owns.release, ?_⟩
  have hlog : (k.book.release n).log.filter aboutDevice = k.book.log.filter aboutDevice := by
    rw [h.owns.release_eq]
    exact filter_concat_other (by simpa [aboutDevice] using hr) _
  rw [← h.trace]
  exact congrArg (Trace.mk k.commands) hlog

theorem closeFD {fd : Int} (h : k.Has (ownedFD fd r + held) tr) (hr : r ≠ .device) :
    (k.closeFD fd).Has held tr := by
  unfold Kernel.closeFD
  unfold ownedFD at h
  split_ifs at h ⊢ with hfd
  · exact h.release hr
  · rwa [Multiset.zero_add] at h

theorem munmap {m : Option Nat} (h : k.Has (ownedMap m r + held) tr) (hr : r ≠ .device) :
    (k.munmap m).Has held tr := by
  cases m with
  | some n => exact h.release hr
  | none => rwa [ownedMap_none, Multiset.zero_add] at h

end Kernel.Has

namespace RingHandles
variable {k : Kernel} {held : Held} {tr : Trace} {r : RingHandles}

theorem part_ne (o : RingOwner) (p : RingPart) : Resource.ring o p ≠ .device := nofun

/-- **`Ring.Close` releases what the ring holds.** -/
theorem close_spec (h : k.Has (r.held + held) tr) : (r.close k).2.Has held tr := by
  simp only [RingHandles.held, Multiset.add_assoc] at h
  have h1 := h.munmap (part_ne _ _)
  have h2 := h1.munmap (part_ne _ _)
  have h3 := h2.munmap (part_ne _ _)
  have h4 := h3.closeFD (part_ne _ _)
  have h5 := h4.closeFD (part_ne _ _)
  exact h5.closeFD (part_ne _ _)

end RingHandles

/-! ## The worker -/

namespace WorkerHandles
variable {k : Kernel} {held : Held} {tr : Trace} {w : WorkerHandles}

theorem cleanup_spec (h : k.Has (w.held + held) tr) : (w.cleanup k).2.Has held tr := by
  rw [WorkerHandles.held, Multiset.add_assoc] at h
  have h1 := h.munmap nofun
  unfold cleanup
  cases hr : w.ioRing with
  | some r =>
    rw [hr] at h1
    exact RingHandles.close_spec h1
  | none =>
    rw [hr] at h1
    exact h1.congr (Multiset.zero_add _)

end WorkerHandles

/-! ## Control commands -/

section Commands
variable {k : Kernel} {held : Held} {cmds : List (UInt32 × Bool)} {dev : List (Entry Resource)}

/-- A command that neither adds nor deletes a device. -/
theorem ctrlCommand_spec {op : UInt32} (hadd : isAddDev op = false) (hdel : isDelDev op = false)
    (id : Int) (h : k.Has held ⟨cmds, dev⟩) :
    ∃ ok, (Device.ctrlCommand k op id).2.Has held ⟨cmds ++ [(op, ok)], dev⟩ := by
  unfold Device.ctrlCommand Kernel.control Kernel.outcome
  cases k.plan k.clock with
  | some e => exact ⟨false, h.outcome.record op id none⟩
  | none =>
    simp only [hadd, hdel]
    exact ⟨true, h.outcome.record op id (some 0)⟩

/-- `DEL_DEV` of a device that exists. -/
theorem delCommand_spec {op : UInt32} (hdel : isDelDev op = true) (hadd : isAddDev op = false)
    {id : Int} (h : k.Has ({(id.toNat, .device)} + held) ⟨cmds, dev⟩) :
    (∃ err k', Device.ctrlCommand k op id = (.error err, k') ∧
        k'.Has ({(id.toNat, .device)} + held) ⟨cmds ++ [(op, false)], dev⟩) ∨
      ∃ n k', Device.ctrlCommand k op id = (.ok n, k') ∧
        k'.Has held ⟨cmds ++ [(op, true)], dev ++ [.released id.toNat .device]⟩ := by
  have hcmds : k.commands = cmds := congrArg Trace.commands h.trace
  have hdev : k.book.log.filter aboutDevice = dev := congrArg Trace.device h.trace
  unfold Device.ctrlCommand Kernel.control Kernel.outcome
  cases k.plan k.clock with
  | some e => exact .inl ⟨_, _, rfl, h.outcome.record op id none⟩
  | none =>
    simp only [hadd, hdel, if_pos h.owns.mem, if_true]
    refine .inr ⟨_, _, rfl, Kernel.Has.record ⟨h.owns.release, ?_⟩ op id (some 0)⟩
    rw [← hcmds, ← hdev]
    show Trace.mk _ ((k.book.release id.toNat).log.filter aboutDevice) = _
    rw [h.owns.release_eq, List.filter_append]
    rfl

end Commands

/-! ## The device -/

/-- Did some `ADD_DEV` succeed? -/
def added (cmds : List (UInt32 × Bool)) : Bool := cmds.any fun c => isAddDev c.1 && c.2

/-- How often `DEL_DEV` was issued. -/
def deletions (cmds : List (UInt32 × Bool)) : Nat := cmds.countP fun c => isDelDev c.1

/-- Did one succeed? -/
def deleted (cmds : List (UInt32 × Bool)) : Bool := cmds.any fun c => isDelDev c.1 && c.2

/-- A device that is not shut down: `id` tells whether the kernel has a device. -/
structure Device.Record (d : Device) (tr : Trace) : Prop where
  undeleted : deletions tr.commands = 0
  device : (d.id < 0 ∧ added tr.commands = false ∧ tr.device = []) ∨
    (0 ≤ d.id ∧ added tr.commands = true ∧ tr.device = [.acquired d.id.toNat .device])

/-- **Everything acquired so far is released**, once each and not before it was acquired; the
kernel device by the only `DEL_DEV`, if that succeeded. -/
structure ReleasedOnce (k : Kernel) : Prop where
  once : ∀ h r, k.book.log.count (.acquired h r) ≤ 1
  released : ∀ h r, r ≠ .device →
    k.book.log.count (.released h r) = k.book.log.count (.acquired h r)
  legit : ∀ pre, pre <+: k.book.log → ∀ h r,
    pre.count (.released h r) ≤ pre.count (.acquired h r)
  noStray : ∀ h, .stray h ∉ k.book.log
  deletions : deletions k.commands = if added k.commands then 1 else 0
  device : ∀ h, k.book.log.count (.released h .device) =
    if deleted k.commands then k.book.log.count (.acquired h .device) else 0

section Commands
variable (cmds : List (UInt32 × Bool)) (op : UInt32) (ok : Bool)

theorem added_concat : added (cmds ++ [(op, ok)]) = (added cmds || (isAddDev op && ok)) := by
  simp [added]

theorem deletions_concat :
    deletions (cmds ++ [(op, ok)]) = deletions cmds + if isDelDev op then 1 else 0 := by
  rw [deletions, List.countP_append, List.countP_singleton]
  rfl

theorem deleted_concat : deleted (cmds ++ [(op, ok)]) = (deleted cmds || (isDelDev op && ok)) := by
  simp [deleted]

theorem deleted_of_deletions (h : deletions cmds = 0) : deleted cmds = false := by
  rw [deleted, List.any_eq_false]
  intro c hc
  have := List.countP_eq_zero.mp h c hc
  simp_all

end Commands

namespace Device
variable {d : Device} {k : Kernel} {tr : Trace}

/-- A command that neither adds nor deletes a device. -/
theorem Record.command (h : d.Record tr) {op : UInt32} (hadd : isAddDev op = false)
    (hdel : isDelDev op = false) (ok : Bool) :
    d.Record ⟨tr.commands ++ [(op, ok)], tr.device⟩ := by
  refine ⟨?_, ?_⟩
  · rw [deletions_concat, hdel, h.undeleted]
    rfl
  · rw [added_concat, hadd, Bool.false_and, Bool.or_false]
    exact h.device

theorem ctrlOp_eq (d : Device) (a b : UInt32) : d.ctrlOp a b = a ∨ d.ctrlOp a b = b := by
  unfold ctrlOp
  split_ifs
  · exact .inl rfl
  · exact .inr rfl

theorem wait_spec {held : Held} (running : List Nat) (h : k.Has (heldRunning running + held) tr) :
    (wait k running).Has held tr := by
  induction running generalizing k with
  | nil => exact h.congr (Multiset.zero_add _)
  | cons x running ih =>
    rw [heldRunning, Multiset.add_assoc] at h
    exact ih (h.release nofun)

theorem cleanupAll_spec {held : Held} (ws : List WorkerHandles)
    (h : k.Has (heldWorkers ws + held) tr) : (cleanupAll k ws).2.Has held tr := by
  induction ws generalizing k with
  | nil => exact h.congr (Multiset.zero_add _)
  | cons w ws ih =>
    rw [heldWorkers, Multiset.add_assoc] at h
    exact ih (WorkerHandles.cleanup_spec h)

theorem closeRing_spec {held : Held} (r : Option RingHandles)
    (h : k.Has (heldRing r + held) tr) : (closeRing k r).Has held tr := by
  cases r with
  | some r => exact RingHandles.close_spec h
  | none => exact h.congr (Multiset.zero_add _)

/-- The device's part of `ReleasedOnce`. -/
structure Settled (tr : Trace) : Prop where
  deletions : deletions tr.commands = if added tr.commands then 1 else 0
  device : ∀ x, tr.device.count (.released x .device) =
    if deleted tr.commands then tr.device.count (.acquired x .device) else 0

/-- The result, from what is left at the end. -/
theorem releasedOnce_of {rest : Held} (h : k.Has rest tr) (hrest : ∀ e ∈ rest, e.2 = .device)
    (hset : Settled tr) : ReleasedOnce k := by
  have hcmds : k.commands = tr.commands := congrArg Trace.commands h.trace
  have hlog : k.book.log.filter aboutDevice = tr.device := congrArg Trace.device h.trace
  have hs := h.owns.sound
  refine ⟨hs.once, ?_, hs.legit, hs.noStray, hcmds ▸ hset.deletions, ?_⟩
  · intro x r hr
    exact h.owns.settled fun hmem => hr (hrest _ hmem)
  · intro x
    have hx := hset.device x
    rwa [← hlog, List.count_filter rfl, List.count_filter rfl, ← hcmds] at hx

/-- A device that was never added is not deleted. -/
theorem Record.settled_of_neg (h : d.Record tr) (hid : d.id < 0) : Settled tr := by
  rcases h.device with ⟨-, hadded, hdevice⟩ | ⟨hpos, -, -⟩
  · refine ⟨?_, fun x => ?_⟩
    · rw [hadded]
      exact h.undeleted
    · rw [hdevice, deleted_of_deletions _ h.undeleted]
      rfl
  · exact absurd hpos (Int.not_le.mpr hid)

/-- One that was added is deleted by one command, which fails without effect or succeeds. -/
theorem Record.settled_of_pos (h : d.Record tr) (hid : 0 ≤ d.id) {op : UInt32}
    (hdel : isDelDev op = true) :
    Settled ⟨tr.commands ++ [(op, false)], tr.device⟩ ∧
      Settled ⟨tr.commands ++ [(op, true)], tr.device ++ [.released d.id.toNat .device]⟩ := by
  rcases h.device with ⟨hneg, -, -⟩ | ⟨-, hadded, hdevice⟩
  · exact absurd hneg (Int.not_lt.mpr hid)
  have hcount : ∀ ok, deletions (tr.commands ++ [(op, ok)]) =
      if added (tr.commands ++ [(op, ok)]) then 1 else 0 := by
    intro ok
    rw [added_concat, hadded, deletions_concat, h.undeleted, hdel]
    rfl
  refine ⟨⟨hcount false, fun x => ?_⟩, ⟨hcount true, fun x => ?_⟩⟩
  · rw [deleted_concat, deleted_of_deletions _ h.undeleted, Bool.and_false, hdevice]
    simp
  · rw [deleted_concat, hdel, Bool.true_and, Bool.or_true, if_pos rfl, hdevice]
    by_cases hx : d.id.toNat = x
    · subst hx
      simp
    · simp [hx]

/-- The deletion in `shutdown` gives up the device, unless the command fails. -/
theorem delIfAdded_spec {held : Held} (h : k.Has (ownedFD d.id .device + held) tr)
    (hrec : d.Record tr) :
    ∃ rest tr', (d.delIfAdded k).2.Has (held + rest) tr' ∧ (∀ e ∈ rest, e.2 = .device) ∧
      Settled tr' := by
  by_cases hid : 0 ≤ d.id
  · have hop : isDelDev (d.ctrlOp uCmdDelDev cmdDelDev) = true ∧
        isAddDev (d.ctrlOp uCmdDelDev cmdDelDev) = false := by
      rcases d.ctrlOp_eq uCmdDelDev cmdDelDev with he | he <;> rw [he] <;> decide
    obtain ⟨hfail, hdone⟩ := hrec.settled_of_pos hid hop.1
    rw [ownedFD, if_pos hid] at h
    rcases delCommand_spec hop.1 hop.2 h with ⟨err, k', he, hk'⟩ | ⟨n, k', he, hk'⟩ <;>
      simp only [delIfAdded, if_pos hid, delDev, he]
    · -- `DEL_DEV` failed: the kernel's device stays
      refine ⟨{(d.id.toNat, .device)}, _, hk'.congr (Multiset.add_comm _ _), ?_, hfail⟩
      intro e hmem
      rw [Multiset.mem_singleton.mp hmem]
    · exact ⟨0, _, hk'.congr (Multiset.add_zero _).symm, fun _ he => absurd he
        (Multiset.notMem_zero _), hdone⟩
  · have hdel : d.delIfAdded k = (none, k) := if_neg hid
    rw [ownedFD, if_neg hid, Multiset.zero_add] at h
    rw [hdel]
    exact ⟨0, tr, h.congr (Multiset.add_zero _).symm, fun _ he => absurd he
      (Multiset.notMem_zero _), hrec.settled_of_neg (Int.not_le.mp hid)⟩

/-- **`shutdown` releases everything the device holds.** -/
theorem shutdown_spec (h : k.Has d.held tr) (hrec : d.Record tr) :
    ReleasedOnce (d.shutdown k).2.2 := by
  simp only [Device.held, Multiset.add_assoc] at h
  have h1 := cleanupAll_spec _ (wait_spec _ h)
  have h2 := h1.closeFD (r := .charFD) nofun
  have hstop : isAddDev (d.ctrlOp uCmdStopDev cmdStopDev) = false ∧
      isDelDev (d.ctrlOp uCmdStopDev cmdStopDev) = false := by
    rcases d.ctrlOp_eq uCmdStopDev cmdStopDev with he | he <;> rw [he] <;> decide
  obtain ⟨ok, h3⟩ := ctrlCommand_spec hstop.1 hstop.2 d.id h2
  obtain ⟨rest, tr', h4, hrest, hset⟩ := delIfAdded_spec h3 (hrec.command hstop.1 hstop.2 ok)
  rw [Multiset.add_assoc] at h4
  exact releasedOnce_of ((closeRing_spec _ h4).closeFD nofun) hrest hset

/-! ### Construction -/

/-- The device owns what is live, and its `id` is right. -/
def Alive (d : Device) (k : Kernel) : Prop := ∃ tr, k.Has d.held tr ∧ d.Record tr

theorem Alive.releasedOnce (h : d.Alive k) : ReleasedOnce (d.shutdown k).2.2 := by
  obtain ⟨tr, hhas, hrec⟩ := h
  exact shutdown_spec hhas hrec

/-- After `ADD_DEV` succeeded, the device has a number. -/
theorem Record.added {cmds : List (UInt32 × Bool)} (h : deletions cmds = 0) {op : UInt32}
    (hadd : isAddDev op = true) (hdel : isDelDev op = false) {d' : Device} {n : Nat}
    (hid : d'.id = n) :
    d'.Record ⟨cmds ++ [(op, true)], [] ++ [.acquired n .device]⟩ := by
  refine ⟨?_, .inr ⟨?_, ?_, ?_⟩⟩
  · rw [deletions_concat, h, hdel]
    rfl
  · rw [hid]
    exact Int.natCast_nonneg n
  · rw [added_concat, hadd]
    exact Bool.or_true _
  · rw [hid]
    rfl

/-- `SET_PARAMS` and `START_DEV` hold nothing. -/
theorem Alive.command (h : d.Alive k) {op : UInt32} (hadd : isAddDev op = false)
    (hdel : isDelDev op = false) : d.Alive (ctrlCommand k op d.id).2 := by
  obtain ⟨tr, hhas, hrec⟩ := h
  obtain ⟨ok, h1⟩ := ctrlCommand_spec hadd hdel d.id hhas
  exact ⟨_, h1, hrec.command hadd hdel ok⟩

/-- What `New` leaves: everything released after an error, a device that owns everything
otherwise. -/
def Built : Except Fault Device × Kernel → Prop
  | (.error _, k) => ReleasedOnce k
  | (.ok d, k) => d.Alive k ∧ d.closed = false

theorem Alive.setParams (h : d.Alive k) : d.Alive (d.setParams k).2 := by
  refine h.command ?_ ?_ <;>
    rcases d.ctrlOp_eq uCmdSetParams cmdSetParams with he | he <;> rw [he] <;> decide

theorem Alive.startDev (h : d.Alive k) : d.Alive (d.startDev k).2 := by
  refine h.command ?_ ?_ <;>
    rcases d.ctrlOp_eq uCmdStartDev cmdStartDev with he | he <;> rw [he] <;> decide

/-- The device is in use, or closed with everything released. -/
def Kept : Device × Kernel → Prop
  | (d, k) => (d.closed = false ∧ d.Alive k) ∨
      (d.closed = true ∧ d.running = [] ∧ ReleasedOnce k)

theorem close_spec (h : Kept (d, k)) :
    Kept (d.close k).2 ∧ (d.close k).2.1.closed = true := by
  rcases h with ⟨hopen, ha⟩ | ⟨hclosed, hr, hk⟩
  · have hclose : d.close k = ((d.shutdown k).1,
        { (d.shutdown k).2.1 with closed := true }, (d.shutdown k).2.2) := by
      simp only [Device.close, hopen]
      rfl
    rw [hclose]
    exact ⟨.inr ⟨rfl, rfl, ha.releasedOnce⟩, rfl⟩
  · have hclose : d.close k = (none, d, k) := if_pos hclosed
    rw [hclose]
    exact ⟨.inr ⟨hclosed, hr, hk⟩, hclosed⟩

end Device

/-! ## Whole lifetimes -/

end Ublk
