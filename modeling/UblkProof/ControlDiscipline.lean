import UblkProof.DeviceLifecycle

/-! # The order of control commands

A device is added by an ioctl-encoded `ADD_DEV`, or by a legacy one if the first fails; every
later command should use the encoding and the number of the `ADD_DEV` that succeeded, and the
later commands should come in one order, each at most once (`Disciplined`).

`Device.Ordered` is kept while `New` goes on: the device's fields say how it was added, and the
commands since are among the first `stage` later ones.  Each command moves one stage on, and
nothing else issues commands.

There is one exception.  `shutdown` asks `d.id >= 0` before `DEL_DEV` but not before `STOP_DEV`:
if both `ADD_DEV` fail, `STOP_DEV` goes out for the device `^uint32(0)`.
-/
namespace Ublk

/-! ## The discipline -/

/-- `^uint32(0)`, the `DevID` in `ADD_DEV`. -/
def anyDevice : UInt32 := 0xffffffff

/-- The commands that add device `n`; the last one succeeded. -/
inductive AddedBy : Bool → Nat → List Issued → Prop
  | ioctl (n : Nat) : AddedBy true n [⟨uCmdAddDev, anyDevice, some n⟩]
  | legacy (n : Nat) :
      AddedBy false n [⟨uCmdAddDev, anyDevice, none⟩, ⟨cmdAddDev, anyDevice, some n⟩]

/-- What may follow, in this order. -/
def laterCommands (useIoctl : Bool) : List UInt32 :=
  if useIoctl then [uCmdSetParams, uCmdStartDev, uCmdStopDev, uCmdDelDev]
  else [cmdSetParams, cmdStartDev, cmdStopDev, cmdDelDev]

/-- **A disciplined trace**: no command, two failed `ADD_DEV` and nothing more, or a device
that is added and then only named in later commands, in order and each at most once. -/
inductive Disciplined : List Issued → Prop
  | silent : Disciplined []
  | refused : Disciplined [⟨uCmdAddDev, anyDevice, none⟩, ⟨cmdAddDev, anyDevice, none⟩]
  | added {useIoctl : Bool} {n : Nat} {adds later : List Issued} (hadd : AddedBy useIoctl n adds)
      (hops : (later.map Issued.op).Sublist (laterCommands useIoctl))
      (honce : (later.map Issued.op).Nodup)
      (hids : ∀ c ∈ later, c.devID = .ofNat n) : Disciplined (adds ++ later)

theorem laterCommands_nodup (useIoctl : Bool) : (laterCommands useIoctl).Nodup := by
  cases useIoctl <;> decide

/-! ## Calls that are not commands -/

namespace Kernel
variable {k k' k'' : Kernel} {m n : Nat}

/-- `n` calls succeeded, none of them a control command. -/
structure Passed (k : Kernel) (n : Nat) (k' : Kernel) : Prop where
  plan : k'.plan = k.plan
  clock : k'.clock = k.clock + n
  issued : k'.issued = k.issued
  succeeded : ∀ i < n, k.plan (k.clock + i) = none

/-- One of the next `n` calls failed, and no control command was issued. -/
structure Failed (k : Kernel) (n : Nat) (k' : Kernel) : Prop where
  issued : k'.issued = k.issued
  failed : ∃ i < n, k.plan (k.clock + i) ≠ none

theorem Passed.trans (h : k.Passed m k') (h' : k'.Passed n k'') : k.Passed (m + n) k'' := by
  refine ⟨h'.plan.trans h.plan, ?_, h'.issued.trans h.issued, fun i hi => ?_⟩
  · rw [h'.clock, h.clock, Nat.add_assoc]
  · by_cases him : i < m
    · exact h.succeeded i him
    · have hn := h'.succeeded (i - m) (by omega)
      rwa [h.plan, h.clock, Nat.add_assoc, Nat.add_sub_cancel' (Nat.le_of_not_lt him)] at hn

theorem Passed.failed (h : k.Passed m k') (h' : k'.Failed n k'') : k.Failed (m + n) k'' := by
  obtain ⟨i, hi, hne⟩ := h'.failed
  rw [h.plan, h.clock, Nat.add_assoc] at hne
  exact ⟨h'.issued.trans h.issued, m + i, by omega, hne⟩

theorem outcome_calls (k : Kernel) :
    (∃ e k', k.outcome = (some e, k') ∧ k.Failed 1 k') ∨
      ∃ k', k.outcome = (none, k') ∧ k.Passed 1 k' := by
  rcases hp : k.plan k.clock with _ | e
  · refine .inr ⟨k.outcome.2, Prod.ext hp rfl, rfl, rfl, rfl, fun i hi => ?_⟩
    rwa [Nat.lt_one_iff.mp hi]
  · refine .inl ⟨e, k.outcome.2, Prod.ext hp rfl, rfl, 0, Nat.one_pos, ?_⟩
    rw [Nat.add_zero, hp]
    nofun

theorem acquire_calls (k : Kernel) (r : Resource) :
    (∃ e k', k.acquire r = (.error e, k') ∧ k.Failed 1 k') ∨
      ∃ h k', k.acquire r = (.ok h, k') ∧ k.Passed 1 k' := by
  rcases k.outcome_calls with ⟨e, k', he, hk⟩ | ⟨k', he, hk⟩
  · exact .inl ⟨e, k', by rw [acquire, he], hk⟩
  · refine .inr ⟨(k'.book.acquire r).1, { k' with book := (k'.book.acquire r).2 }, ?_, hk.plan,
      hk.clock, hk.issued, hk.succeeded⟩
    rw [acquire, he]

theorem issued_acquire (k : Kernel) (r : Resource) : (k.acquire r).2.issued = k.issued := by
  rcases k.acquire_calls r with ⟨e, k', he, hk⟩ | ⟨h, k', he, hk⟩ <;> rw [he] <;> exact hk.issued

theorem issued_closeFD (k : Kernel) (fd : Int) : (k.closeFD fd).issued = k.issued := by
  unfold closeFD
  split_ifs <;> rfl

theorem issued_munmap (k : Kernel) (m : Option Nat) : (k.munmap m).issued = k.issued := by
  cases m <;> rfl

end Kernel

namespace RingHandles

theorem issued_close (r : RingHandles) (k : Kernel) : (r.close k).2.issued = k.issued := by
  simp only [close, Kernel.issued_closeFD, Kernel.issued_munmap]

end RingHandles

namespace WorkerHandles

theorem issued_cleanup (w : WorkerHandles) (k : Kernel) :
    (w.cleanup k).2.issued = k.issued := by
  unfold cleanup
  cases w.ioRing with
  | some r => exact (RingHandles.issued_close r _).trans (Kernel.issued_munmap k _)
  | none => exact Kernel.issued_munmap k _

end WorkerHandles

namespace Device
variable {d : Device} {k : Kernel}

theorem issued_wait (k : Kernel) (running : List Nat) : (wait k running).issued = k.issued := by
  induction running generalizing k with
  | nil => rfl
  | cons h running ih => exact ih (k.release h)

theorem issued_cleanupAll (k : Kernel) (ws : List WorkerHandles) :
    (cleanupAll k ws).2.issued = k.issued := by
  induction ws generalizing k with
  | nil => rfl
  | cons w ws ih => exact (ih _).trans (w.issued_cleanup k)

theorem issued_closeRing (k : Kernel) (r : Option RingHandles) :
    (closeRing k r).issued = k.issued := by
  cases r with
  | some r => exact r.issued_close k
  | none => rfl

/-- `openCharDev` tries several times; it does not change how the device is named. -/
theorem tryOpen_keeps (d : Device) (path : String) (k : Kernel) (n : Nat) (last : Errno) :
    (d.tryOpen path k n last).2.2.issued = k.issued ∧
      (d.tryOpen path k n last).2.1.id = d.id ∧
      (d.tryOpen path k n last).2.1.useIoctl = d.useIoctl ∧
      (d.tryOpen path k n last).2.1.closed = d.closed := by
  induction n generalizing k last with
  | zero => exact ⟨rfl, rfl, rfl, rfl⟩
  | succ n ih =>
    have h1 := k.issued_acquire .charFD
    rcases ha : k.acquire .charFD with ⟨e | fd, k1⟩ <;> rw [ha] at h1 <;>
      simp only [tryOpen, ha]
    · split_ifs
      · obtain ⟨h2, hrest⟩ := ih k1 e
        exact ⟨h2.trans h1, hrest⟩
      · exact ⟨h1, rfl, rfl, rfl⟩
    · exact ⟨h1, trivial, trivial, trivial⟩

/-! ## Commands -/

theorem ofInt_natCast (n : Nat) : UInt32.ofInt n = .ofNat n := by
  have hmod : (n : Int) % 2 ^ 32 = ((n % 2 ^ 32 : Nat) : Int) := by omega
  rw [UInt32.ofInt, hmod, Int.toNat_natCast]
  exact UInt32.ofNat_mod_size

theorem ctrlCommand_issued (k : Kernel) (op : UInt32) (id : Int) :
    ∃ reply, (ctrlCommand k op id).2.issued = k.issued ++ [⟨op, .ofInt id, reply⟩] := by
  unfold ctrlCommand Kernel.control Kernel.outcome
  cases k.plan k.clock with
  | some e => exact ⟨none, rfl⟩
  | none =>
    dsimp only
    split_ifs
    · exact ⟨_, rfl⟩
    · exact ⟨_, rfl⟩
    · exact ⟨_, rfl⟩
    · exact ⟨_, rfl⟩

/-- The device's fields say how it was added, and the commands since then are among the first
`stage` that may follow. -/
def Ordered (d : Device) (stage : Nat) (k : Kernel) : Prop :=
  ∃ n adds later, AddedBy d.useIoctl n adds ∧ d.id = n ∧ k.issued = adds ++ later ∧
    (later.map Issued.op).Sublist ((laterCommands d.useIoctl).take stage) ∧
    ∀ c ∈ later, c.devID = .ofNat n

namespace Ordered
variable {stage : Nat}

theorem id_nonneg (h : d.Ordered stage k) : d.id ≥ 0 := by
  obtain ⟨n, -, -, -, hid, -⟩ := h
  rw [hid]
  exact Int.natCast_nonneg n

theorem disciplined (h : d.Ordered stage k) : Disciplined k.issued := by
  obtain ⟨n, adds, later, hadd, -, hk, hops, hids⟩ := h
  rw [hk]
  have hlater := hops.trans (List.take_sublist _ _)
  exact .added hadd hlater (hlater.nodup (laterCommands_nodup _)) hids

/-- What issues no command and keeps the device's name. -/
theorem frame {d' : Device} {k' : Kernel} (h : d.Ordered stage k) (hk : k'.issued = k.issued)
    (hid : d'.id = d.id) (hio : d'.useIoctl = d.useIoctl) : d'.Ordered stage k' := by
  obtain ⟨n, adds, later, hadd, hn, hi, hops, hids⟩ := h
  exact ⟨n, adds, later, by rwa [hio], hid.trans hn, hk.trans hi, by rwa [hio], hids⟩

/-- A stage may be left out. -/
theorem skip {stage' : Nat} (h : d.Ordered stage k) (hle : stage ≤ stage') :
    d.Ordered stage' k := by
  obtain ⟨n, adds, later, hadd, hn, hi, hops, hids⟩ := h
  exact ⟨n, adds, later, hadd, hn, hi, hops.trans ((List.take_prefix_take_left hle).sublist), hids⟩

/-- The next command. -/
theorem command (h : d.Ordered stage k) {op : UInt32}
    (hop : (laterCommands d.useIoctl).take (stage + 1) =
      (laterCommands d.useIoctl).take stage ++ [op]) :
    d.Ordered (stage + 1) (ctrlCommand k op d.id).2 := by
  obtain ⟨n, adds, later, hadd, hn, hi, hops, hids⟩ := h
  obtain ⟨reply, hr⟩ := ctrlCommand_issued k op d.id
  refine ⟨n, adds, later ++ [⟨op, .ofInt d.id, reply⟩], hadd, hn, ?_, ?_, ?_⟩
  · rw [hr, hi, List.append_assoc]
  · rw [List.map_append, hop]
    exact hops.append (List.Sublist.refl _)
  · intro c hc
    rcases List.mem_append.mp hc with hc | hc
    · exact hids c hc
    · rw [List.mem_singleton.mp hc, hn]
      exact ofInt_natCast n

theorem setParams (h : d.Ordered 0 k) : d.Ordered 1 (d.setParams k).2 := by
  refine h.command ?_
  unfold ctrlOp
  cases d.useIoctl <;> rfl

theorem startDev (h : d.Ordered 1 k) : d.Ordered 2 (d.startDev k).2 := by
  refine h.command ?_
  unfold ctrlOp
  cases d.useIoctl <;> rfl

theorem stopDev (h : d.Ordered 2 k) : d.Ordered 3 (d.stopDev k).2 := by
  refine h.command ?_
  unfold ctrlOp
  cases d.useIoctl <;> rfl

theorem delIfAdded (h : d.Ordered 3 k) : d.Ordered 4 (d.delIfAdded k).2 := by
  have hdel : d.Ordered 4 (d.delDev k).2 := by
    refine h.command ?_
    unfold ctrlOp
    cases d.useIoctl <;> rfl
  rw [Device.delIfAdded, if_pos h.id_nonneg]
  rcases he : d.delDev k with ⟨err | _, k'⟩ <;> rwa [he] at hdel

end Ordered

/-- The commands of `shutdown`: `STOP_DEV` in any case. -/
theorem shutdown_issued (d : Device) (k : Kernel) :
    ∃ k', k'.issued = k.issued ∧
      (d.shutdown k).2.2.issued = (d.delIfAdded (d.stopDev k').2).2.issued := by
  refine ⟨(cleanupAll (wait k d.running) d.workers).2.closeFD d.charFD, ?_, ?_⟩
  · rw [Kernel.issued_closeFD, issued_cleanupAll, issued_wait]
  · simp only [Device.shutdown, Kernel.issued_closeFD, issued_closeRing]

/-- A device that was added is stopped and deleted. -/
theorem Ordered.shutdown {stage : Nat} (h : d.Ordered stage k) (hle : stage ≤ 2) :
    Disciplined (d.shutdown k).2.2.issued := by
  obtain ⟨k', hk', hs⟩ := d.shutdown_issued k
  rw [hs]
  exact (((h.skip hle).frame hk' rfl rfl).stopDev).delIfAdded.disciplined

end Device

/-! ## Whole lifetimes -/

namespace Device

/-- A device in use is ordered, and a closed one has issued its last command. -/
def Quiet : Device × Kernel → Prop
  | (d, k) => (d.closed = false ∧ d.Ordered 2 k) ∨ (d.closed = true ∧ Disciplined k.issued)

end Device

end Ublk
