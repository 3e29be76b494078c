import UblkProof.ControlMatching
import UblkProof.DeviceLifecycle

/-! # Building a device over the control ring

`DeviceLifecycle` lets a control command end with its completion.  It can also end before: if
`io_uring_enter` fails its entry stays published, and if the wait fails its completion stays
unread.  A later command then makes the kernel execute the entry left behind, or takes the
completion left behind for its own.

Here is `New` with `ctrlCommand` as it is.  Of the ring the model keeps what decides this: which
commands were sent, how many entries the kernel has taken and which completions nobody has read.
`submit_reads` ties that to the ring of `ControlMatching`, and `ctrlCommand_answered` to
`Device.ctrlCommand`.
-/
namespace Ublk
open Ublk.Ring (EnterReply)

/-- The kernel behind the control ring.  `sent` are the commands for which an entry was filled in,
by code and device number; `taken` counts the entries the kernel has read. -/
structure CtrlLine where
  kernel : Kernel
  sent : List (UInt32 × Int)
  taken : Nat
  unread : List (Except Errno Nat)

namespace CtrlLine

/-- A new ring. -/
def fresh (k : Kernel) : CtrlLine := ⟨k, [], 0, []⟩

/-! ## Control commands -/

/-- Which of `sent` commands the kernel reads next.  The four slots are used in turn, and the one
at the kernel's head holds the last command written to it. -/
def atHead (sent taken : Nat) : Nat := sent - 1 - (sent - 1 - taken) % 4

/-- `WaitCQE`.  It waits only if there is nothing to read.  An interrupted `epoll_wait` is made
again, and the outcome that counts is the last one's; `none` is also that of a completion which
came before the wait. -/
def waitCQE (l : CtrlLine) : Option Errno × CtrlLine :=
  if l.unread.isEmpty then
    (l.kernel.outcome.1.filter (· ≠ eintr), { l with kernel := l.kernel.outcome.2 })
  else (none, l)

/-- The first of a queue after `a` has joined it, and the others. -/
def oldest {α : Type} : List α → α → α × List α
  | [], a => (a, [])
  | b :: rest, a => (b, rest ++ [a])

/-- Once an entry is filled in `io_uring_enter` makes the kernel read one and execute it; the
driver's answer comes with the completion.  `GetSQE128` looks at private counters that show nothing
waiting, and always finds a slot. -/
def ctrlCommand (l : CtrlLine) (cmdOp : UInt32) (devID : Int) : Except Fault Nat × CtrlLine :=
  let l := { l with sent := l.sent ++ [(cmdOp, devID)] }
  match l.kernel.outcome with
  | (some e, k) =>
      (.error (.wrap (UringError.enterSubmit e).text (.errno e)), { l with kernel := k })
  | (none, k) =>
  let (op, id) := l.sent.getD (atHead l.sent.length l.taken) (cmdOp, devID)
  match waitCQE { l with kernel := k, taken := l.taken + 1 } with
  | (some e, l) =>
      let (res, k) := l.kernel.control op id
      (.error (.wrap (UringError.epollWait e).text (.errno e)),
        { l with kernel := k, unread := l.unread ++ [res] })
  | (none, l) =>
      let (res, k) := l.kernel.control op id
      -- not always its own
      let (res, unread) := oldest l.unread res
      (res.mapError fun e => .wrap (ctrlCmdText cmdOp) (.errno e),
        { l with kernel := k, unread := unread })

/-! ## The device -/

/-- Both encodings of `ADD_DEV`, the second if the first fails. -/
def addDev (d : Device) (l : CtrlLine) : Option Fault × Device × CtrlLine :=
  match l.ctrlCommand uCmdAddDev (-1) with
  | (.ok id, l) => (none, { d with useIoctl := true, id := id }, l)
  | (.error err, l) =>
  match l.ctrlCommand cmdAddDev (-1) with
  | (.ok id, l) => (none, { d with useIoctl := false, id := id }, l)
  | (.error err2, l) => (some (.addDev err err2), d, l)

/-- `SET_PARAMS` in the form in which the device was added; the parameters are the subject of
`DeviceConfig`. -/
def setParams (d : Device) (l : CtrlLine) : Except Fault Nat × CtrlLine :=
  l.ctrlCommand (d.ctrlOp uCmdSetParams cmdSetParams) d.id

/-- `START_DEV`. -/
def startDev (d : Device) (l : CtrlLine) : Except Fault Nat × CtrlLine :=
  l.ctrlCommand (d.ctrlOp uCmdStartDev cmdStartDev) d.id

/-- `STOP_DEV`, also for a device that was not added. -/
def stopDev (d : Device) (l : CtrlLine) : Except Fault Nat × CtrlLine :=
  l.ctrlCommand (d.ctrlOp uCmdStopDev cmdStopDev) d.id

/-- `DEL_DEV`. -/
def delDev (d : Device) (l : CtrlLine) : Except Fault Nat × CtrlLine :=
  l.ctrlCommand (d.ctrlOp uCmdDelDev cmdDelDev) d.id

/-- `shutdown`, as `New` calls it: what it returns is dropped, and so is the device. -/
def shutdown (d : Device) (l : CtrlLine) : Kernel :=
  let k := (Device.cleanupAll (Device.wait l.kernel d.running) d.workers).2.closeFD d.charFD
  let (_, l) := stopDev d { l with kernel := k }
  let l := if d.id ≥ 0 then (delDev d l).2 else l
  (Device.closeRing l.kernel d.ctrlRing).closeFD d.ctrlFD

end CtrlLine

/-- `New`. -/
def newOverRing (nilBackend : Bool) (cfg : Config) (size : UInt64) (k : Kernel) :
    Except Fault Device × Kernel :=
  if nilBackend then (.error (.text "backend must not be nil"), k) else
  match cfg.validate size with
  | .error e => (.error (.text e.text), k)
  | .ok () =>
  match openDevice k with
  | (.error err, k) => (.error err, k)
  | (.ok d, k) =>
  match CtrlLine.addDev d (.fresh k) with
  | (some err, d, l) => (.error (.wrap "add device" err), l.shutdown d)
  | (none, d, l) =>
  match d.openCharDev l.kernel with
  | (some err, d, k) => (.error (.wrap "open char device" err), { l with kernel := k }.shutdown d)
  | (none, d, k) =>
  match CtrlLine.setParams d { l with kernel := k } with
  | (.error err, l) => (.error (.wrap "set params" err), l.shutdown d)
  | (.ok _, l) =>
  match WorkerHandles.init ⟨none, none⟩ l.kernel with
  | (some err, _, k) => (.error (.wrap "init queue" err), { l with kernel := k }.shutdown d)
  | (none, w, k) =>
  -- `go w.run(ready)`
  let d := { d with workers := [w], running := [(k.book.acquire .goroutine).1] }
  let k := { k with book := (k.book.acquire .goroutine).2 }
  -- `SubmitAndWait` in `run`, and what `ready` yields
  match k.outcome with
  | (some e, k) =>
      (.error (.wrap "submit FETCH" (.wrap (UringError.enterSubmitWait e).text (.errno e))),
        { l with kernel := k }.shutdown d)
  | (none, k) =>
  match CtrlLine.startDev d { l with kernel := k } with
  | (.error err, l) => (.error (.wrap "start device" err), l.shutdown d)
  | (.ok _, l) => (.ok d, l.kernel)

namespace CtrlLine
variable {l : CtrlLine}

/-! ## The ring -/

/-- The ring on which `l.sent` were sent; `entry c` is what the stores leave for a command. -/
def OnRing (l : CtrlLine) (entry : UInt32 × Int → SQE128) (base : Nat) (r : Ring 80) : Prop :=
  Trail r 2 base (l.sent.map entry) (l.sent.map entry).length l.taken

/-- **What `Submit` makes the kernel read.**  `GetSQE128` finds a slot; a failed `io_uring_enter`
reads nothing, and one that succeeds reads the entry of `atHead`. -/
theorem submit_reads {entry : UInt32 × Int → SQE128} {base : Nat} {r : Ring 80}
    (h : l.OnRing entry base r) (c : UInt32 × Int) :
    ∃ idx, r.getSQE.1 = some idx ∧
      let r1 := r.getSQE.2.writeSQE idx (entry c)
      let sent := l.sent ++ [c]
      (∀ e, (r1.submit (.errno e)).read = [] ∧
          { l with sent := sent }.OnRing entry base (r1.submit (.errno e)).ring) ∧
        (r1.submit (.consumed 1)).read = [entry (sent.getD (atHead sent.length l.taken) c)] ∧
        { l with sent := sent, taken := l.taken + 1 }.OnRing entry base
          (r1.submit (.consumed 1)).ring := by
  refine ⟨_, congrArg Prod.fst h.getSQE, ?_⟩
  intro r1 sent
  have hmap : sent.map entry = l.sent.map entry ++ [entry c] := List.map_append
  have hlen : sent.length = l.sent.length + 1 := List.length_append
  have hprep := h.prepare (entry c)
  rw [← hmap] at hprep
  obtain ⟨hcount, hflush⟩ := hprep.flushSQ (by rw [List.length_map, List.length_map, hlen])
  have hsubmit : ∀ reply, r1.submit reply = r1.flushSQ.2.enter 1 .enterSubmit reply := by
    intro reply
    have hone : r1.flushSQ.1 = 1 := hcount
    simp only [Ring.submit, hone]
    rfl
  have hle : l.taken ≤ l.sent.length := (List.length_map entry ▸ h.consumed_le :)
  have hhead : atHead sent.length l.taken < sent.length := by
    rw [atHead, hlen]
    omega
  obtain ⟨hread, hnext⟩ := hflush.consumeOne (m := atHead sent.length l.taken)
    (by rw [List.length_map, hlen]; omega) (by rwa [List.length_map])
    (by rw [List.length_map]; rfl)
  refine ⟨fun e => ?_, ?_, ?_⟩
  · rw [hsubmit]
    exact ⟨rfl, hflush⟩
  · rw [hsubmit]
    show [r1.flushSQ.2.consumeOne.1] = _
    rw [hread, List.getElem_map, List.getD_eq_getElem?_getD, List.getElem?_eq_getElem hhead]
    rfl
  · rw [hsubmit]
    exact hnext

/-! ## A command that is answered -/

/-- Nothing is left of earlier commands. -/
structure Clean (l : CtrlLine) : Prop where
  taken : l.taken = l.sent.length
  unread : l.unread = []

theorem fresh_clean (k : Kernel) : (fresh k).Clean := ⟨rfl, rfl⟩

/-- The kernel reads the entry just filled in. -/
theorem Clean.atHead (h : l.Clean) (c : UInt32 × Int) :
    (l.sent ++ [c]).getD (atHead (l.sent ++ [c]).length l.taken) c = c := by
  have hidx : CtrlLine.atHead (l.sent ++ [c]).length l.taken = l.sent.length := by
    rw [CtrlLine.atHead, h.taken, List.length_append]
    simp
  rw [hidx, List.getD_eq_getElem?_getD, List.getElem?_concat_length]
  rfl

/-- **With both system calls made, the command ends as its completion says.** -/
theorem ctrlCommand_answered (h : l.Clean) {k1 k2 : Kernel} {waited : Option Errno}
    (henter : l.kernel.outcome = (none, k1)) (hwait : k1.outcome = (waited, k2))
    (hok : waited.filter (· ≠ eintr) = none) (op : UInt32) (id : Int) :
    ∃ l', l.ctrlCommand op id = ((Device.ctrlCommand k2 op id).1, l') ∧ l'.Clean ∧
      l'.kernel = (Device.ctrlCommand k2 op id).2 := by
  have htaken : l.taken + 1 = (l.sent ++ [(op, id)]).length := by
    rw [h.taken, List.length_append]
    rfl
  simp only [ctrlCommand, henter, h.atHead, waitCQE, h.unread, List.isEmpty_nil, if_true, hwait,
    hok, Device.ctrlCommand]
  rcases k2.control op id with ⟨e | n, k⟩
  · exact ⟨_, rfl, ⟨htaken, rfl⟩, rfl⟩
  · exact ⟨_, rfl, ⟨htaken, rfl⟩, rfl⟩

end CtrlLine
end Ublk
