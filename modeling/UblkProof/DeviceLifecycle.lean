import UblkProof.ControlCommand
import UblkProof.DeviceConfig
import UblkProof.Ledger

/-! # Building and taking down a device

`New` acquires resources in eleven places and can fail in twice as many; three layers of code
release them again: `Ring.Close`, `worker.cleanup` and `Device.shutdown`.  Here is that code
with the kernel's answers as data: `plan` says how each system call and each control command
ends, in the order they are made.

The structs keep what the Go structs keep: a file descriptor or device number that is `-1` if
there is none, a mapping that may be `nil`.  All numbers come from one ledger.  `close` and
`munmap` succeed on what is owned, and a control command either takes effect and succeeds or
fails without effect.  What does not hold resources (parameters, buffers, queue contents) is
the subject of the other modules and left out here.
-/
namespace Ublk
open Ledger

/-! ## The kernel -/

/-- The device has a control ring and the worker a ring of its own. -/
inductive RingOwner
  | control
  | worker
  deriving DecidableEq

/-- The descriptors and mappings of a `uring.Ring`. -/
inductive RingPart
  | fd
  | cancelFD
  | epollFD
  | mmapSQ
  | mmapCQ
  | mmapSQEs
  deriving DecidableEq

/-- What the code acquires and has to give back. -/
inductive Resource
  | ctrlFD
  | ring (owner : RingOwner) (part : RingPart)
  | device
  | charFD
  | ioDescs
  | goroutine
  deriving DecidableEq

/-- An error with the texts it is wrapped in. -/
inductive Fault
  | text (s : String)
  | errno (e : Errno)
  | wrap (s : String) (inner : Fault)
  | addDev (ioctl legacy : Fault)
  deriving DecidableEq

/-- What `Error` returns; `errnoText` is the text of an errno. -/
def Fault.message (errnoText : Errno → String) : Fault → String
  | .text s => s
  | .errno e => errnoText e
  | .wrap s inner => s ++ ": " ++ inner.message errnoText
  | .addDev ioctl legacy =>
      "ADD_DEV failed: ioctl-encoded: " ++ ioctl.message errnoText ++
        "; legacy: " ++ legacy.message errnoText

/-- A control command: its code, the `DevID` it carries, and what it returned if it took
effect (for `ADD_DEV` the number of the device). -/
structure Issued where
  op : UInt32
  devID : UInt32
  reply : Option Nat
  deriving DecidableEq

/-- `plan n` is the outcome of the `n`-th fallible call.  `issued` are the control commands
so far. -/
structure Kernel where
  plan : Nat → Option Errno
  clock : Nat
  book : Book Resource
  issued : List Issued

/-- `unix.ENOENT` and `unix.ENODEV`. -/
def enoent : Errno := 2
def enodev : Errno := 19

/-- Is it `ADD_DEV`, in either form? -/
def isAddDev (op : UInt32) : Bool := op = uCmdAddDev ∨ op = cmdAddDev

/-- Is it `DEL_DEV`, in either form? -/
def isDelDev (op : UInt32) : Bool := op = uCmdDelDev ∨ op = cmdDelDev

namespace Kernel

/-- Nothing is acquired and no call is made. -/
def start (plan : Nat → Option Errno) : Kernel := ⟨plan, 0, .empty, []⟩

/-- The codes of the commands so far, and whether each took effect. -/
def commands (k : Kernel) : List (UInt32 × Bool) := k.issued.map fun c => (c.op, c.reply.isSome)

/-- The outcome of the next fallible call. -/
def outcome (k : Kernel) : Option Errno × Kernel :=
  (k.plan k.clock, { k with clock := k.clock + 1 })

/-- A call that yields a descriptor or a mapping. -/
def acquire (k : Kernel) (r : Resource) : Except Errno Nat × Kernel :=
  match k.outcome with
  | (some e, k) => (.error e, k)
  | (none, k) => (.ok (k.book.acquire r).1, { k with book := (k.book.acquire r).2 })

/-- `close` or `munmap` of what has handle `h`. -/
def release (k : Kernel) (h : Nat) : Kernel := { k with book := k.book.release h }

/-- `if fd >= 0 { close(fd); fd = -1 }`. -/
def closeFD (k : Kernel) (fd : Int) : Kernel := if fd ≥ 0 then k.release fd.toNat else k

/-- `if m != nil { munmap(m) }`. -/
def munmap (k : Kernel) (m : Option Nat) : Kernel :=
  match m with
  | some h => k.release h
  | none => k

/-- A command for device `id` with its reply; the command carries `uint32(id)`. -/
def record (k : Kernel) (op : UInt32) (id : Int) (reply : Option Nat) : Kernel :=
  { k with issued := k.issued ++ [⟨op, .ofInt id, reply⟩] }

/-- The kernel's side of a control command for device `id`.  `ADD_DEV` returns the number it
chose. -/
def control (k : Kernel) (op : UInt32) (id : Int) : Except Errno Nat × Kernel :=
  match k.outcome with
  | (some e, k) => (.error e, k.record op id none)
  | (none, k) =>
      if isAddDev op then
        (.ok (k.book.acquire .device).1,
          { k with book := (k.book.acquire .device).2 }.record op id
            (some (k.book.acquire .device).1))
      else if isDelDev op then
        -- there is nothing to delete: the command cannot succeed
        if (id.toNat, Resource.device) ∈ k.book.live then
          (.ok 0, { k with book := k.book.release id.toNat }.record op id (some 0))
        else (.error enodev, k.record op id none)
      else
        (.ok 0, k.record op id (some 0))

end Kernel

/-! ## Rings -/

/-- The resources of a `uring.Ring`. -/
structure RingHandles where
  owner : RingOwner
  fd : Int
  cancelFD : Int
  epollFD : Int
  mmapSQ : Option Nat
  mmapCQ : Option Nat
  mmapSQEs : Option Nat
  deriving DecidableEq

namespace RingHandles

/-- The three mappings, in order; what was mapped before a failure stays in the struct. -/
def mmapRings (r : RingHandles) (k : Kernel) : Option Fault × RingHandles × Kernel :=
  match k.acquire (.ring r.owner .mmapSQ) with
  | (.error e, k) => (some (.wrap "mmap SQ ring" (.errno e)), r, k)
  | (.ok m, k) =>
  let r := { r with mmapSQ := some m }
  match k.acquire (.ring r.owner .mmapCQ) with
  | (.error e, k) => (some (.wrap "mmap CQ ring" (.errno e)), r, k)
  | (.ok m, k) =>
  let r := { r with mmapCQ := some m }
  match k.acquire (.ring r.owner .mmapSQEs) with
  | (.error e, k) => (some (.wrap "mmap SQEs" (.errno e)), r, k)
  | (.ok m, k) => (none, { r with mmapSQEs := some m }, k)

/-- The loop over the two descriptors to watch. -/
def epollAdd (k : Kernel) : List Int → Option Fault × Kernel
  | [] => (none, k)
  | _ :: fds =>
      match k.outcome with
      | (some e, k) => (some (.wrap "epoll_ctl" (.errno e)), k)
      | (none, k) => epollAdd k fds

/-- The eventfd, the epoll instance, and both descriptors added to it. -/
def setupCancel (r : RingHandles) (k : Kernel) : Option Fault × RingHandles × Kernel :=
  match k.acquire (.ring r.owner .cancelFD) with
  | (.error e, k) => (some (.wrap "eventfd" (.errno e)), r, k)
  | (.ok efd, k) =>
  let r := { r with cancelFD := efd }
  match k.acquire (.ring r.owner .epollFD) with
  | (.error e, k) => (some (.wrap "epoll_create1" (.errno e)), r, k)
  | (.ok epfd, k) =>
  let r := { r with epollFD := epfd }
  let (err, k) := epollAdd k [r.fd, r.cancelFD]
  (err, r, k)

/-- The descriptors are forgotten, the mappings are not. -/
def close (r : RingHandles) (k : Kernel) : RingHandles × Kernel :=
  let k := ((k.munmap r.mmapSQ).munmap r.mmapCQ).munmap r.mmapSQEs
  let k := ((k.closeFD r.epollFD).closeFD r.cancelFD).closeFD r.fd
  ({ r with epollFD := -1, cancelFD := -1, fd := -1 }, k)

/-- `NewSQE128` for the control ring, `New` for the worker's. -/
def setup (owner : RingOwner) (k : Kernel) : Except Fault RingHandles × Kernel :=
  match k.acquire (.ring owner .fd) with
  | (.error e, k) => (.error (.wrap "io_uring_setup" (.errno e)), k)
  | (.ok fd, k) =>
  match mmapRings ⟨owner, fd, -1, -1, none, none, none⟩ k with
  | (some err, r, k) => (.error err, (r.close k).2)
  | (none, r, k) =>
  match r.setupCancel k with
  | (some err, r, k) => (.error err, (r.close k).2)
  | (none, r, k) => (.ok r, k)

end RingHandles

/-! ## The worker -/

/-- The resources of a `worker`. -/
structure WorkerHandles where
  ioRing : Option RingHandles
  ioDescs : Option Nat
  deriving DecidableEq

namespace WorkerHandles

/-- The descriptors are unmapped and the ring is closed; buffers are memory of the process. -/
def cleanup (w : WorkerHandles) (k : Kernel) : WorkerHandles × Kernel :=
  let k := k.munmap w.ioDescs
  match w.ioRing with
  | some r => (⟨none, none⟩, (r.close k).2)
  | none => (⟨none, none⟩, k)

/-- The ring and the mapping of the descriptors; after an error of the second the ring is closed. -/
def init (w : WorkerHandles) (k : Kernel) : Option Fault × WorkerHandles × Kernel :=
  match RingHandles.setup .worker k with
  | (.error err, k) => (some err, { w with ioRing := none }, k)
  | (.ok r, k) =>
  let w := { w with ioRing := some r }
  match k.acquire .ioDescs with
  | (.error e, k) => (some (.errno e), (w.cleanup k).1, (w.cleanup k).2)
  | (.ok m, k) => (none, { w with ioDescs := some m }, k)

end WorkerHandles

/-! ## The device -/

/-- The resources of a `Device`.  `running` are the goroutines that `wg` counts, `closed` is
the state of `closeOnce`. -/
structure Device where
  id : Int
  ctrlFD : Int
  charFD : Int
  ctrlRing : Option RingHandles
  useIoctl : Bool
  workers : List WorkerHandles
  running : List Nat
  closed : Bool

/-- The control file and the control ring. -/
def openDevice (k : Kernel) : Except Fault Device × Kernel :=
  match k.acquire .ctrlFD with
  | (.error e, k) => (.error (.wrap "open /dev/ublk-control" (.errno e)), k)
  | (.ok fd, k) =>
  match RingHandles.setup .control k with
  | (.error err, k) => (.error (.wrap "create control ring" err), k.closeFD fd)
  | (.ok r, k) => (.ok ⟨-1, fd, -1, some r, false, [], [], false⟩, k)

namespace Device

/-- The command ends as its completion says. -/
def ctrlCommand (k : Kernel) (cmdOp : UInt32) (devID : Int) : Except Fault Nat × Kernel :=
  match k.control cmdOp devID with
  | (.error e, k) => (.error (.wrap (ctrlCmdText cmdOp) (.errno e)), k)
  | (.ok id, k) => (.ok id, k)

/-- The form in which the device was added. -/
def ctrlOp (d : Device) (ioctlCmd legacyCmd : UInt32) : UInt32 :=
  if d.useIoctl then ioctlCmd else legacyCmd

/-- Both encodings of `ADD_DEV`, the second if the first fails. -/
def addDev (d : Device) (k : Kernel) : Option Fault × Device × Kernel :=
  match ctrlCommand k uCmdAddDev (-1) with
  | (.ok id, k) => (none, { d with useIoctl := true, id := id }, k)
  | (.error err, k) =>
  match ctrlCommand k cmdAddDev (-1) with
  | (.ok id, k) => (none, { d with useIoctl := false, id := id }, k)
  | (.error err2, k) => (some (.addDev err err2), d, k)

/-- The attempts left to `openCharDev`, and the error of the last one. -/
def tryOpen (d : Device) (path : String) (k : Kernel) : Nat → Errno →
    Option Fault × Device × Kernel
  | 0, last => (some (.wrap ("char device " ++ path ++ " not created") (.errno last)), d, k)
  | n + 1, _ =>
      match k.acquire .charFD with
      | (.ok fd, k) => (none, { d with charFD := fd }, k)
      | (.error e, k) =>
          if e = enoent then tryOpen d path k n e
          else (some (.wrap ("open " ++ path) (.errno e)), d, k)

/-- The character device appears some time after `ADD_DEV`: 50 attempts. -/
def openCharDev (d : Device) (k : Kernel) : Option Fault × Device × Kernel :=
  d.tryOpen ("/dev/ublkc" ++ toString d.id) k 50 0

/-- `SET_PARAMS`; the parameters are the subject of `DeviceConfig`. -/
def setParams (d : Device) (k : Kernel) : Except Fault Nat × Kernel :=
  ctrlCommand k (d.ctrlOp uCmdSetParams cmdSetParams) d.id

/-- `START_DEV`. -/
def startDev (d : Device) (k : Kernel) : Except Fault Nat × Kernel :=
  ctrlCommand k (d.ctrlOp uCmdStartDev cmdStartDev) d.id

/-- `STOP_DEV`, also for a device that was not added. -/
def stopDev (d : Device) (k : Kernel) : Except Fault Nat × Kernel :=
  ctrlCommand k (d.ctrlOp uCmdStopDev cmdStopDev) d.id

/-- `DEL_DEV`. -/
def delDev (d : Device) (k : Kernel) : Except Fault Nat × Kernel :=
  ctrlCommand k (d.ctrlOp uCmdDelDev cmdDelDev) d.id

/-- `wg.Wait`: every running goroutine has returned. -/
def wait (k : Kernel) (running : List Nat) : Kernel := running.foldl Kernel.release k

/-- `cleanup` of every worker, in order. -/
def cleanupAll (k : Kernel) : List WorkerHandles → List WorkerHandles × Kernel
  | [] => ([], k)
  | w :: ws =>
      let (w, k) := w.cleanup k
      let (ws, k) := cleanupAll k ws
      (w :: ws, k)

/-- `if d.id >= 0 { err = d.delDev() }`. -/
def delIfAdded (d : Device) (k : Kernel) : Option Fault × Kernel :=
  if d.id ≥ 0 then
    match d.delDev k with
    | (.error err, k) => (some err, k)
    | (.ok _, k) => (none, k)
  else (none, k)

/-- `if d.ctrlRing != nil { d.ctrlRing.Close() }`. -/
def closeRing (k : Kernel) : Option RingHandles → Kernel
  | some r => (r.close k).2
  | none => k

/-- The workers, the character device, the kernel device and the control ring, in this order. -/
def shutdown (d : Device) (k : Kernel) : Option Fault × Device × Kernel :=
  let k := wait k d.running
  let (workers, k) := cleanupAll k d.workers
  let k := k.closeFD d.charFD
  -- the error of `stopDev` is dropped
  let (_, k) := d.stopDev k
  let (err, k) := d.delIfAdded k
  let k := closeRing k d.ctrlRing
  let k := k.closeFD d.ctrlFD
  (err, { d with workers := workers, running := [], charFD := -1, ctrlRing := none, ctrlFD := -1 },
    k)

/-- `Close`: the body runs once. -/
def close (d : Device) (k : Kernel) : Option Fault × Device × Kernel :=
  if d.closed then (none, d, k)
  else
    let (err, d, k) := d.shutdown k
    (err, { d with closed := true }, k)

/-- The worker's `run` returns by itself. -/
def workerReturns (d : Device) (k : Kernel) : Device × Kernel :=
  match d.running with
  | h :: rest => ({ d with running := rest }, k.release h)
  | [] => (d, k)

end Device

/-- What can happen to a device that `New` returned. -/
inductive Use
  | close
  | workerReturns
  deriving DecidableEq

/-- One use of the device. -/
def Use.apply : Device × Kernel → Use → Device × Kernel
  | (d, k), .close => (d.close k).2
  | (d, k), .workerReturns => d.workerReturns k

end Ublk
