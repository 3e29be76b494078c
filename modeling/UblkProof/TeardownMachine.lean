import UblkProof.DeviceLifecycle
import UblkProof.WorkerMachine

/-! # Shutting down next to a running worker

From `w.init` on three goroutines share one ring: the one that calls `New` and later `Close`,
the worker from `go w.run` to its deferred `wg.Done`, and the goroutine that signals `ready`.
`System.step` interleaves them with the kernel.  The worker's steps are those of
`Worker.step`; what it does around them is added here: the send of a `FETCH` error, the start
of the other goroutine, and `wg.Done`.  (A panic in `run` executes `wg.Done` too, before it ends
the process.)

`shutdown` is a list of statements, those that `Device.shutdown` performs one after the other
(`Device.shutdown_eq_code`).  `New` runs it after a failed `FETCH` or `START_DEV`, and `Close`
runs it once.

`trace` records uses, releases, commands and messages in order; no step reads it.
-/
namespace Ublk
open Runs

/-! ## The statements of `shutdown` -/

/-- The control commands from `go w.run` on. -/
inductive Ctl
  | start
  | stop
  | del
  deriving DecidableEq

/-- The first two are `Cancel`, `wait` is `wg.Wait`. -/
inductive Stmt
  | cancelStore
  | cancelWake
  | wait
  | release (r : Resource)
  | command (c : Ctl)
  deriving DecidableEq

/-- `Ring.Close`. -/
def closeRingCode (owner : RingOwner) : List Stmt :=
  [.release (.ring owner .mmapSQ), .release (.ring owner .mmapCQ),
    .release (.ring owner .mmapSQEs), .release (.ring owner .epollFD),
    .release (.ring owner .cancelFD), .release (.ring owner .fd)]

/-- `shutdown` of a device with a number, a char device and one worker. -/
def shutdownCode : List Stmt :=
  [.cancelStore, .cancelWake, .wait, .release .ioDescs] ++ closeRingCode .worker ++
    [.release .charFD, .command .stop, .command .del] ++ closeRingCode .control ++
    [.release .ctrlFD]

/-- What the worker's goroutine uses. -/
def Resource.ofWorker : Resource → Bool
  | .ring .worker _ | .ioDescs | .charFD => true
  | _ => false

/-- What control commands use. -/
def Resource.ofControl : Resource → Bool
  | .ring .control _ | .ctrlFD => true
  | _ => false

/-- One field of `Ring.Close`. -/
def RingHandles.releasePart (r : RingHandles) (k : Kernel) : RingPart → Kernel
  | .mmapSQ => k.munmap r.mmapSQ
  | .mmapCQ => k.munmap r.mmapCQ
  | .mmapSQEs => k.munmap r.mmapSQEs
  | .epollFD => k.closeFD r.epollFD
  | .cancelFD => k.closeFD r.cancelFD
  | .fd => k.closeFD r.fd

/-- What a statement does to the kernel's resources, for a device with the worker's ring `wr`,
its descriptors `descs` and the control ring `cr`. -/
def Device.perform (d : Device) (wr : RingHandles) (descs : Option Nat) (cr : RingHandles)
    (k : Kernel) : Stmt → Kernel
  | .cancelStore | .cancelWake => k
  | .wait => wait k d.running
  | .release .ioDescs => k.munmap descs
  | .release (.ring .worker p) => wr.releasePart k p
  | .release (.ring .control p) => cr.releasePart k p
  | .release .charFD => k.closeFD d.charFD
  | .release .ctrlFD => k.closeFD d.ctrlFD
  | .release .device | .release .goroutine => k
  | .command .start => (d.startDev k).2
  | .command .stop => (d.stopDev k).2
  | .command .del => (d.delIfAdded k).2

/-- **`shutdown` is its statements in order.** -/
theorem Device.shutdown_eq_code (d : Device) (k : Kernel) {wr cr : RingHandles}
    {descs : Option Nat} (hw : d.workers = [⟨some wr, descs⟩]) (hc : d.ctrlRing = some cr) :
    (d.shutdown k).2.2 = shutdownCode.foldl (d.perform wr descs cr) k := by
  simp only [Device.shutdown, hw, hc]
  rfl

/-! ## The state -/

/-- The goroutine of `New` and `Close`: the loop of `w.init`, `<-ready`, `START_DEV`, between
`New` and `Close`, and the statements of `shutdown` that are left. -/
inductive Main
  | preparing
  | receiving
  | starting
  | serving
  | shutting (rest : List Stmt)
  deriving DecidableEq

/-- `New` goes on at `next`, or cleans up after an error. -/
def Main.orCleanup (ok : Bool) (next : Main) : Main := if ok then next else .shutting shutdownCode

/-- The worker's goroutine: not started, in `run`, at `ready <- err`, at its deferred calls,
ended. -/
inductive Goroutine
  | unborn
  | running
  | sending (err : UringError)
  | returning
  | gone
  deriving DecidableEq

/-- What a statement of `run` touches, besides its own memory. -/
inductive Access
  | ring
  | descs
  | charFD
  deriving DecidableEq

/-- What happened, in order. -/
inductive Mark
  | used (a : Access)
  | left
  | released (r : Resource)
  | command (c : Ctl) (ok : Bool)
  | sent (err : Option UringError)
  | received (err : Option UringError)
  deriving DecidableEq

/-- What the statement at `pc` touches.  The entries a system call submits name the char
device. -/
def PC.accesses : PC → List Access
  | .startEnter _ | .submitEnter _ => [.ring, .charFD]
  | .handle _ => [.descs]
  | .init _ | .commit _ _ => [.ring, .charFD]
  | .done _ | .panicked => []
  | _ => [.ring]

/-- Where the goroutine is once `run` is at `pc`. -/
def PC.goroutine : PC → Goroutine
  | .done (.fetchFailed e) => .sending e
  | .done _ | .panicked => .returning
  | _ => .running

/-- `SubmitAndWait` returned without an error: `go func() { ready <- nil }()`. -/
def PC.spawns : PC → PC → Bool
  | .startEnter _, .waitCheck => true
  | _, _ => false

/-- `signalling` is whether the goroutine that sends `nil` is at its send; `wg` is the counter
of the wait group and `chan` the buffer of `ready`. -/
structure System (β : Type) where
  world : World β
  main : Main
  worker : Goroutine
  signalling : Bool
  wg : Nat
  chan : List (Option UringError)
  trace : List Mark

/-- `make(chan error, 1)`. -/
def readyCapacity : Nat := 1

/-- A step of one of the goroutines or of the kernel. -/
inductive SystemAction
  /-- The next statement of `New` or `shutdown`. -/
  | main
  /-- The control command of `New` or `shutdown` returns. -/
  | returns (ok : Bool)
  /-- `Close` is called. -/
  | close
  /-- A step of the worker in `run`. -/
  | worker (a : Action)
  /-- The worker's `ready <- err`. -/
  | send
  /-- The worker's `wg.Done`. -/
  | done
  /-- The other goroutine's `ready <- nil`. -/
  | signal
  /-- A step of the kernel. -/
  | kernel (a : Action)
  deriving DecidableEq

/-! ## Steps -/

namespace System
variable {β : Type} (w : Worker) (bk : Backend β)

/-- A statement of `shutdown` other than a command. -/
def shutStep (s : System β) (rest : List Stmt) : Stmt → Option (System β)
  | .cancelStore =>
      some { s with world := { s.world with ring := s.world.ring.cancel }, main := .shutting rest }
  | .cancelWake => some { s with world := { s.world with efd := true }, main := .shutting rest }
  | .wait => if s.wg = 0 then some { s with main := .shutting rest } else none
  | .release r => some { s with main := .shutting rest, trace := s.trace ++ [.released r] }
  | .command _ => none

/-- `New` from the loop of `w.init` to `<-ready`, and `shutdown`. -/
def mainStep (s : System β) : Option (System β) :=
  match s.main with
  | .preparing =>
      if s.world.pc = .start then
        -- `wg.Add(1)` and `go w.run(ready)`
        some { s with main := .receiving, worker := .running, wg := s.wg + 1 }
      else (w.work bk s.world).map fun x => { s with world := x }
  | .receiving =>
      match s.chan with
      | [] => none
      | err :: rest =>
          some { s with
            world := { s.world with ready := .received err }
            chan := rest
            trace := s.trace ++ [.received err]
            main := .orCleanup err.isNone .starting }
  | .shutting (st :: rest) => s.shutStep rest st
  | .starting | .serving | .shutting [] => none

/-- A control command returns. -/
def returns (s : System β) (ok : Bool) : Option (System β) :=
  match s.main with
  | .starting =>
      some { s with
        main := .orCleanup ok .serving
        trace := s.trace ++ [.command .start ok] }
  | .shutting (.command c :: rest) =>
      some { s with main := .shutting rest, trace := s.trace ++ [.command c ok] }
  | _ => none

/-- The worker made a step to `x`. -/
def worked (s : System β) (x : World β) : System β :=
  { s with
    world := x
    worker := x.pc.goroutine
    signalling := s.signalling || s.world.pc.spawns x.pc
    trace := s.trace ++ s.world.pc.accesses.map .used }

/-- The worker's `ready <- err`, if there is room. -/
def send (s : System β) : Option (System β) :=
  match s.worker with
  | .sending e =>
      if s.chan.length < readyCapacity then
        some { s with
          worker := .returning
          chan := s.chan ++ [some e]
          trace := s.trace ++ [.sent (some e)] }
      else none
  | _ => none

/-- The goroutine's `ready <- nil`, if there is room. -/
def signal (s : System β) : Option (System β) :=
  if s.signalling ∧ s.chan.length < readyCapacity then
    some { s with
      world := { s.world with ready := .buffered none }
      signalling := false
      chan := s.chan ++ [none]
      trace := s.trace ++ [.sent none] }
  else none

/-- One step, if it can be made. -/
def step (s : System β) : SystemAction → Option (System β)
  | .main => s.mainStep w bk
  | .returns ok => s.returns ok
  | .close => if s.main = .serving then some { s with main := .shutting shutdownCode } else none
  | .worker a =>
      if s.worker = .running ∧ a.ofWorker then (w.step bk s.world a).map s.worked else none
  | .send => s.send
  | .done =>
      if s.worker = .returning then
        some { s with worker := .gone, wg := s.wg - 1, trace := s.trace ++ [.left] }
      else none
  | .signal => s.signal
  | .kernel a =>
      if a.ofKernel then (w.step bk s.world a).map fun x => { s with world := x } else none

/-- `w.init` has mapped the descriptors and is about to prepare the first `FETCH`. -/
def boot (b : Worker.Boot β) : System β where
  world := Worker.boot b
  main := .preparing
  worker := .unborn
  signalling := false
  wg := 0
  chan := []
  trace := []

/-- A run from the start of the worker on. -/
abbrev Run (b : Worker.Boot β) (as : List SystemAction) (s : System β) : Prop :=
  Runs.Run (System.step w bk) (fun _ _ => True) (boot b) as s

/-! ## What a step can do -/

/-- The steps, one constructor for each. -/
inductive Step (s : System β) : SystemAction → System β → Prop
  | prepare {x : World β} (hm : s.main = .preparing) (hpc : s.world.pc ≠ .start)
      (hx : w.work bk s.world = some x) : Step s .main { s with world := x }
  | go (hm : s.main = .preparing) (hpc : s.world.pc = .start) :
      Step s .main { s with main := .receiving, worker := .running, wg := s.wg + 1 }
  | receive {err : Option UringError} {rest : List (Option UringError)} (hm : s.main = .receiving)
      (hc : s.chan = err :: rest) :
      Step s .main { s with
        world := { s.world with ready := .received err }
        chan := rest
        trace := s.trace ++ [.received err]
        main := .orCleanup err.isNone .starting }
  | cancelStore {rest : List Stmt} (hm : s.main = .shutting (.cancelStore :: rest)) :
      Step s .main { s with
        world := { s.world with ring := s.world.ring.cancel }, main := .shutting rest }
  | cancelWake {rest : List Stmt} (hm : s.main = .shutting (.cancelWake :: rest)) :
      Step s .main { s with world := { s.world with efd := true }, main := .shutting rest }
  | wait {rest : List Stmt} (hm : s.main = .shutting (.wait :: rest)) (hwg : s.wg = 0) :
      Step s .main { s with main := .shutting rest }
  | release {r : Resource} {rest : List Stmt} (hm : s.main = .shutting (.release r :: rest)) :
      Step s .main { s with main := .shutting rest, trace := s.trace ++ [.released r] }
  | start {ok : Bool} (hm : s.main = .starting) :
      Step s (.returns ok) { s with
        main := .orCleanup ok .serving
        trace := s.trace ++ [.command .start ok] }
  | command {c : Ctl} {rest : List Stmt} {ok : Bool}
      (hm : s.main = .shutting (.command c :: rest)) :
      Step s (.returns ok) { s with
        main := .shutting rest, trace := s.trace ++ [.command c ok] }
  | close (hm : s.main = .serving) : Step s .close { s with main := .shutting shutdownCode }
  | worker {a : Action} {x : World β} (hw : s.worker = .running) (ha : a.ofWorker = true)
      (hx : w.step bk s.world a = some x) : Step s (.worker a) (s.worked x)
  | send {e : UringError} (hw : s.worker = .sending e) (hc : s.chan = []) :
      Step s .send { s with
        worker := .returning, chan := [some e], trace := s.trace ++ [.sent (some e)] }
  | done (hw : s.worker = .returning) :
      Step s .done { s with worker := .gone, wg := s.wg - 1, trace := s.trace ++ [.left] }
  | signal (hs : s.signalling = true) (hc : s.chan = []) :
      Step s .signal { s with
        world := { s.world with ready := .buffered none }
        signalling := false
        chan := [none]
        trace := s.trace ++ [.sent none] }
  | kernel {a : Action} {x : World β} (ha : a.ofKernel = true)
      (hx : w.step bk s.world a = some x) : Step s (.kernel a) { s with world := x }

variable {w bk} {s s' : System β}

theorem chan_eq_nil (h : s.chan.length < readyCapacity) : s.chan = [] :=
  List.length_eq_zero_iff.mp (Nat.lt_one_iff.mp h)

theorem mainStep_cases (h : s.mainStep w bk = some s') : Step w bk s .main s' := by
  unfold mainStep at h
  split at h
  next hm =>
    split_ifs at h with hpc
    · cases h
      exact .go hm hpc
    · obtain ⟨x, hx, rfl⟩ := Option.map_eq_some_iff.mp h
      exact .prepare hm hpc hx
  next hm =>
    split at h
    · cases h
    next hc =>
      cases h
      exact .receive hm hc
  next st rest hm =>
    cases st with
    | cancelStore => cases h; exact .cancelStore hm
    | cancelWake => cases h; exact .cancelWake hm
    | wait =>
      rw [shutStep] at h
      split_ifs at h with hwg
      cases h
      exact .wait hm hwg
    | release r => cases h; exact .release hm
    | command c => cases h
  all_goals cases h

theorem returns_cases {ok : Bool} (h : s.returns ok = some s') : Step w bk s (.returns ok) s' := by
  unfold returns at h
  split at h
  next hm =>
    cases h
    exact .start hm
  next hm =>
    cases h
    exact .command hm
  · cases h

/-- **Every step is one of these.** -/
theorem step_cases {a : SystemAction} (h : s.step w bk a = some s') : Step w bk s a s' := by
  cases a with
  | main => exact mainStep_cases h
  | returns ok => exact returns_cases h
  | close =>
    rw [step] at h
    split_ifs at h with hm
    cases h
    exact .close hm
  | worker a =>
    rw [step] at h
    split_ifs at h with hw
    obtain ⟨x, hx, rfl⟩ := Option.map_eq_some_iff.mp h
    exact .worker hw.1 hw.2 hx
  | send =>
    rw [step, System.send] at h
    split at h
    next hw =>
      split_ifs at h with hc
      cases h
      rw [chan_eq_nil hc]
      exact .send hw (chan_eq_nil hc)
    · cases h
  | done =>
    rw [step] at h
    split_ifs at h with hw
    cases h
    exact .done hw
  | signal =>
    rw [step, System.signal] at h
    split_ifs at h with hs
    cases h
    rw [chan_eq_nil hs.2]
    exact .signal hs.1 (chan_eq_nil hs.2)
  | kernel a =>
    rw [step] at h
    split_ifs at h with ha
    obtain ⟨x, hx, rfl⟩ := Option.map_eq_some_iff.mp h
    exact .kernel ha hx

end System
end Ublk
