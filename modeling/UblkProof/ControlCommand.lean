import UblkProof.Commands
import UblkProof.Runs

/-! # Control commands

`Device.ctrlCommand` sends one command over the control ring and waits for one completion.
Its submission entries carry no user data, so which call a completion belongs to is decided
by the order of the ring alone.

The machine below is a sequence of such calls on one ring with the kernel in between, cut at
every access to shared state like the worker's.  Calls are numbered in order.  `owner` is
ghost state: for each slot of the entry area, the call that filled it last; the kernel's
events carry that number.
-/
namespace Ublk
open LittleEndian
open Ublk.Ring (EnterReply)

/-- What `ctrlCommand` returns: `control ring SQ full`, an error of the ring, or what it makes of
the completion's `Res`. -/
inductive CtrlOutcome
  | full
  | uring (e : UringError)
  | completed (cmdOp : UInt32) (res : Int32)
  deriving DecidableEq

/-- Does the caller get an error? -/
def CtrlOutcome.failed : CtrlOutcome → Bool
  | .full => true
  | .uring _ => true
  | .completed _ res => res < 0

/-- The text of a command's error, in front of the wrapped errno. -/
def ctrlCmdText (cmdOp : UInt32) : String :=
  "ublk control cmd 0x" ++ String.ofList (Nat.toDigits 16 cmdOp.toNat)

/-- Where a call is.  `submit` and `enter` are `Submit`, the `wait` positions `WaitCQE`;
`took` reads `cqe.Res`, `seen` calls `SeenCQE` and returns. -/
inductive CtrlPC
  | idle
  | submit
  | enter (count : UInt32)
  | waitCheck
  | waitLoad
  | waitEpoll
  | took (idx : Nat)
  | seen (res : Int32)
  deriving DecidableEq

/-- The arguments of a call. -/
structure CtrlCall where
  cmdOp : UInt32
  cmd : CtrlCmd
  deriving DecidableEq

/-- What can be seen of the calls: the kernel reads the entry of a call, posts its completion, and
the call returns. -/
inductive CtrlEvent
  | consumed (call : Nat) (sqe : SQE128)
  | posted (call : Nat) (c : CQE)
  | returned (call : Nat) (out : CtrlOutcome)
  deriving DecidableEq

/-- The control ring, the calls made so far (the last one is current unless `pc` is `idle`)
and the consumed entries whose completion is not yet posted. -/
structure CtrlWorld where
  ring : Ring 80
  pc : CtrlPC
  calls : List CtrlCall
  owner : Nat → Nat
  inflight : List (Nat × SQE128)
  log : List CtrlEvent

/-- A step of the caller, a return of one of its system calls, or a completion from the kernel. -/
inductive CtrlAction
  | call (c : CtrlCall)
  | work
  | enter (reply : EnterReply)
  | epoll (reply : EpollReply)
  | post (i : Nat) (res : Int32) (flags : UInt32)
  deriving DecidableEq

/-- The stores `ctrlCommand` makes through the entry pointer. -/
def CtrlCall.fill (c : CtrlCall) (ctrlFD : Int32) (sqe : SQE128) : SQE128 :=
  { sqe with
    opcode := opUringCmd
    fd := ctrlFD
    off := c.cmdOp.toUInt64
    cmd := copyInto sqe.cmd c.cmd.bytes }

namespace CtrlWorld

/-- The number of the current call. -/
def current (s : CtrlWorld) : Nat := s.calls.length - 1

/-- The current call returns `out`. -/
def returns (s : CtrlWorld) (out : CtrlOutcome) : CtrlWorld :=
  { s with pc := .idle, log := s.log ++ [.returned s.current out] }

/-- `ctrlCommand` up to the call of `Submit`. -/
def begin (ctrlFD : Int32) (s : CtrlWorld) (c : CtrlCall) : CtrlWorld :=
  let s := { s with calls := s.calls ++ [c] }
  match s.ring.getSQE with
  | (none, r) => returns { s with ring := r } .full
  | (some idx, r) =>
      { s with
        ring := r.writeSQE idx (c.fill ctrlFD (r.sqes idx))
        owner := Function.update s.owner idx s.current
        pc := .submit }

/-- One statement, if the call is not in a system call. -/
def work (s : CtrlWorld) : Option CtrlWorld :=
  match s.pc with
  | .submit =>
      some { s with
        ring := s.ring.flushSQ.2
        pc := if s.ring.flushSQ.1 = 0 then .waitCheck else .enter s.ring.flushSQ.1 }
  | .waitCheck =>
      if s.ring.cancelled then some (s.returns (.uring .cancelled))
      else some { s with pc := .waitLoad }
  | .waitLoad =>
      match s.ring.peekCQE with
      | some idx => some { s with pc := .took idx }
      | none => some { s with pc := .waitEpoll }
  | .took idx => some { s with pc := .seen (s.ring.cqes idx).res }
  | .seen res =>
      match s.calls[s.current]? with
      | some c => some (returns { s with ring := s.ring.seenCQE } (.completed c.cmdOp res))
      | none => none
  | .idle | .enter _ | .waitEpoll => none

/-- The slots of the next `k` entries the kernel reads. -/
def headSlots (s : CtrlWorld) (k : Nat) : List Nat :=
  (List.range k).map fun i =>
    (s.ring.sqArray ((s.ring.sqHead + UInt32.ofNat i) &&& s.ring.sqMask).toNat).toNat

/-- The return of `io_uring_enter`, called with `count`. -/
def enter (s : CtrlWorld) (count : UInt32) (reply : EnterReply) : CtrlWorld :=
  let out := s.ring.enter count .enterSubmit reply
  let read := ((s.headSlots reply.amount).map s.owner).zip out.read
  let s : CtrlWorld := { s with
    ring := out.ring
    inflight := s.inflight ++ read
    log := s.log ++ read.map fun e => .consumed e.1 e.2 }
  match out.ret with
  | .ok _ => { s with pc := .waitCheck }
  | .error e => s.returns (.uring e)

/-- The return of `epoll_wait`.  Nothing writes to the control ring's eventfd. -/
def epoll (s : CtrlWorld) : EpollReply → Option CtrlWorld
  | .interrupted | .events false => some { s with pc := .waitCheck }
  | .failed e => some (s.returns (.uring (.epollWait e)))
  | .events true => none

/-- The kernel posts the completion of the `i`-th command in flight. -/
def post (s : CtrlWorld) (i : Nat) (cmd : Nat × SQE128) (res : Int32) (flags : UInt32) :
    CtrlWorld :=
  { s with
    ring := s.ring.post ⟨cmd.2.userData, res, flags⟩
    inflight := s.inflight.eraseIdx i
    log := s.log ++ [.posted cmd.1 ⟨cmd.2.userData, res, flags⟩] }

/-- One step, if it can be made. -/
def step (ctrlFD : Int32) (s : CtrlWorld) : CtrlAction → Option CtrlWorld
  | .call c => if s.pc = .idle then some (s.begin ctrlFD c) else none
  | .work => s.work
  | .enter reply =>
      match s.pc with
      | .enter count => if reply.Legal count then some (s.enter count reply) else none
      | _ => none
  | .epoll reply => if s.pc = .waitEpoll then s.epoll reply else none
  | .post i res flags => s.inflight[i]?.map fun cmd => s.post i cmd res flags

/-- A new control ring, over whatever its mapped areas contain. -/
def boot (p : Params) (sq cq : UInt32) (sqArray : Nat → UInt32) (sqes : Nat → SQE128)
    (cqes : Nat → CQE) (owner : Nat → Nat) : CtrlWorld where
  ring := Ring.setup p sq cq sqArray sqes cqes
  pc := .idle
  calls := []
  owner := owner
  inflight := []
  log := []

end CtrlWorld
end Ublk
