import UblkProof.ByteMemory
import UblkProof.HandleIO
import UblkProof.Runs

/-! # The worker and the kernel as one machine

`worker.init` and `worker.run` drive one ring; the kernel consumes what they submit,
delivers requests through descriptors and buffers, and posts completions at any time.
`Worker.step` interleaves the two.  The worker's code is cut at every access to shared
state, with the local variables that are alive there kept in the program counter; system
calls return when the kernel says so, with the reply it chooses.

`log` records what happened, in order.  It is not read by any step.
-/
namespace Ublk
open ByteMemory LittleEndian
open Ublk.Ring (EnterReply Submitted)

/-! ## The worker -/

/-- A worker whose `init` has mapped the descriptors and allocated the buffers.  `pool` is
the address of `bufPool`, which ends before the end of the address space. -/
structure Worker where
  qid : UInt16
  depth : UInt16
  bufSize : Nat
  charFD : Int32
  pool : Nat
  depth_pos : 0 < depth.toNat
  depth_le : depth.toNat ≤ maxQueueDepth
  bufSize_pos : 0 < bufSize
  pool_le : pool + depth.toNat * bufSize ≤ 2 ^ 64

namespace Worker

/-- The address of `bufs[tag]`. -/
def bufAddr (w : Worker) (tag : Nat) : Nat := w.pool + tag * w.bufSize

/-- The command of a tag, with the address of its buffer. -/
def ioCmd (w : Worker) (tag : UInt16) (result : Int32) : IOCmd :=
  ⟨w.qid, tag, result, UInt64.ofNat (w.bufAddr tag.toNat)⟩

/-- The stores `prepareFetch` and `prepareCommitAndFetch` make through the entry pointer. -/
def fill (w : Worker) (cmdOp : UInt32) (tag : UInt16) (result : Int32) (sqe : SQE64) : SQE64 :=
  { sqe with
    opcode := opUringCmd
    fd := w.charFD
    off := cmdOp.toUInt64
    userData := tag.toUInt64
    cmd := copyInto sqe.cmd (w.ioCmd tag result).bytes }

/-- Obtain an entry and fill it in.  `none` is the silent return on a full queue. -/
def prepare (w : Worker) (cmdOp : UInt32) (tag : UInt16) (result : Int32) (r : Ring 16) :
    Option SQE64 × Ring 16 :=
  match r.getSQE with
  | (none, r) => (none, r)
  | (some idx, r) =>
      let sqe := w.fill cmdOp tag result (r.sqes idx)
      (some sqe, r.writeSQE idx sqe)

/-- The first command of a tag. -/
def prepareFetch (w : Worker) (tag : UInt16) (r : Ring 16) : Option SQE64 × Ring 16 :=
  w.prepare uIOFetchReq tag 0 r

/-- The result of a request, and the next fetch. -/
def prepareCommitAndFetch (w : Worker) (tag : UInt16) (result : Int32) (r : Ring 16) :
    Option SQE64 × Ring 16 :=
  w.prepare uIOCommitAndFetchReq tag result r

end Worker

/-! ## The state -/

/-- Which call returned the completion the worker is looking at. -/
inductive Origin
  | wait
  | peek
  deriving DecidableEq

/-- Why `run` returned. -/
inductive Exit
  | fetchFailed (e : UringError)
  | waitFailed (e : UringError)
  | negativeRes (origin : Origin) (tag : UInt16)
  | submitFailed (e : UringError)
  deriving DecidableEq

/-- Where the worker is.  `init` is the loop of `worker.init`; `start` and `startEnter` are
`SubmitAndWait`; the three `wait` positions are `WaitCQE`; `took`, `copied` and `seen` are
the reads of `c.UserData` and `c.Res` and the call of `SeenCQE`; `flush` and `submitEnter`
are `Submit`. -/
inductive PC
  | init (tag : UInt16)
  | start
  | startEnter (count : UInt32)
  | waitCheck
  | waitLoad
  | waitEpoll
  | took (origin : Origin) (idx : Nat)
  | copied (origin : Origin) (idx : Nat) (tag : UInt16)
  | seen (origin : Origin) (tag : UInt16) (res : Int32)
  | handle (tag : UInt16)
  | commit (tag : UInt16) (result : Int32)
  | peek
  | flush
  | submitEnter (count : UInt32)
  | done (exit : Exit)
  | panicked
  deriving DecidableEq

/-- Before the first system call has returned. -/
def PC.early : PC → Bool
  | .init _ | .start | .startEnter _ => true
  | _ => false

/-- The `ready` channel, of capacity one: nothing yet; the goroutine that will send `nil`
runs; a value is buffered; `New` has received it. -/
inductive Ready
  | empty
  | sending
  | buffered (err : Option UringError)
  | received (err : Option UringError)
  deriving DecidableEq

/-- A block request: its descriptor, and the payload of a write. -/
structure Request where
  desc : IODesc
  payload : List UInt8
  deriving DecidableEq

/-- What the block layer gets back: the committed result, and the data of a full read. -/
structure Response where
  result : Int32
  data : List UInt8
  deriving DecidableEq

/-- A consumed entry whose completion is not yet posted, with the request it is about to
deliver once there is one. -/
structure Command where
  sqe : SQE64
  request : Option Nat
  deriving DecidableEq

/-- What is recorded: entries by the worker, commands, requests and completions by the kernel, and
what the worker makes of them. -/
inductive Event
  | prepared (sqe : SQE64)
  | lost (tag : UInt16)
  | published (sqe : SQE64)
  | consumed (sqe : SQE64)
  | issued (tag : UInt16) (id : Nat) (req : Request)
  | posted (c : CQE)
  | taken (tag : UInt16) (res : Int32)
  | handled (tag : UInt16) (request : Option Nat) (desc : IODesc)
      (calls : List (BackendCall × Reply)) (result : Int32)
  | responded (id : Nat) (resp : Response)
  deriving DecidableEq

/-- Everything but the ring.  `serving` is the kernel's: the request of each tag between
its issue and its response. -/
structure Core (β : Type) where
  pc : PC
  ready : Ready
  efd : Bool
  mem : Nat → UInt8
  descs : Nat → IODesc
  backend : β
  inflight : List Command
  serving : Nat → Option Nat
  nextId : Nat
  log : List Event

/-- The worker with its ring in shared memory. -/
structure World (β : Type) extends Core β where
  ring : Ring 16

/-! ## Actions -/

/-- A step of the worker, of the kernel, of `New` or of a caller of `Cancel`. -/
inductive Action
  /-- The worker's next statement. -/
  | work
  /-- The return of `io_uring_enter`. -/
  | enter (reply : EnterReply)
  /-- The return of `epoll_wait`. -/
  | epoll (reply : EpollReply)
  /-- The goroutine's `ready <- nil`. -/
  | signal
  /-- `New`'s `<-ready`. -/
  | receive
  /-- The two halves of `Cancel`, by whichever goroutine calls it. -/
  | cancelStore
  | cancelWake
  /-- The kernel hands a request to the `i`-th command in flight. -/
  | issue (i : Nat) (req : Request)
  /-- The kernel ends the request that the `i`-th command in flight committed. -/
  | respond (i : Nat)
  /-- The kernel posts the completion of the `i`-th command in flight. -/
  | post (i : Nat) (res : Int32) (flags : UInt32)
  deriving DecidableEq

/-- The worker's own actions; system calls return through the other two. -/
def Action.ofWorker : Action → Bool
  | .work | .enter _ | .epoll _ => true
  | _ => false

/-- The kernel's actions. -/
def Action.ofKernel : Action → Bool
  | .issue _ _ | .respond _ | .post _ _ _ => true
  | _ => false

/-! ## The kernel's actions -/

/-- The kernel's view of the command in an entry. -/
def Command.io (c : Command) : IOCmd := IOCmd.decode c.sqe.cmd

section
variable {β : Type}

namespace Core

/-- A system call returned: the entries it read are now the kernel's. -/
def consume (s : Core β) (read : List SQE64) : Core β :=
  { s with
    inflight := s.inflight ++ read.map (⟨·, none⟩)
    log := s.log ++ read.map .consumed }

/-- The kernel stores the descriptor and, for a write, the payload in the buffer the
command registered. -/
def issue (s : Core β) (i : Nat) (c : Command) (req : Request) : Core β :=
  { s with
    inflight := s.inflight.set i { c with request := some s.nextId }
    descs := Function.update s.descs c.io.tag.toNat req.desc
    mem := if req.desc.op = opWrite then writeBytes s.mem c.io.addr.toNat req.payload else s.mem
    serving := Function.update s.serving c.io.tag.toNat (some s.nextId)
    nextId := s.nextId + 1
    log := s.log ++ [.issued c.io.tag s.nextId req] }

/-- What the kernel returns for the request described by `desc`: a read that was committed
in full is copied out of the buffer. -/
def response (s : Core β) (c : Command) (desc : IODesc) : Response where
  result := c.io.result
  data := if desc.op = opRead ∧ c.io.result.toInt = desc.length then
    readBytes s.mem c.io.addr.toNat desc.length else []

/-- The kernel answers request `id`, which the command commits. -/
def respond (s : Core β) (c : Command) (id : Nat) : Core β :=
  { s with
    serving := Function.update s.serving c.io.tag.toNat none
    log := s.log ++ [.responded id (s.response c (s.descs c.io.tag.toNat))] }

/-- The kernel posts the completion of the `i`-th command. -/
def post (s : Core β) (i : Nat) (c : CQE) : Core β :=
  { s with
    inflight := s.inflight.eraseIdx i
    log := s.log ++ [.posted c] }

end Core

/-- The completion of a command. -/
def Command.cqe (c : Command) (res : Int32) (flags : UInt32) : CQE := ⟨c.sqe.userData, res, flags⟩

/-! ## The worker's steps -/

namespace Worker
variable (w : Worker) (bk : Backend β)

/-- Continue at `next` with the entry prepared, or without it if the queue was full. -/
def prepared (s : World β) (tag : UInt16) (next : PC) : Option SQE64 × Ring 16 → World β
  | (some sqe, r) => { s with ring := r, log := s.log ++ [.prepared sqe], pc := next }
  | (none, r) => { s with ring := r, log := s.log ++ [.lost tag], pc := next }

/-- `handleIO` returned. -/
def served (s : Core β) (tag : UInt16) (out : Handled β) : Core β :=
  { s with
    mem := writeBytes s.mem (w.bufAddr tag.toNat) out.buf
    backend := out.backend
    log := s.log ++
      [.handled tag (s.serving tag.toNat) (s.descs tag.toNat) out.calls out.result]
    pc := .commit tag out.result }

/-- `w.handleIO(tag)`.  `getDesc` and `bufs[tag]` panic when `tag` is out of range. -/
def serve (s : Core β) (tag : UInt16) : Core β :=
  if tag < w.depth then
    match handleIO bk w.bufSize (s.descs tag.toNat)
        (readBytes s.mem (w.bufAddr tag.toNat) w.bufSize) s.backend with
    | none => { s with pc := .panicked }
    | some out => w.served s tag out
  else
    { s with pc := .panicked }

/-- One statement of `init` or `run`, if the worker is not in a system call. -/
def work (s : World β) : Option (World β) :=
  match s.pc with
  | .init tag =>
      if tag < w.depth then
        some (prepared s tag (.init (tag + 1)) (w.prepareFetch tag s.ring))
      else
        some { s with pc := .start }
  | .start =>
      some { s with
        ring := s.ring.flushSQ.2
        log := s.log ++ s.ring.unpublished.map .published
        pc := .startEnter s.ring.flushSQ.1 }
  | .waitCheck =>
      if s.ring.cancelled then some { s with pc := .done (.waitFailed .cancelled) }
      else some { s with pc := .waitLoad }
  | .waitLoad =>
      match s.ring.peekCQE with
      | some idx => some { s with pc := .took .wait idx }
      | none => some { s with pc := .waitEpoll }
  | .took origin idx =>
      some { s with pc := .copied origin idx (s.ring.cqes idx).userData.toUInt16 }
  | .copied origin idx tag => some { s with pc := .seen origin tag (s.ring.cqes idx).res }
  | .seen origin tag res =>
      some { s with
        ring := s.ring.seenCQE
        log := s.log ++ [.taken tag res]
        pc := if res < 0 then .done (.negativeRes origin tag) else .handle tag }
  | .handle tag => some { s with toCore := w.serve bk s.toCore tag }
  | .commit tag result =>
      some (prepared s tag .peek (w.prepareCommitAndFetch tag result s.ring))
  | .peek =>
      match s.ring.peekCQE with
      | some idx => some { s with pc := .took .peek idx }
      | none => some { s with pc := .flush }
  | .flush =>
      some { s with
        ring := s.ring.flushSQ.2
        log := s.log ++ s.ring.unpublished.map .published
        pc := if s.ring.flushSQ.1 = 0 then .waitCheck else .submitEnter s.ring.flushSQ.1 }
  | .startEnter _ | .waitEpoll | .submitEnter _ | .done _ | .panicked => none

/-- Where `io_uring_enter` returns to, and what is then known of `ready`: a failed first call
sends its error, a successful one starts the goroutine that sends `nil`. -/
def afterEnter (s : Core β) (ret : Except UringError Nat) : PC × Ready :=
  match s.pc, ret with
  | .startEnter _, .ok _ => (.waitCheck, .sending)
  | .startEnter _, .error e => (.done (.fetchFailed e), .buffered (some e))
  | _, .ok _ => (.waitCheck, s.ready)
  | _, .error e => (.done (.submitFailed e), s.ready)

/-- The system call of `SubmitAndWait` or `Submit`, made with `count`. -/
def enterWith (s : World β) (count : UInt32) (wrap : Errno → UringError) (reply : EnterReply) :
    Option (World β) :=
  if reply.Legal count then
    let out := s.ring.enter count wrap reply
    let next := afterEnter s.toCore out.ret
    some { s with
      toCore := { s.toCore.consume out.read with pc := next.1, ready := next.2 }
      ring := out.ring }
  else none

/-- The return of `io_uring_enter`, from either place. -/
def enter (s : World β) (reply : EnterReply) : Option (World β) :=
  match s.pc with
  | .startEnter count => enterWith s count .enterSubmitWait reply
  | .submitEnter count => enterWith s count .enterSubmit reply
  | _ => none

/-- `epoll_wait` returns to `WaitCQE`.  The eventfd is reported only once written. -/
def epoll (s : World β) : EpollReply → Option (World β)
  | .interrupted => if s.pc = .waitEpoll then some { s with pc := .waitCheck } else none
  | .failed e =>
      if s.pc = .waitEpoll then some { s with pc := .done (.waitFailed (.epollWait e)) } else none
  | .events cancelFD =>
      if s.pc = .waitEpoll ∧ (cancelFD → s.efd) then
        some { s with pc := if cancelFD then .done (.waitFailed .cancelled) else .waitCheck }
      else none

/-- One step of the whole. -/
def step (s : World β) : Action → Option (World β)
  | .work => w.work bk s
  | .enter reply => enter s reply
  | .epoll reply => epoll s reply
  | .signal => if s.ready = .sending then some { s with ready := .buffered none } else none
  | .receive =>
      match s.ready with
      | .buffered err => some { s with ready := .received err }
      | _ => none
  | .cancelStore => some { s with ring := s.ring.cancel }
  | .cancelWake => if s.ring.cancelled then some { s with efd := true } else none
  | .issue i req => s.inflight[i]?.map fun c => { s with toCore := s.toCore.issue i c req }
  | .respond i =>
      s.inflight[i]?.bind fun c => (s.serving c.io.tag.toNat).map fun id =>
        { s with toCore := s.toCore.respond c id }
  | .post i res flags =>
      s.inflight[i]?.map fun c =>
        { s with
          toCore := s.toCore.post i (c.cqe res flags)
          ring := s.ring.post (c.cqe res flags) }

/-! ## Starting -/

/-- What the worker finds: the parameters the kernel returned for its ring, whatever the
mapped areas, the memory and the descriptors contain, and the backend's state. -/
structure Boot (β : Type) where
  p : Params
  sq : UInt32
  cq : UInt32
  sqArray : Nat → UInt32
  sqes : Nat → SQE64
  cqes : Nat → CQE
  mem : Nat → UInt8
  descs : Nat → IODesc
  backend : β

/-- `uring.New(depth)` asks for `roundUp2(depth)` entries and the kernel grants them, with at
least as many completion entries; both counts are powers of two. -/
structure Boot.Fits (b : Boot β) (w : Worker) : Prop where
  sqEntries : b.p.sqEntries = roundUp2 w.depth.toUInt32
  cqEntries : b.p.sqEntries ≤ b.p.cqEntries
  cqPow : ∃ k, b.p.cqEntries.toNat = 2 ^ k

/-- The first statement of `init`'s loop. -/
def boot (b : Boot β) : World β where
  pc := .init 0
  ready := .empty
  efd := false
  mem := b.mem
  descs := b.descs
  backend := b.backend
  inflight := []
  serving := fun _ => none
  nextId := 0
  log := []
  ring := Ring.setup b.p b.sq b.cq b.sqArray b.sqes b.cqes

end Worker
end
end Ublk
