import UblkProof.CircularBuffer

/-! # The io_uring wrapper

`ublk/uring` maps three areas shared with the kernel: the submission ring (head,
tail, an index array), the submission entries themselves, and the completion ring.
All counters are free-running `uint32`s.  Next to the shared tail, `Ring` keeps two
private counters: entries between `sqeLocalHead` and `sqeLocalTail` have been handed
out by `GetSQE` and not yet published by `flushSQ`.

`SQE128` and `SQE64` differ only in the length of their command area, and a ring's
stride is the size of its entry type, so one development over that length `n` serves
both: `Ring 80` is what `NewSQE128` builds and `Ring 16` what `New` builds.

The second half is the kernel's side: reading published entries through the index
array (`consume`, inside `io_uring_enter`) and posting completions (`post`).
-/
namespace Ublk

/-! ## Entries -/

/-- A submission queue entry with an `n`-byte command area. -/
structure SQE (n : Nat) where
  opcode : UInt8
  flags : UInt8
  ioprio : UInt16
  fd : Int32
  off : UInt64
  addr : UInt64
  len : UInt32
  opFlags : UInt32
  userData : UInt64
  bufIndex : UInt16
  personality : UInt16
  spliceFdIn : Int32
  cmd : Fin n → UInt8
  deriving DecidableEq

/-- An entry of the worker's ring. -/
abbrev SQE64 := SQE 16

/-- An entry of the control ring. -/
abbrev SQE128 := SQE 80

/-- The zero value, `SQE64{}` or `SQE128{}`. -/
def SQE.zero (n : Nat) : SQE n := ⟨0, 0, 0, 0, 0, 0, 0, 0, 0, 0, 0, 0, fun _ => 0⟩

/-- `unsafe.Sizeof`: 48 bytes of fixed fields, then the command area. -/
def sqeSize (n : Nat) : Nat := 48 + n

/-- A completion. -/
structure CQE where
  userData : UInt64
  res : Int32
  flags : UInt32
  deriving DecidableEq

/-- The bytes of a completion. -/
def cqeSize : Nat := 16

/-- `IORING_OP_URING_CMD`. -/
def opUringCmd : UInt8 := 46

/-- Error numbers, without the sign. -/
abbrev Errno := Nat

/-- `unix.EINTR`. -/
def eintr : Errno := 4

/-- The errors of the wrapper's queue operations. -/
inductive UringError
  | cancelled
  | enterSubmit (errno : Errno)
  | enterSubmitWait (errno : Errno)
  | epollWait (errno : Errno)
  deriving DecidableEq

/-- The text in front of the wrapped errno. -/
def UringError.text : UringError → String
  | .cancelled => "uring: cancelled"
  | .enterSubmit _ => "io_uring_enter submit"
  | .enterSubmitWait _ => "io_uring_enter submit+wait"
  | .epollWait _ => "epoll_wait"

/-! ## The ring -/

/-- What `io_uring_setup` fills in and the wrapper reads. -/
structure Params where
  sqEntries : UInt32
  cqEntries : UInt32
  sqOffArray : UInt32
  cqOffCqes : UInt32
  deriving DecidableEq

/-- An io_uring instance.  `sqHead`, `sqTail`, `sqMask`, `sqArray`, `sqes` and their
completion counterparts are shared memory; slots of an area are numbered, slot `i` of
`sqes` being the bytes from `i * sqeSize n` on.  `mmapSQ`, `mmapCQ` and `mmapSQEs` are
the lengths of the mappings. -/
structure Ring (n : Nat) where
  p : Params
  cancelled : Bool
  sqHead : UInt32
  sqTail : UInt32
  sqMask : UInt32
  sqArray : Nat → UInt32
  sqes : Nat → SQE n
  sqeLocalHead : UInt32
  sqeLocalTail : UInt32
  sqEntries : UInt32
  cqHead : UInt32
  cqTail : UInt32
  cqMask : UInt32
  cqes : Nat → CQE
  cqEntries : UInt32
  mmapSQ : Nat
  mmapCQ : Nat
  mmapSQEs : Nat

/-- `bits.Len32`. -/
def len32 (v : UInt32) : Nat := if v = 0 then 0 else v.toNat.log2 + 1

/-- The shift is computed before truncation: `1 << 32` is `0` as a `uint32`. -/
def roundUp2 (v : UInt32) : UInt32 :=
  if v ≤ 1 then 1 else UInt32.ofNat (1 <<< len32 (v - 1))

/-- The mapping sizes of `mmapRings`. -/
def Params.sqRingSize (p : Params) : Nat := p.sqOffArray.toNat + p.sqEntries.toNat * 4

/-- The length of the completion ring's mapping. -/
def Params.cqRingSize (p : Params) : Nat := p.cqOffCqes.toNat + p.cqEntries.toNat * cqeSize

/-- The length of the entry area's mapping. -/
def Params.sqesSize (p : Params) (n : Nat) : Nat := p.sqEntries.toNat * sqeSize n

namespace Ring
variable {n : Nat}

/-- A new ring, over whatever the shared areas contain.  The kernel reports masks one below
the entry counts; both queues are empty, with all their counters at `sq` and `cq`.  The ring
that `setup` returns has `sqeLocalHead` and `sqeLocalTail` at `0`, and the kernel starts its
counters there: it is the one with `sq = 0`.  The others stand for a ring whose counters have
come that far. -/
def setup (p : Params) (sq cq : UInt32) (sqArray : Nat → UInt32) (sqes : Nat → SQE n)
    (cqes : Nat → CQE) : Ring n where
  p := p
  cancelled := false
  sqHead := sq
  sqTail := sq
  sqMask := p.sqEntries - 1
  sqArray := sqArray
  sqes := sqes
  sqeLocalHead := sq
  sqeLocalTail := sq
  sqEntries := p.sqEntries
  cqHead := cq
  cqTail := cq
  cqMask := p.cqEntries - 1
  cqes := cqes
  cqEntries := p.cqEntries
  mmapSQ := p.sqRingSize
  mmapCQ := p.cqRingSize
  mmapSQEs := p.sqesSize n

/-! ### Submission -/

/-- The slot after `sqeLocalTail`, or `none` if the queue is full.  The kernel's head
is read only when the private distance says full. -/
def nextSQE (r : Ring n) : Option Nat × Ring n :=
  let head := r.sqeLocalHead
  let tail := r.sqeLocalTail
  let idx := (tail &&& r.sqMask).toNat
  if tail - head ≥ r.sqEntries then
    let head := r.sqHead
    let r := { r with sqeLocalHead := head }
    if tail - head ≥ r.sqEntries then
      (none, r)
    else
      (some idx, { r with sqeLocalTail := tail + 1 })
  else
    (some idx, { r with sqeLocalTail := tail + 1 })

/-- Store through a pointer into the entry area. -/
def writeSQE (r : Ring n) (idx : Nat) (sqe : SQE n) : Ring n :=
  { r with sqes := Function.update r.sqes idx sqe }

/-- `GetSQE64` and `GetSQE128`: the next slot, zeroed. -/
def getSQE (r : Ring n) : Option Nat × Ring n :=
  match r.nextSQE with
  | (none, r) => (none, r)
  | (some idx, r) => (some idx, r.writeSQE idx (SQE.zero n))

/-- The index array slots `flushSQ` stores to, in loop order. -/
def flushSlots (r : Ring n) : List UInt32 :=
  (List.range (r.sqeLocalTail - r.sqeLocalHead).toNat).map
    fun i => (r.sqeLocalHead + UInt32.ofNat i) &&& r.sqMask

/-- The entries handed out and not yet published. -/
def unpublished (r : Ring n) : List (SQE n) := r.flushSlots.map fun idx => r.sqes idx.toNat

/-- Publish the entries handed out since the last flush, and count them. -/
def flushSQ (r : Ring n) : UInt32 × Ring n :=
  let tail := r.sqeLocalTail
  let count := tail - r.sqeLocalHead
  if count = 0 then
    (0, r)
  else
    (count, { r with
      sqArray := r.flushSlots.foldl (fun a idx => Function.update a idx.toNat idx) r.sqArray
      sqTail := tail
      sqeLocalHead := tail })

/-! ### The kernel's side of submission -/

/-- The kernel reads one published entry, through the index array. -/
def consumeOne (r : Ring n) : SQE n × Ring n :=
  let idx := r.sqArray (r.sqHead &&& r.sqMask).toNat
  (r.sqes idx.toNat, { r with sqHead := r.sqHead + 1 })

/-- The kernel reads `k` published entries, in ring order. -/
def consume (r : Ring n) : Nat → List (SQE n) × Ring n
  | 0 => ([], r)
  | k + 1 =>
      let (sqe, r) := r.consumeOne
      let (sqes, r) := r.consume k
      (sqe :: sqes, r)

theorem consume_snd : ∀ (k : Nat) (r : Ring n),
    (r.consume k).2 = { r with sqHead := r.sqHead + UInt32.ofNat k }
  | 0, r => by
      show r = { r with sqHead := r.sqHead + 0 }
      rw [UInt32.add_zero]
  | k + 1, r => by
      show (r.consumeOne.2.consume k).2 = _
      rw [consume_snd k, Nat.add_comm k 1, UInt32.ofNat_add, ← UInt32.add_assoc]
      rfl

/-- The slots of the entries that are published and not yet consumed. -/
def unconsumedSlots (r : Ring n) : List Nat :=
  (List.range (r.sqTail - r.sqHead).toNat).map
    fun i => ((r.sqHead + UInt32.ofNat i) &&& r.sqMask).toNat

/-- The entries themselves, as the kernel will find them. -/
def unconsumed (r : Ring n) : List (SQE n) :=
  r.unconsumedSlots.map fun slot => r.sqes (r.sqArray slot).toNat

/-- How `io_uring_enter` replies: it consumed `k` entries, or it failed and consumed
none. -/
inductive EnterReply
  | consumed (k : Nat)
  | errno (e : Errno)
  deriving DecidableEq

/-- How many entries a reply took. -/
def EnterReply.amount : EnterReply → Nat
  | .consumed k => k
  | .errno _ => 0

/-- What the wrapper's caller is told, with the error its errno is wrapped in. -/
def EnterReply.ret (wrap : Errno → UringError) : EnterReply → Except UringError Nat
  | .consumed k => .ok k
  | .errno e => .error (wrap e)

/-- The kernel consumes at most the `to_submit` entries it was asked to. -/
def EnterReply.Legal (count : UInt32) : EnterReply → Prop
  | .consumed k => k ≤ count.toNat
  | .errno _ => True

instance (count : UInt32) : DecidablePred (EnterReply.Legal count)
  | .consumed k => inferInstanceAs (Decidable (k ≤ count.toNat))
  | .errno _ => inferInstanceAs (Decidable True)

/-- The outcome of `Submit` and `SubmitAndWait`: the ring afterwards, the entries the
kernel read, the `to_submit` count of the system call if one was made, and the value
returned. -/
structure Submitted (n : Nat) where
  ring : Ring n
  read : List (SQE n)
  toSubmit : Option UInt32
  ret : Except UringError Nat

/-- The system call. -/
def enter (r : Ring n) (count : UInt32) (wrap : Errno → UringError) (reply : EnterReply) :
    Submitted n :=
  let (sqes, r) := r.consume reply.amount
  ⟨r, sqes, some count, reply.ret wrap⟩

/-- `Submit`: with nothing to flush there is no system call. -/
def submit (r : Ring n) (reply : EnterReply) : Submitted n :=
  let (count, r) := r.flushSQ
  if count = 0 then ⟨r, [], none, .ok 0⟩ else r.enter count .enterSubmit reply

/-- `SubmitAndWait`: the system call is always made. -/
def submitAndWait (r : Ring n) (reply : EnterReply) : Submitted n :=
  let (count, r) := r.flushSQ
  r.enter count .enterSubmitWait reply

/-! ### Frames

What the submission operations leave alone: each result is the old ring with only the
named fields replaced. -/

theorem getSQE_frame (r : Ring n) : r.getSQE.2 = { r with
    sqes := r.getSQE.2.sqes
    sqeLocalHead := r.getSQE.2.sqeLocalHead
    sqeLocalTail := r.getSQE.2.sqeLocalTail } := by
  simp only [getSQE, nextSQE]
  split_ifs <;> rfl

theorem flushSQ_frame (r : Ring n) : r.flushSQ.2 = { r with
    sqArray := r.flushSQ.2.sqArray
    sqTail := r.flushSQ.2.sqTail
    sqeLocalHead := r.flushSQ.2.sqeLocalHead } := by
  simp only [flushSQ]
  split_ifs <;> rfl

theorem enter_frame (r : Ring n) (count : UInt32) (wrap : Errno → UringError) (reply : EnterReply) :
    (r.enter count wrap reply).ring =
      { r with sqHead := (r.enter count wrap reply).ring.sqHead } := by
  show (r.consume reply.amount).2 = { r with sqHead := (r.consume reply.amount).2.sqHead }
  rw [consume_snd]

/-! ### Completion -/

/-- The kernel posts a completion. -/
def post (r : Ring n) (c : CQE) : Ring n :=
  { r with
    cqes := Function.update r.cqes (r.cqTail &&& r.cqMask).toNat c
    cqTail := r.cqTail + 1 }

/-- The first half of `post`: the slot at the tail. -/
def writeCQE (r : Ring n) (c : CQE) : Ring n :=
  { r with cqes := Function.update r.cqes (r.cqTail &&& r.cqMask).toNat c }

/-- The second half of `post`. -/
def advanceTail (r : Ring n) : Ring n := { r with cqTail := r.cqTail + 1 }

theorem post_eq (r : Ring n) (c : CQE) : r.post c = (r.writeCQE c).advanceTail := rfl

/-- The slot of the oldest unread completion, or `none`.  A `*CQE` is a slot: its
contents are read from the shared area when it is dereferenced. -/
def peekCQE (r : Ring n) : Option Nat :=
  if r.cqHead = r.cqTail then none else some (r.cqHead &&& r.cqMask).toNat

/-- `SeenCQE`. -/
def seenCQE (r : Ring n) : Ring n := { r with cqHead := r.cqHead + 1 }

/-- The completions posted and not yet passed by `SeenCQE`. -/
def unread (r : Ring n) : List CQE :=
  (List.range (r.cqTail - r.cqHead).toNat).map
    fun i => r.cqes ((r.cqHead + UInt32.ofNat i) &&& r.cqMask).toNat

/-- `Cancel`'s store.  Its eventfd write is not part of the ring's state. -/
def cancel (r : Ring n) : Ring n := { r with cancelled := true }

end Ring

/-- How `epoll_wait` replies. -/
inductive EpollReply
  | interrupted
  | failed (e : Errno)
  /-- Events; does one of them name the cancel eventfd? -/
  | events (cancelFD : Bool)
  deriving DecidableEq

end Ublk
