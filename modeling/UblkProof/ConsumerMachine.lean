import UblkProof.CompletionQueue
import UblkProof.Runs

/-! # The consumer of a completion queue

`worker.run` and `ctrlCommand` use the completion side of a ring in one pattern: `WaitCQE`, or
a `PeekCQE` that is not nil, returns a pointer into the mapped area; the caller copies the
fields it needs and calls `SeenCQE`.  Meanwhile the kernel fills slots and advances the tail,
and any number of goroutines may be inside `Cancel`.

`Consumer.step` interleaves the three, cut at every access to shared memory.  What a call
returned, what was posted and what was copied is recorded; no step reads the records.  (The
control plane copies `Res` only; the machine copies both fields.)
-/
namespace Ublk

/-- The descriptors `setupCancel` registers with epoll, each under its own number: descriptors
of one process are different non-negative C ints. -/
structure PollSet where
  fd : Int
  cancelFD : Int
  fd_nonneg : 0 ≤ fd
  fd_lt : fd < 2 ^ 31
  cancelFD_nonneg : 0 ≤ cancelFD
  cancelFD_lt : cancelFD < 2 ^ 31
  fd_ne : fd ≠ cancelFD

namespace PollSet

/-- The `Fd` field of an event of the ring. -/
def ringEvent (fds : PollSet) : Int32 := Int32.ofInt fds.fd

/-- The `Fd` field of an event of the eventfd. -/
def cancelEvent (fds : PollSet) : Int32 := Int32.ofInt fds.cancelFD

theorem events_ne (fds : PollSet) : fds.ringEvent ≠ fds.cancelEvent := by
  intro he
  have h := congrArg Int32.toInt he
  have := fds.fd_nonneg
  have := fds.cancelFD_nonneg
  have hr : fds.ringEvent.toInt = fds.fd :=
    Int32.toInt_ofInt_of_le (by omega) (by have := fds.fd_lt; omega)
  have hc : fds.cancelEvent.toInt = fds.cancelFD :=
    Int32.toInt_ofInt_of_le (by omega) (by have := fds.cancelFD_lt; omega)
  exact fds.fd_ne (by rw [← hr, ← hc, h])

end PollSet

/-- Two descriptors, for closed runs. -/
def PollSet.sample : PollSet :=
  ⟨5, 6, by decide, by decide, by decide, by decide, by decide⟩

/-- A ring with two entries in each queue, for closed runs. -/
def Ring.sample (cq : UInt32) : Ring 16 :=
  Ring.setup ⟨2, 2, 0, 0⟩ 0 cq (fun _ => 0) (fun _ => SQE.zero 16) fun _ => ⟨0, 0, 0⟩

/-- Where the consumer is.  The `wait` positions are the statements of `WaitCQE`, the `peek`
positions those of `PeekCQE`, with the value of `head` once it is loaded; at `took`, `copied`
and `read` the caller holds a pointer. -/
inductive CallPC
  | idle
  | waitFlag
  | waitHead
  | waitTail (head : UInt32)
  | waitEpoll
  | waitScan (events : List Int32)
  | peekHead
  | peekTail (head : UInt32)
  | took (idx : Nat)
  | copied (idx : Nat) (userData : UInt64)
  | read
  deriving DecidableEq

/-- Is a `WaitCQE` in progress? -/
def CallPC.waiting : CallPC → Bool
  | .waitFlag | .waitHead | .waitTail _ | .waitEpoll | .waitScan _ => true
  | _ => false

/-- A `WaitCQE` call that returned: whether the cancel flag was set when it began, and its
result, a slot or an error. -/
structure WaitCall where
  late : Bool
  result : Except UringError Nat

/-- A `PeekCQE` call that returned: how many completions had been posted and how many passed
by `SeenCQE` when it loaded the tail, and its result. -/
structure PeekCall where
  posted : Nat
  seen : Nat
  result : Option Nat
  deriving DecidableEq

/-- What the consumer copies of a completion. -/
def CQE.fields (c : CQE) : UInt64 × Int32 := (c.userData, c.res)

/-- A ring with its consumer, the kernel and the callers of `Cancel`.  `written` is the
completion in the slot at the tail while the tail is not yet advanced; `efd` counts what was
written to the eventfd; `begun`, `waking` and `woken` count the `Cancel` calls that have set the
flag, those that are between their two steps, and those that are complete; `late` is whether
the flag was set when the last `WaitCQE` began. -/
structure Consumer (n : Nat) where
  ring : Ring n
  pc : CallPC
  written : Option CQE
  efd : Nat
  begun : Nat
  waking : Nat
  woken : Nat
  late : Bool
  seen : Nat
  posted : List (UInt64 × Int32)
  copies : List (UInt64 × Int32)
  waits : List WaitCall
  peeks : List PeekCall

/-- How `epoll_wait` returns: with an errno, or with events. -/
inductive PollReply
  | errno (e : Errno)
  | events (fds : List Int32)
  deriving DecidableEq

/-- A step of the consumer, of the kernel or of a caller of `Cancel`. -/
inductive CallAction
  /-- The consumer calls `WaitCQE`. -/
  | wait
  /-- The consumer calls `PeekCQE`. -/
  | peek
  /-- The consumer's next statement. -/
  | work
  /-- The return of `epoll_wait`. -/
  | poll (reply : PollReply)
  /-- `r.cancelled.Store(true)`, by a new caller of `Cancel`. -/
  | cancelStore
  /-- A caller's write to the eventfd. -/
  | cancelWake
  /-- The kernel fills the slot at the tail. -/
  | write (c : CQE)
  /-- The kernel advances the tail. -/
  | advance
  deriving DecidableEq

/-- The slot a pointer with this head value refers to. -/
def Ring.cqeSlot {n : Nat} (r : Ring n) (head : UInt32) : Nat := (head &&& r.cqMask).toNat

namespace Consumer
variable {n : Nat}

/-- The events a level-triggered epoll reports: the ring is readable while its completion queue
is not empty, the eventfd once it was written, since nobody reads it. -/
def readyEvents (fds : PollSet) (q : Consumer n) : List Int32 :=
  (if q.ring.cqHead ≠ q.ring.cqTail then [fds.ringEvent] else []) ++
    (if 0 < q.efd then [fds.cancelEvent] else [])

/-- `WaitCQE` returns. -/
def waitReturns (q : Consumer n) (result : Except UringError Nat) : Consumer n :=
  { q with
    waits := q.waits ++ [⟨q.late, result⟩]
    pc := match result with
      | .ok idx => .took idx
      | .error _ => .idle }

/-- `PeekCQE` returns. -/
def peekReturns (q : Consumer n) (result : Option Nat) : Consumer n :=
  { q with
    peeks := q.peeks ++ [⟨q.posted.length, q.seen, result⟩]
    pc := match result with
      | some idx => .took idx
      | none => .idle }

/-- The next statement of the consumer, if it is inside a call or holds a pointer. -/
def work (fds : PollSet) (q : Consumer n) : Option (Consumer n) :=
  match q.pc with
  | .waitFlag =>
      if q.ring.cancelled then some (q.waitReturns (.error .cancelled))
      else some { q with pc := .waitHead }
  | .waitHead => some { q with pc := .waitTail q.ring.cqHead }
  | .waitTail head =>
      if head ≠ q.ring.cqTail then some (q.waitReturns (.ok (q.ring.cqeSlot head)))
      else some { q with pc := .waitEpoll }
  | .waitScan events =>
      if fds.cancelEvent ∈ events then some (q.waitReturns (.error .cancelled))
      else some { q with pc := .waitFlag }
  | .peekHead => some { q with pc := .peekTail q.ring.cqHead }
  | .peekTail head =>
      if head = q.ring.cqTail then some (q.peekReturns none)
      else some (q.peekReturns (some (q.ring.cqeSlot head)))
  | .took idx => some { q with pc := .copied idx (q.ring.cqes idx).userData }
  | .copied idx userData =>
      some { q with copies := q.copies ++ [(userData, (q.ring.cqes idx).res)], pc := .read }
  | .read => some { q with ring := q.ring.seenCQE, seen := q.seen + 1, pc := .idle }
  | .idle | .waitEpoll => none

/-- `epoll_wait` returns.  Its events are ready ones, at least one and, as the buffer has two
entries, at most two. -/
def poll (fds : PollSet) (q : Consumer n) : PollReply → Option (Consumer n)
  | .errno e =>
      if q.pc = .waitEpoll then
        if e = eintr then some { q with pc := .waitFlag }
        else some (q.waitReturns (.error (.epollWait e)))
      else none
  | .events events =>
      if q.pc = .waitEpoll ∧ events ≠ [] ∧ events.length ≤ 2 ∧ events ⊆ q.readyEvents fds then
        some { q with pc := .waitScan events }
      else none

/-- The second step of `Cancel`; the write adds one to the eventfd's counter. -/
def cancelWake (fds : PollSet) (q : Consumer n) : Consumer n :=
  { q with
    efd := if 0 ≤ fds.cancelFD then q.efd + 1 else q.efd
    waking := q.waking - 1
    woken := q.woken + 1 }

/-- One step of the whole.  The kernel starts a completion only while there is room. -/
def step (fds : PollSet) (q : Consumer n) : CallAction → Option (Consumer n)
  | .wait =>
      if q.pc = .idle then some { q with late := q.ring.cancelled, pc := .waitFlag } else none
  | .peek => if q.pc = .idle then some { q with pc := .peekHead } else none
  | .work => q.work fds
  | .poll reply => q.poll fds reply
  | .cancelStore =>
      some { q with ring := q.ring.cancel, begun := q.begun + 1, waking := q.waking + 1 }
  | .cancelWake => if 0 < q.waking then some (q.cancelWake fds) else none
  | .write c =>
      if q.written = none ∧ q.ring.cqTail - q.ring.cqHead < q.ring.cqEntries then
        some { q with ring := q.ring.writeCQE c, written := some c }
      else none
  | .advance =>
      q.written.map fun c =>
        { q with ring := q.ring.advanceTail, written := none, posted := q.posted ++ [c.fields] }

/-- A ring nobody has used yet. -/
def start (r : Ring n) : Consumer n where
  ring := r
  pc := .idle
  written := none
  efd := 0
  begun := 0
  waking := 0
  woken := 0
  late := false
  seen := 0
  posted := []
  copies := []
  waits := []
  peeks := []

/-- Every interleaving. -/
def Run (fds : PollSet) (q₀ : Consumer n) (as : List CallAction) (q : Consumer n) : Prop :=
  Runs.Run (step fds) (fun _ _ => True) q₀ as q

/-! ## What a step does -/

/-- The consumer's own steps, one constructor for each way a statement can go. -/
inductive Work (fds : PollSet) (q : Consumer n) : Consumer n → Prop
  | cancelled : q.pc = .waitFlag → q.ring.cancelled = true →
      Work fds q (q.waitReturns (.error .cancelled))
  | notCancelled : q.pc = .waitFlag → q.ring.cancelled = false →
      Work fds q { q with pc := .waitHead }
  | waitHead : q.pc = .waitHead → Work fds q { q with pc := .waitTail q.ring.cqHead }
  | found (head : UInt32) : q.pc = .waitTail head → head ≠ q.ring.cqTail →
      Work fds q (q.waitReturns (.ok (q.ring.cqeSlot head)))
  | block (head : UInt32) : q.pc = .waitTail head → head = q.ring.cqTail →
      Work fds q { q with pc := .waitEpoll }
  | woken (events : List Int32) : q.pc = .waitScan events → fds.cancelEvent ∈ events →
      Work fds q (q.waitReturns (.error .cancelled))
  | again (events : List Int32) : q.pc = .waitScan events → fds.cancelEvent ∉ events →
      Work fds q { q with pc := .waitFlag }
  | peekHead : q.pc = .peekHead → Work fds q { q with pc := .peekTail q.ring.cqHead }
  | peekNil (head : UInt32) : q.pc = .peekTail head → head = q.ring.cqTail →
      Work fds q (q.peekReturns none)
  | peeked (head : UInt32) : q.pc = .peekTail head → head ≠ q.ring.cqTail →
      Work fds q (q.peekReturns (some (q.ring.cqeSlot head)))
  | userData (idx : Nat) : q.pc = .took idx →
      Work fds q { q with pc := .copied idx (q.ring.cqes idx).userData }
  | res (idx : Nat) (userData : UInt64) : q.pc = .copied idx userData →
      Work fds q
        { q with copies := q.copies ++ [(userData, (q.ring.cqes idx).res)], pc := .read }
  | seen : q.pc = .read →
      Work fds q { q with ring := q.ring.seenCQE, seen := q.seen + 1, pc := .idle }

theorem work_cases {fds : PollSet} {q q' : Consumer n} (h : q.work fds = some q') :
    Work fds q q' := by
  cases hpc : q.pc with
  | idle => simp only [work, hpc] at h; cases h
  | waitEpoll => simp only [work, hpc] at h; cases h
  | waitFlag =>
    simp only [work, hpc] at h
    cases hc : q.ring.cancelled <;> rw [hc] at h <;> cases h
    · exact .notCancelled hpc hc
    · exact .cancelled hpc hc
  | waitHead => simp only [work, hpc] at h; cases h; exact .waitHead hpc
  | waitTail head =>
    simp only [work, hpc] at h
    split_ifs at h with he <;> cases h
    · exact .found head hpc he
    · exact .block head hpc (not_not.mp he)
  | waitScan events =>
    simp only [work, hpc] at h
    split_ifs at h with he <;> cases h
    · exact .woken events hpc he
    · exact .again events hpc he
  | peekHead => simp only [work, hpc] at h; cases h; exact .peekHead hpc
  | peekTail head =>
    simp only [work, hpc] at h
    split_ifs at h with he <;> cases h
    · exact .peekNil head hpc he
    · exact .peeked head hpc he
  | took idx => simp only [work, hpc] at h; cases h; exact .userData idx hpc
  | copied idx userData => simp only [work, hpc] at h; cases h; exact .res idx userData hpc
  | read => simp only [work, hpc] at h; cases h; exact .seen hpc

/-- All steps. -/
inductive Step (fds : PollSet) (q : Consumer n) : Consumer n → Prop
  | wait : q.pc = .idle → Step fds q { q with late := q.ring.cancelled, pc := .waitFlag }
  | peek : q.pc = .idle → Step fds q { q with pc := .peekHead }
  | work {q' : Consumer n} : Work fds q q' → Step fds q q'
  | interrupted : q.pc = .waitEpoll → Step fds q { q with pc := .waitFlag }
  | failed (e : Errno) : q.pc = .waitEpoll → Step fds q (q.waitReturns (.error (.epollWait e)))
  | events (events : List Int32) : q.pc = .waitEpoll → (∀ e ∈ events, e ∈ q.readyEvents fds) →
      Step fds q { q with pc := .waitScan events }
  | cancelStore :
      Step fds q { q with ring := q.ring.cancel, begun := q.begun + 1, waking := q.waking + 1 }
  | cancelWake : 0 < q.waking → Step fds q (q.cancelWake fds)
  | write (c : CQE) : q.written = none → q.ring.cqTail - q.ring.cqHead < q.ring.cqEntries →
      Step fds q { q with ring := q.ring.writeCQE c, written := some c }
  | advance (c : CQE) : q.written = some c →
      Step fds q
        { q with ring := q.ring.advanceTail, written := none, posted := q.posted ++ [c.fields] }

theorem step_cases {fds : PollSet} {q q' : Consumer n} {a : CallAction}
    (h : step fds q a = some q') : Step fds q q' := by
  cases a with
  | wait => simp only [step] at h; split_ifs at h with hpc; cases h; exact .wait hpc
  | peek => simp only [step] at h; split_ifs at h with hpc; cases h; exact .peek hpc
  | work => exact .work (work_cases h)
  | poll reply =>
    cases reply with
    | errno e =>
      simp only [step, poll] at h
      split_ifs at h with hpc he <;> cases h
      · exact .interrupted hpc
      · exact .failed e hpc
    | events events =>
      simp only [step, poll] at h
      split_ifs at h with hev
      cases h
      exact .events events hev.1 hev.2.2.2
  | cancelStore => cases h; exact .cancelStore
  | cancelWake => simp only [step] at h; split_ifs at h with hw; cases h; exact .cancelWake hw
  | write c => simp only [step] at h; split_ifs at h with hw; cases h; exact .write c hw.1 hw.2
  | advance =>
    obtain ⟨c, hc, rfl⟩ := Option.map_eq_some_iff.mp h
    exact .advance c hc

end Consumer
end Ublk
