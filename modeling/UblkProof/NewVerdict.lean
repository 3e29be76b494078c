import UblkProof.Attempts
import UblkProof.ControlDiscipline
import UblkProof.ControlLine

/-! # What an error of `New` says

`New` makes some thirty fallible calls, and each failure is followed by a cleanup that makes more.
`newScript` is what its verdict is meant to be: the calls in order, with the text each error is
wrapped in.  A control command is three of them, `io_uring_enter`, the wait and what the driver
answers.  Three kinds of failure are excused: the first form of `ADD_DEV`, a character device that
is not there yet and an interrupted wait.

`new_verdict` says that the code returns that verdict: the error is the one of the first call that
was not excused, and what the cleanup meets makes no difference.  It assumes that the first form of
`ADD_DEV` is answered.  If it fails because one of its system calls does, the code goes on with a
ring on which every later command is given the answer to the one before it.
-/
namespace Ublk
open Attempts

/-- The errno an error was made for; of the two of `ADD_DEV`, the second. -/
def Fault.cause : Fault → Option Errno
  | .text _ => none
  | .errno e => some e
  | .wrap _ inner => inner.cause
  | .addDev _ legacy => legacy.cause

/-! ## The script -/

/-- A call whose error gets this text. -/
def called (text : String) : Script Errno Fault := .once fun e => .wrap text (.errno e)

/-- `mmapRings`. -/
def mmapScript : Script Errno Fault :=
  (called "mmap SQ ring").andThen <| (called "mmap CQ ring").andThen <| called "mmap SQEs"

/-- `setupCancel`. -/
def cancelScript : Script Errno Fault :=
  (called "eventfd").andThen <| (called "epoll_create1").andThen <|
    (called "epoll_ctl").andThen <| called "epoll_ctl"

/-- `uring.New` and `uring.NewSQE128`. -/
def ringScript : Script Errno Fault :=
  (called "io_uring_setup").andThen <| mmapScript.andThen cancelScript

/-- The attempts of `openCharDev`. -/
def openScript (path : String) : Nat → Errno → Script Errno Fault :=
  .upTo (· = enoent) (fun e => .wrap ("open " ++ path) (.errno e)) fun e =>
    .wrap ("char device " ++ path ++ " not created") (.errno e)

/-- A control command: `Submit`, `WaitCQE` and the completion. -/
def ctrlScript (cmdOp : UInt32) : Script Errno Fault :=
  (Script.once fun e => .wrap (UringError.enterSubmit e).text (.errno e)).andThen <|
  (Script.onceBut (· = eintr) fun e => .wrap (UringError.epollWait e).text (.errno e)).andThen <|
  called (ctrlCmdText cmdOp)

/-- `New` with a device, added by the one or the other form of `ADD_DEV`. -/
def addedScript (useIoctl : Bool) (id : Int) : Script Errno Fault :=
  ((openScript ("/dev/ublkc" ++ toString id) 50 0).wrap (.wrap "open char device")).andThen <|
  ((ctrlScript (if useIoctl then uCmdSetParams else cmdSetParams)).wrap
    (.wrap "set params")).andThen <|
  ((ringScript.andThen (.once .errno)).wrap (.wrap "init queue")).andThen <|
  ((Script.once fun e => .wrap (UringError.enterSubmitWait e).text (.errno e)).wrap
    (.wrap "submit FETCH")).andThen <|
  (ctrlScript (if useIoctl then uCmdStartDev else cmdStartDev)).wrap (.wrap "start device")

/-- `openDevice`. -/
def openDeviceScript : Script Errno Fault :=
  (called "open /dev/ublk-control").andThen (ringScript.wrap (.wrap "create control ring"))

/-- Both forms of `ADD_DEV`, and what follows each. -/
def addScript (added : Bool → Script Errno Fault) : Script Errno Fault :=
  (ctrlScript uCmdAddDev).attempt (added true) fun err =>
    (ctrlScript cmdAddDev).attempt (added false) fun err2 =>
      .report (.wrap "add device" (.addDev err err2))

/-- `New` after the checks of its arguments; `id` is the number of the device. -/
def newScript (id : Int) : Script Errno Fault :=
  openDeviceScript.andThen (addScript fun useIoctl => addedScript useIoctl id)

theorem names_called (text : String) (last : Option Errno) :
    (called text).Names Fault.cause last := Script.names_once Fault.cause (fun _ => rfl) last

theorem names_ringScript (last : Option Errno) : ringScript.Names Fault.cause last := by
  have hmmap : ∀ last, mmapScript.Names Fault.cause last := fun last =>
    Script.names_andThen _ (names_called _ last) fun _ =>
      Script.names_andThen _ (names_called _ _) (names_called _)
  have hcancel : ∀ last, cancelScript.Names Fault.cause last := fun last =>
    Script.names_andThen _ (names_called _ last) fun _ =>
      Script.names_andThen _ (names_called _ _) fun _ =>
        Script.names_andThen _ (names_called _ _) (names_called _)
  exact Script.names_andThen _ (names_called _ last) fun _ =>
    Script.names_andThen _ (hmmap _) hcancel

theorem names_ctrlScript (cmdOp : UInt32) (last : Option Errno) :
    (ctrlScript cmdOp).Names Fault.cause last :=
  Script.names_andThen _ (Script.names_once Fault.cause (fun _ => rfl) last) fun _ =>
    Script.names_andThen _ (Script.names_onceBut Fault.cause _ (fun _ => rfl) _) (names_called _)

theorem names_addedScript (useIoctl : Bool) (id : Int) (last : Option Errno) :
    (addedScript useIoctl id).Names Fault.cause last := by
  have hwrap : ∀ text (s : Script Errno Fault), (∀ last, s.Names Fault.cause last) →
      ∀ last, (s.wrap (.wrap text)).Names Fault.cause last :=
    fun text s hs last => Script.names_wrap (fun _ => rfl) s (hs last)
  have hinit : ∀ last, (ringScript.andThen (.once .errno)).Names Fault.cause last := fun last =>
    Script.names_andThen _ (names_ringScript last) (Script.names_once _ fun _ => rfl)
  have hopen : ∀ path last, (openScript path 50 0).Names Fault.cause last := fun path last =>
    Script.names_upTo Fault.cause (fun _ => rfl) (fun _ => rfl) 49 0 last
  unfold addedScript
  refine Script.names_andThen _ (hwrap _ _ (hopen _) last) fun _ => ?_
  refine Script.names_andThen _ (hwrap _ _ (names_ctrlScript _) _) fun _ => ?_
  refine Script.names_andThen _ (hwrap _ _ hinit _) fun _ => ?_
  refine Script.names_andThen _ (hwrap _ _ (fun _ => ?_) _) fun _ => ?_
  · exact Script.names_once Fault.cause (fun _ => rfl) _
  · exact hwrap _ _ (names_ctrlScript _) _

theorem names_newScript (id : Int) : (newScript id).Names Fault.cause none := by
  have hopen : openDeviceScript.Names Fault.cause none :=
    Script.names_andThen _ (names_called _ none) fun _ =>
      Script.names_wrap (fun _ => rfl) _ (names_ringScript _)
  refine Script.names_andThen _ hopen fun _ => ?_
  refine Script.names_attempt _ (names_ctrlScript _ _) (names_addedScript true id) fun err _ _ => ?_
  exact Script.names_attempt _ (names_ctrlScript _ _) (names_addedScript false id) fun _ _ h => h

/-! ## The code follows it -/

/-- From `k` the script comes to the verdict `err`; if that is none, it has made the calls that
were made on the way to `k'`, and `acquired` of them gave a number. -/
def Kernel.Meets (k : Kernel) (s : Script Errno Fault) (acquired : Nat) (k' : Kernel) :
    Option Fault → Prop
  | some err => ∃ n, run k.plan s k.clock = .error (n, err)
  | none => run k.plan s k.clock = .ok k'.clock ∧ k'.plan = k.plan ∧
      k'.book.next = k.book.next + acquired

namespace Kernel
variable {k k1 k2 k' : Kernel} {s t : Script Errno Fault} {a b : Nat} {err : Option Fault}
  {f : Fault}

/-- Whatever is done after a failure. -/
theorem Meets.failed (h : k.Meets s a k1 (some f)) : k.Meets (s.andThen t) b k2 (some f) := by
  obtain ⟨n, hn⟩ := h
  exact ⟨n, by rw [run_andThen, hn]⟩

theorem Meets.wrap (h : k.Meets s a k' err) (g : Fault → Fault) :
    k.Meets (s.wrap g) a k' (err.map g) := by
  cases err with
  | some f =>
    obtain ⟨n, hn⟩ := h
    exact ⟨n, by rw [run_wrap, hn]⟩
  | none => exact ⟨by rw [run_wrap, h.1], h.2⟩

/-- One call has been made, and given `a` numbers. -/
structure Called (k : Kernel) (a : Nat) (k' : Kernel) : Prop where
  plan : k'.plan = k.plan
  clock : k'.clock = k.clock + 1
  next : k'.book.next = k.book.next + a

/-- The verdict is up to what follows. -/
theorem Meets.of_run (h : k1.Meets t b k' err)
    (hrun : run k.plan s k.clock = run k1.plan t k1.clock) (hplan : k1.plan = k.plan)
    (hnext : k1.book.next = k.book.next + a) : k.Meets s (a + b) k' err := by
  cases err with
  | some f =>
    obtain ⟨n, hn⟩ := h
    exact ⟨n, hrun.trans hn⟩
  | none => exact ⟨hrun.trans h.1, h.2.1.trans hplan, by rw [h.2.2, hnext, Nat.add_assoc]⟩

theorem Meets.andThen (h : k.Meets s a k1 none) (h' : k1.Meets t b k2 err) :
    k.Meets (s.andThen t) (a + b) k2 err :=
  h'.of_run (by rw [run_andThen, h.1, h.2.1]) h.2.1 h.2.2

theorem Meets.call_passed {passed : Script Errno Fault} (failed : Errno → Script Errno Fault)
    (h : k1.Meets passed b k' err) (hk : k.Called a k1) (hp : k.plan k.clock = none) :
    k.Meets (.call passed failed) (a + b) k' err :=
  h.of_run (by rw [run, hp, hk.plan, hk.clock]) hk.plan hk.next

theorem Meets.call_failed (passed : Script Errno Fault) (failed : Errno → Script Errno Fault)
    {e : Errno} (h : k1.Meets (failed e) b k' err) (hk : k.Called 0 k1)
    (hp : k.plan k.clock = some e) : k.Meets (.call passed failed) b k' err := by
  have hrun : run k.plan (.call passed failed) k.clock = run k1.plan (failed e) k1.clock := by
    rw [run, hp, hk.plan, hk.clock]
  have h' := h.of_run hrun hk.plan hk.next
  rwa [Nat.zero_add] at h'

/-- Nothing is left to do. -/
theorem meets_done (k : Kernel) : k.Meets .done 0 k none := ⟨rfl, rfl, rfl⟩

/-- The last call is to blame. -/
theorem meets_report (k : Kernel) (f : Fault) (a : Nat) (k' : Kernel) :
    k.Meets (.report f) a k' (some f) := ⟨_, rfl⟩

theorem outcome_called (k : Kernel) :
    (∃ e k', k.outcome = (some e, k') ∧ k.Called 0 k' ∧ k.plan k.clock = some e) ∨
      ∃ k', k.outcome = (none, k') ∧ k.Called 0 k' ∧ k.plan k.clock = none := by
  rcases hp : k.plan k.clock with _ | e
  · exact .inr ⟨_, Prod.ext hp rfl, ⟨rfl, rfl, rfl⟩, rfl⟩
  · exact .inl ⟨e, _, Prod.ext hp rfl, ⟨rfl, rfl, rfl⟩, rfl⟩

theorem acquire_called (k : Kernel) (r : Resource) :
    (∃ e k', k.acquire r = (.error e, k') ∧ k.Called 0 k' ∧ k.plan k.clock = some e) ∨
      ∃ h k', k.acquire r = (.ok h, k') ∧ k.Called 1 k' ∧ k.plan k.clock = none := by
  rcases k.outcome_called with ⟨e, k', he, hk, hp⟩ | ⟨k', he, hk, hp⟩
  · exact .inl ⟨e, k', by rw [acquire, he], hk, hp⟩
  · refine .inr ⟨(k'.book.acquire r).1, { k' with book := (k'.book.acquire r).2 }, ?_,
      ⟨hk.plan, hk.clock, congrArg (· + 1) hk.next⟩, hp⟩
    rw [acquire, he]

theorem outcome_meets (k : Kernel) (blame : Errno → Fault) :
    (∃ e k', k.outcome = (some e, k') ∧ k.Meets (.once blame) 0 k' (some (blame e))) ∨
      ∃ k', k.outcome = (none, k') ∧ k.Meets (.once blame) 0 k' none := by
  rcases k.outcome_called with ⟨e, k', he, hk, hp⟩ | ⟨k', he, hk, hp⟩
  · exact .inl ⟨e, k', he, .call_failed .done _ (k'.meets_report (blame e) 0 _) hk hp⟩
  · exact .inr ⟨k', he, k'.meets_done.call_passed _ hk hp⟩

theorem acquire_meets (k : Kernel) (r : Resource) (blame : Errno → Fault) :
    (∃ e k', k.acquire r = (.error e, k') ∧ k.Meets (.once blame) 1 k' (some (blame e))) ∨
      ∃ h k', k.acquire r = (.ok h, k') ∧ k.Meets (.once blame) 1 k' none := by
  rcases k.acquire_called r with ⟨e, k', he, hk, hp⟩ | ⟨h, k', he, hk, hp⟩
  · exact .inl ⟨e, k', he, .call_failed .done _ (k'.meets_report (blame e) 1 _) hk hp⟩
  · exact .inr ⟨h, k', he, k'.meets_done.call_passed _ hk hp⟩

end Kernel

namespace RingHandles
variable (k : Kernel)

theorem mmapRings_meets (r : RingHandles) :
    (∃ err r' k', r.mmapRings k = (some err, r', k') ∧ k.Meets mmapScript 3 k' (some err)) ∨
      ∃ r' k', r.mmapRings k = (none, r', k') ∧ k.Meets mmapScript 3 k' none := by
  rcases k.acquire_meets (.ring r.owner .mmapSQ) (fun e => .wrap "mmap SQ ring" (.errno e)) with
    ⟨e, k1, he1, h1⟩ | ⟨_, k1, he1, h1⟩ <;> simp only [mmapRings, he1]
  · exact .inl ⟨_, _, _, rfl, h1.failed⟩
  rcases k1.acquire_meets (.ring r.owner .mmapCQ) (fun e => .wrap "mmap CQ ring" (.errno e)) with
    ⟨e, k2, he2, h2⟩ | ⟨_, k2, he2, h2⟩ <;> simp only [he2]
  · exact .inl ⟨_, _, _, rfl, h1.andThen (b := 2) h2.failed⟩
  rcases k2.acquire_meets (.ring r.owner .mmapSQEs) (fun e => .wrap "mmap SQEs" (.errno e)) with
    ⟨e, k3, he3, h3⟩ | ⟨_, k3, he3, h3⟩ <;> simp only [he3]
  · exact .inl ⟨_, _, _, rfl, h1.andThen (h2.andThen h3)⟩
  · exact .inr ⟨_, _, rfl, h1.andThen (h2.andThen h3)⟩

/-- Both descriptors are added. -/
theorem epollAdd_meets (fd fd' : Int) :
    (∃ err k', epollAdd k [fd, fd'] = (some err, k') ∧
        k.Meets ((called "epoll_ctl").andThen (called "epoll_ctl")) 0 k' (some err)) ∨
      ∃ k', epollAdd k [fd, fd'] = (none, k') ∧
        k.Meets ((called "epoll_ctl").andThen (called "epoll_ctl")) 0 k' none := by
  rcases k.outcome_meets (fun e => .wrap "epoll_ctl" (.errno e)) with
    ⟨e, k1, he1, h1⟩ | ⟨k1, he1, h1⟩ <;> simp only [epollAdd, he1]
  · exact .inl ⟨_, _, rfl, h1.failed⟩
  rcases k1.outcome_meets (fun e => .wrap "epoll_ctl" (.errno e)) with
    ⟨e, k2, he2, h2⟩ | ⟨k2, he2, h2⟩ <;> simp only [he2]
  · exact .inl ⟨_, _, rfl, h1.andThen h2⟩
  · exact .inr ⟨_, rfl, h1.andThen h2⟩

theorem setupCancel_meets (r : RingHandles) :
    (∃ err r' k', r.setupCancel k = (some err, r', k') ∧ k.Meets cancelScript 2 k' (some err)) ∨
      ∃ r' k', r.setupCancel k = (none, r', k') ∧ k.Meets cancelScript 2 k' none := by
  rcases k.acquire_meets (.ring r.owner .cancelFD) (fun e => .wrap "eventfd" (.errno e)) with
    ⟨e, k1, he1, h1⟩ | ⟨efd, k1, he1, h1⟩ <;> simp only [setupCancel, he1]
  · exact .inl ⟨_, _, _, rfl, h1.failed⟩
  rcases k1.acquire_meets (.ring r.owner .epollFD) (fun e => .wrap "epoll_create1" (.errno e)) with
    ⟨e, k2, he2, h2⟩ | ⟨epfd, k2, he2, h2⟩ <;> simp only [he2]
  · exact .inl ⟨_, _, _, rfl, h1.andThen (b := 1) h2.failed⟩
  rcases epollAdd_meets k2 r.fd efd with ⟨err, k3, he3, h3⟩ | ⟨k3, he3, h3⟩ <;> simp only [he3]
  · exact .inl ⟨_, _, _, rfl, h1.andThen (h2.andThen h3)⟩
  · exact .inr ⟨_, _, rfl, h1.andThen (h2.andThen h3)⟩

theorem setup_meets (owner : RingOwner) :
    (∃ err k', setup owner k = (.error err, k') ∧ k.Meets ringScript 6 k' (some err)) ∨
      ∃ r k', setup owner k = (.ok r, k') ∧ k.Meets ringScript 6 k' none := by
  rcases k.acquire_meets (.ring owner .fd) (fun e => .wrap "io_uring_setup" (.errno e)) with
    ⟨e, k1, he1, h1⟩ | ⟨fd, k1, he1, h1⟩ <;> simp only [setup, he1]
  · exact .inl ⟨_, _, rfl, h1.failed⟩
  rcases mmapRings_meets k1 ⟨owner, fd, -1, -1, none, none, none⟩ with
    ⟨err, r, k2, he2, h2⟩ | ⟨r, k2, he2, h2⟩ <;> simp only [he2]
  · exact .inl ⟨_, _, rfl, h1.andThen (b := 5) h2.failed⟩
  rcases setupCancel_meets k2 r with ⟨err, r', k3, he3, h3⟩ | ⟨r', k3, he3, h3⟩ <;>
    simp only [he3]
  · exact .inl ⟨_, (r'.close k3).2, rfl, h1.andThen (b := 5) (h2.andThen (b := 2) h3)⟩
  · exact .inr ⟨_, _, rfl, h1.andThen (h2.andThen h3)⟩

end RingHandles

theorem WorkerHandles.init_meets (w : WorkerHandles) (k : Kernel) :
    (∃ err w' k', w.init k = (some err, w', k') ∧
        k.Meets (ringScript.andThen (.once .errno)) 7 k' (some err)) ∨
      ∃ w' k', w.init k = (none, w', k') ∧
        k.Meets (ringScript.andThen (.once .errno)) 7 k' none := by
  rcases RingHandles.setup_meets k .worker with ⟨err, k1, he1, h1⟩ | ⟨r, k1, he1, h1⟩ <;>
    simp only [init, he1]
  · exact .inl ⟨_, _, _, rfl, h1.failed⟩
  rcases k1.acquire_meets .ioDescs Fault.errno with ⟨e, k2, he2, h2⟩ | ⟨m, k2, he2, h2⟩ <;>
    simp only [he2]
  · exact .inl ⟨_, _, _, rfl, h1.andThen (b := 1) h2⟩
  · exact .inr ⟨_, _, rfl, h1.andThen h2⟩

namespace Device
variable {d : Device} {k : Kernel}

/-- A command for a device that is there. -/
theorem ctrlCommand_meets {op : UInt32} (hop : isAddDev op = false ∧ isDelDev op = false)
    (k : Kernel) (id : Int) :
    (∃ err k', ctrlCommand k op id = (.error err, k') ∧
        k.Meets (called (ctrlCmdText op)) 0 k' (some err)) ∨
      ∃ n k', ctrlCommand k op id = (.ok n, k') ∧ k.Meets (called (ctrlCmdText op)) 0 k' none := by
  rcases k.outcome_meets (fun e => .wrap (ctrlCmdText op) (.errno e)) with
    ⟨e, k1, he1, h1⟩ | ⟨k1, he1, h1⟩ <;>
    simp only [ctrlCommand, Kernel.control, he1, hop.1, hop.2, Bool.false_eq_true, if_false]
  · exact .inl ⟨_, _, rfl, h1⟩
  · exact .inr ⟨_, _, rfl, h1⟩

/-- In either form the command is neither `ADD_DEV` nor `DEL_DEV`. -/
theorem ctrlOp_plain (d : Device) {ioctlCmd legacyCmd : UInt32}
    (hioctl : isAddDev ioctlCmd = false ∧ isDelDev ioctlCmd = false)
    (hlegacy : isAddDev legacyCmd = false ∧ isDelDev legacyCmd = false) :
    isAddDev (d.ctrlOp ioctlCmd legacyCmd) = false ∧
      isDelDev (d.ctrlOp ioctlCmd legacyCmd) = false := by
  unfold Device.ctrlOp
  split_ifs
  · exact hioctl
  · exact hlegacy

theorem tryOpen_meets (path : String) (n : Nat) (last : Errno) (k : Kernel) :
    k.Meets (openScript path n last) 1 (d.tryOpen path k n last).2.2
      (d.tryOpen path k n last).1 := by
  induction n generalizing last k with
  | zero => exact k.meets_report _ _ _
  | succ n ih =>
    rcases k.acquire_called .charFD with ⟨e, k1, he, hk, hp⟩ | ⟨fd, k1, he, hk, hp⟩ <;>
      simp only [tryOpen, he]
    · refine Kernel.Meets.call_failed _ _ ?_ hk hp
      by_cases hne : e = enoent
      · rw [if_pos hne, if_pos (decide_eq_true hne)]
        exact ih e k1
      · rw [if_neg hne, if_neg (by simpa using hne)]
        exact k1.meets_report _ _ _
    · exact k1.meets_done.call_passed _ hk hp

theorem openDevice_meets (k : Kernel) :
    (∃ err k', openDevice k = (.error err, k') ∧ k.Meets openDeviceScript 7 k' (some err)) ∨
      ∃ d k', openDevice k = (.ok d, k') ∧ k.Meets openDeviceScript 7 k' none := by
  rcases k.acquire_meets .ctrlFD (fun e => .wrap "open /dev/ublk-control" (.errno e)) with
    ⟨e, k1, he1, h1⟩ | ⟨fd, k1, he1, h1⟩ <;> simp only [openDevice, he1]
  · exact .inl ⟨_, _, rfl, h1.failed⟩
  rcases RingHandles.setup_meets k1 .control with ⟨err, k2, he2, h2⟩ | ⟨r, k2, he2, h2⟩ <;>
    simp only [he2]
  · exact .inl ⟨_, k2.closeFD fd, rfl, h1.andThen (b := 6) (h2.wrap _)⟩
  · exact .inr ⟨_, _, rfl, h1.andThen (h2.wrap _)⟩

/-- `ADD_DEV` in one form; the device has the next number. -/
theorem addCommand_called (op : UInt32) (hadd : isAddDev op = true) (k : Kernel) :
    (∃ e k', ctrlCommand k op (-1) = (.error (.wrap (ctrlCmdText op) (.errno e)), k') ∧
        k.Called 0 k' ∧ k.plan k.clock = some e) ∨
      ∃ k', ctrlCommand k op (-1) = (.ok k.book.next, k') ∧ k.Called 1 k' ∧
        k.plan k.clock = none := by
  rcases hp : k.plan k.clock with _ | e <;>
    simp only [ctrlCommand, Kernel.control, Kernel.outcome, hp, hadd, if_true]
  · exact .inr ⟨_, rfl, ⟨rfl, rfl, rfl⟩, trivial⟩
  · exact .inl ⟨e, _, rfl, ⟨rfl, rfl, rfl⟩, rfl⟩

end Device

/-! ### Control commands -/

/-- The next two calls are `io_uring_enter` and a wait, and neither fails. -/
structure Kernel.RingWorks (plan : Nat → Option Errno) (clock : Nat) : Prop where
  enter : plan clock = none
  wait : (plan (clock + 1)).filter (· ≠ eintr) = none

/-- Then a command is up to the driver. -/
theorem Kernel.RingWorks.run_eq {plan : Nat → Option Errno} {clock : Nat}
    (h : RingWorks plan clock) (op : UInt32) (passed : Script Errno Fault)
    (failed : Fault → Script Errno Fault) :
    run plan ((ctrlScript op).attempt passed failed) clock =
      run plan (.call passed fun e => failed (.wrap (ctrlCmdText op) (.errno e))) (clock + 2) := by
  have hwait := h.wait
  simp only [ctrlScript, Script.once, Script.onceBut, Script.andThen, Script.attempt]
  rw [run, h.enter]
  dsimp only
  rw [run]
  cases hp : plan (clock + 1) with
  | none => rfl
  | some e =>
    rw [hp] at hwait
    obtain rfl : e = eintr := by simpa using hwait
    rfl

namespace CtrlLine
variable {l l' : CtrlLine} {op : UInt32} {id : Int}

/-- The command ends as `Device.ctrlCommand` does from `k2`, two calls later. -/
structure UpToDriver (l : CtrlLine) (op : UInt32) (id : Int) (k2 : Kernel) (l' : CtrlLine) :
    Prop where
  result : l.ctrlCommand op id = ((Device.ctrlCommand k2 op id).1, l')
  kernel : l'.kernel = (Device.ctrlCommand k2 op id).2
  clean : l'.Clean
  book : k2.book = l.kernel.book
  meets : ∀ passed failed a k' err,
    k2.Meets (.call passed fun e => failed (.wrap (ctrlCmdText op) (.errno e))) a k' err →
    l.kernel.Meets ((ctrlScript op).attempt passed failed) a k' err

theorem UpToDriver.eq {k2 k3 : Kernel} {res : Except Fault Nat} (h : l.UpToDriver op id k2 l')
    (he : Device.ctrlCommand k2 op id = (res, k3)) :
    l.ctrlCommand op id = (res, l') ∧ l'.kernel = k3 := by
  rw [h.result, h.kernel, he]
  exact ⟨rfl, rfl⟩

theorem Clean.upToDriver (h : l.Clean) (hk : Kernel.RingWorks l.kernel.plan l.kernel.clock)
    (op : UInt32) (id : Int) : ∃ k2 l', l.UpToDriver op id k2 l' := by
  have henter : l.kernel.outcome = (none, l.kernel.outcome.2) := Prod.ext hk.enter rfl
  obtain ⟨l', he, hclean, hl'⟩ := ctrlCommand_answered h henter rfl hk.wait op id
  refine ⟨_, l', he, hl', hclean, rfl, fun passed failed a k' err hm => ?_⟩
  have := hm.of_run (a := 0) (hk.run_eq op passed failed) rfl rfl
  rwa [Nat.zero_add] at this

/-- **A command over a ring with nothing left on it.**  One of its system calls fails, and the
error says which; or it is up to the driver. -/
theorem Clean.ctrlCommand_cases (h : l.Clean) (op : UInt32) (id : Int) :
    (∃ err l', l.ctrlCommand op id = (.error err, l') ∧
        ∀ passed failed g a k', failed err = .report g →
          l.kernel.Meets ((ctrlScript op).attempt passed failed) a k' (some g)) ∨
      ∃ k2 l', l.UpToDriver op id k2 l' := by
  rcases l.kernel.outcome_called with ⟨e, k1, he1, hk1, hp1⟩ | ⟨k1, he1, hk1, hp1⟩
  · refine .inl ⟨.wrap (UringError.enterSubmit e).text (.errno e), _, by rw [ctrlCommand, he1],
      fun passed failed g a k' hg => ?_⟩
    simp only [ctrlScript, Script.once, Script.onceBut, Script.andThen, Script.attempt]
    refine .call_failed _ _ ?_ hk1 hp1
    rw [hg]
    exact k1.meets_report _ _ _
  cases hwait : (l.kernel.plan (l.kernel.clock + 1)).filter (· ≠ eintr) with
  | none => exact .inr (h.upToDriver ⟨hp1, hwait⟩ op id)
  | some e =>
    obtain ⟨hp2, hne⟩ := Option.filter_eq_some_iff.mp hwait
    have hout : k1.outcome.1.filter (· ≠ eintr) = some e := by
      rw [← hwait, ← hk1.clock, ← hk1.plan]
      rfl
    have herr : (l.ctrlCommand op id).1 =
        .error (.wrap (UringError.epollWait e).text (.errno e)) := by
      simp only [ctrlCommand, he1, waitCQE, h.unread, List.isEmpty_nil, if_true, hout]
    refine .inl ⟨_, _, Prod.ext herr rfl, fun passed failed g a k' hg => ⟨l.kernel.clock + 1, ?_⟩⟩
    have hnot : decide (e = eintr) = false := by simpa using hne
    simp only [ctrlScript, Script.once, Script.onceBut, Script.andThen, Script.attempt, run, hp1,
      hp2, hnot, Bool.false_eq_true, if_false, hg]
    rfl

/-- A command for a device that is there. -/
theorem Clean.ctrlCommand_meets (h : l.Clean) (hop : isAddDev op = false ∧ isDelDev op = false)
    (id : Int) :
    (∃ err l', l.ctrlCommand op id = (.error err, l') ∧
        l.kernel.Meets (ctrlScript op) 0 l'.kernel (some err)) ∨
      ∃ n l', l.ctrlCommand op id = (.ok n, l') ∧ l'.Clean ∧
        l.kernel.Meets (ctrlScript op) 0 l'.kernel none := by
  rw [← (ctrlScript op).attempt_report]
  rcases h.ctrlCommand_cases op id with ⟨err, l', he, hm⟩ | ⟨k2, l', hd⟩
  · exact .inl ⟨err, l', he, hm _ _ _ _ _ rfl⟩
  rcases Device.ctrlCommand_meets hop k2 id with ⟨err, k3, he3, h3⟩ | ⟨n, k3, he3, h3⟩ <;>
    obtain ⟨he, rfl⟩ := hd.eq he3
  · exact .inl ⟨err, l', he, hd.meets _ _ _ _ _ h3⟩
  · exact .inr ⟨n, l', he, hd.clean, hd.meets _ _ _ _ _ h3⟩

/-- `addDev`, if its first command is answered. -/
theorem Clean.addDev_meets (h : l.Clean) (hk : Kernel.RingWorks l.kernel.plan l.kernel.clock)
    (d : Device) (added : Bool → Script Errno Fault) :
    (∃ err d' l', addDev d l = (some err, d', l') ∧
        ∀ a k2, l.kernel.Meets (addScript added) a k2 (some (.wrap "add device" err))) ∨
      ∃ d' l', addDev d l = (none, d', l') ∧ l'.Clean ∧ d'.id = l.kernel.book.next ∧
        ∀ a k2 err, l'.kernel.Meets (added d'.useIoctl) a k2 err →
          l.kernel.Meets (addScript added) (1 + a) k2 err := by
  obtain ⟨k1, l1, hd1⟩ := h.upToDriver hk uCmdAddDev (-1)
  rcases Device.addCommand_called uCmdAddDev (by decide) k1 with
    ⟨e, k2, he2, hc2, hp2⟩ | ⟨k2, he2, hc2, hp2⟩ <;>
    obtain ⟨he1, rfl⟩ := hd1.eq he2 <;> simp only [addDev, he1]
  swap
  · refine .inr ⟨_, _, rfl, hd1.clean, by rw [hd1.book], fun a k3 err hm => ?_⟩
    exact hd1.meets _ _ _ _ _ (hm.call_passed _ hc2 hp2)
  -- refused: the second form decides
  have hm1 : ∀ a k3 err, l1.kernel.Meets ((ctrlScript cmdAddDev).attempt (added false) fun err2 =>
      .report (.wrap "add device" (.addDev (.wrap (ctrlCmdText uCmdAddDev) (.errno e)) err2))) a k3
        err → l.kernel.Meets (addScript added) a k3 err :=
    fun a k3 err hm => hd1.meets _ _ _ _ _ (hm.call_failed _ _ hc2 hp2)
  rcases hd1.clean.ctrlCommand_cases cmdAddDev (-1) with ⟨err, l3, he3, hm3⟩ | ⟨k3, l3, hd3⟩
  · simp only [he3]
    exact .inl ⟨_, _, _, rfl, fun a k4 => hm1 _ _ _ (hm3 _ _ _ _ _ rfl)⟩
  rcases Device.addCommand_called cmdAddDev (by decide) k3 with
    ⟨e', k4, he4, hc4, hp4⟩ | ⟨k4, he4, hc4, hp4⟩ <;>
    obtain ⟨he3, rfl⟩ := hd3.eq he4 <;> simp only [he3]
  · refine .inl ⟨_, _, _, rfl, fun a k5 => hm1 _ _ _ (hd3.meets _ _ _ _ _ ?_)⟩
    exact .call_failed _ _ (l3.kernel.meets_report _ a k5) hc4 hp4
  · have hid : k3.book.next = l.kernel.book.next := by rw [hd3.book, hc2.next, hd1.book]; rfl
    refine .inr ⟨_, _, rfl, hd3.clean, congrArg Nat.cast hid, fun a k5 err hm => ?_⟩
    exact hm1 _ _ _ (hd3.meets _ _ _ _ _ (hm.call_passed _ hc4 hp4))

end CtrlLine

/-! ### `New` -/

/-- The error of an outcome. -/
def errorOf : Except Fault Device → Option Fault
  | .error err => some err
  | .ok _ => none

/-- `New` after `ADD_DEV`. -/
theorem newOverRing_added_meets {cfg : Config} {size : UInt64} {k k1 : Kernel} {d1 d2 : Device}
    {l2 : CtrlLine} (hv : cfg.validate size = .ok ()) (he1 : openDevice k = (.ok d1, k1))
    (he2 : CtrlLine.addDev d1 (.fresh k1) = (none, d2, l2)) (hl2 : l2.Clean) :
    l2.kernel.Meets (addedScript d2.useIoctl d2.id) 9 (newOverRing false cfg size k).2
      (errorOf (newOverRing false cfg size k).1) := by
  simp only [newOverRing, hv, he1, he2, Bool.false_eq_true, if_false]
  have h3 := Device.tryOpen_meets (d := d2) ("/dev/ublkc" ++ toString d2.id) 50 0 l2.kernel
  obtain ⟨-, hid3, hio3, -⟩ := d2.tryOpen_keeps ("/dev/ublkc" ++ toString d2.id) l2.kernel 50 0
  rcases he3 : d2.tryOpen ("/dev/ublkc" ++ toString d2.id) l2.kernel 50 0 with
    ⟨_ | err, d3, k3⟩ <;>
    rw [he3] at h3 hid3 hio3 <;> simp only [Device.openCharDev, he3] <;> dsimp only at hio3 h3
  swap
  · exact (h3.wrap _).failed
  rw [← hio3]
  refine (h3.wrap _).andThen (b := 8) ?_
  have hset := d3.ctrlOp_plain (show isAddDev uCmdSetParams = false ∧ isDelDev uCmdSetParams = false
    by decide) (show isAddDev cmdSetParams = false ∧ isDelDev cmdSetParams = false by decide)
  have hstart := d3.ctrlOp_plain (show isAddDev uCmdStartDev = false ∧ isDelDev uCmdStartDev = false
    by decide) (show isAddDev cmdStartDev = false ∧ isDelDev cmdStartDev = false by decide)
  have hl3 : ({ l2 with kernel := k3 } : CtrlLine).Clean := ⟨hl2.taken, hl2.unread⟩
  rcases hl3.ctrlCommand_meets hset d3.id with ⟨err, l4, he4, h4⟩ | ⟨_, l4, he4, hl4, h4⟩ <;>
    simp only [CtrlLine.setParams, he4]
  · exact (h4.wrap _).failed
  refine (h4.wrap _).andThen (b := 8) ?_
  rcases WorkerHandles.init_meets ⟨none, none⟩ l4.kernel with
    ⟨err, w, k5, he5, h5⟩ | ⟨w, k5, he5, h5⟩ <;> simp only [he5]
  · exact (h5.wrap _).failed
  -- the goroutine is acquired without a call
  have h5' : l4.kernel.Meets (ringScript.andThen (.once .errno)) 8
      { k5 with book := (k5.book.acquire .goroutine).2 } none :=
    ⟨h5.1, h5.2.1, congrArg (· + 1) h5.2.2⟩
  refine (h5'.wrap _).andThen (b := 0) ?_
  rcases Kernel.outcome_meets { k5 with book := (k5.book.acquire .goroutine).2 }
    (fun e => .wrap (UringError.enterSubmitWait e).text (.errno e)) with
    ⟨e, k6, he6, h6⟩ | ⟨k6, he6, h6⟩ <;> simp only [he6]
  · exact (h6.wrap _).failed
  refine (h6.wrap _).andThen (b := 0) ?_
  have hl6 : ({ l4 with kernel := k6 } : CtrlLine).Clean := ⟨hl4.taken, hl4.unread⟩
  rcases hl6.ctrlCommand_meets hstart d3.id with ⟨err, l7, he7, h7⟩ | ⟨n, l7, he7, -, h7⟩
  · have he7' : CtrlLine.startDev { d3 with
        workers := [w], running := [(k5.book.acquire .goroutine).1] } { l4 with kernel := k6 } =
          (.error err, l7) := he7
    simp only [he7']
    exact h7.wrap _
  · have he7' : CtrlLine.startDev { d3 with
        workers := [w], running := [(k5.book.acquire .goroutine).1] } { l4 with kernel := k6 } =
          (.ok n, l7) := he7
    simp only [he7']
    exact h7.wrap _

/-- Neither of the two system calls for the first form of `ADD_DEV` fails. -/
def AddAnswered (k : Kernel) : Prop :=
  ∀ d k', openDevice k = (.ok d, k') → Kernel.RingWorks k'.plan k'.clock

/-- **`New` follows its script.** -/
theorem newOverRing_meets {cfg : Config} {size : UInt64} (hv : cfg.validate size = .ok ())
    {k : Kernel} (ha : AddAnswered k) :
    k.Meets (newScript ((k.book.next + 7 : Nat) : Int)) 17 (newOverRing false cfg size k).2
      (errorOf (newOverRing false cfg size k).1) := by
  rcases Device.openDevice_meets k with ⟨err, k1, he1, h1⟩ | ⟨d1, k1, he1, h1⟩
  · simp only [newOverRing, hv, he1, Bool.false_eq_true, if_false]
    exact h1.failed
  rw [← h1.2.2]
  refine h1.andThen (b := 10) ?_
  rcases (CtrlLine.fresh_clean k1).addDev_meets (ha d1 k1 he1) d1
    (fun useIoctl => addedScript useIoctl k1.book.next) with
    ⟨err, d2, l2, he2, h2⟩ | ⟨d2, l2, he2, hl2, hid, h2⟩
  · simp only [newOverRing, hv, he1, he2, Bool.false_eq_true, if_false]
    exact h2 10 _
  change d2.id = k1.book.next at hid
  rw [← hid] at h2 ⊢
  exact h2 9 _ _ (newOverRing_added_meets hv he1 he2 hl2)

/-- Whether the command is answered is settled before anyone is to blame. -/
theorem AddAnswered.agree {k : Kernel} (ha : AddAnswered k) {id : Int} {n : Nat} {err : Fault}
    (hrun : run k.plan (newScript id) k.clock = .error (n, err)) {plan : Nat → Option Errno}
    (hplan : ∀ i ≤ n, plan i = k.plan i) : AddAnswered { k with plan := plan } := by
  intro d k' he
  rcases Device.openDevice_meets { k with plan := plan } with ⟨err', k1, he1, -⟩ | ⟨_, k1, he1, h1⟩
  · rw [he] at he1
    cases he1
  cases he.symm.trans he1
  rw [newScript, run_andThen] at hrun
  rcases Device.openDevice_meets k with ⟨err', k2, he2, m, h2⟩ | ⟨d2, k2, he2, h2⟩
  · -- not even the control file and its ring: nor are they with `plan`
    rw [h2] at hrun
    cases hrun
    have hbefore : ∀ i < (run k.plan openDeviceScript k.clock).stop, plan i = k.plan i := by
      rw [h2]
      exact fun i hi => hplan i (Nat.le_of_lt_succ hi)
    exact nomatch h1.1.symm.trans ((run_local _ _ hbefore).trans h2)
  · have hworks : Kernel.RingWorks k.plan k2.clock := h2.2.1 ▸ ha d2 k2 he2
    rw [h2.1] at hrun
    dsimp only at hrun
    have hle : k2.clock + 2 ≤ n + 1 := by
      rw [addScript, hworks.run_eq] at hrun
      show k2.clock + 2 ≤ Verdict.stop (.error (n, err))
      rw [← hrun]
      exact le_stop _ _
    have hbefore : ∀ i < (run k.plan openDeviceScript k.clock).stop, plan i = k.plan i := by
      rw [h2.1]
      exact fun i (hi : i < k2.clock) => hplan i (by omega)
    have hclock : k'.clock = k2.clock :=
      Except.ok.inj (h1.1.symm.trans ((run_local _ _ hbefore).trans h2.1))
    have hplan' : k'.plan = plan := h1.2.1
    rw [hclock, hplan']
    exact ⟨(hplan _ (by omega)).trans hworks.enter, by rw [hplan _ (by omega)]; exact hworks.wait⟩

/-! ## The result -/

/-- The `n`-th call is to blame for the error `err`: it has failed with the errno that the error
names, and however later calls end, those of the cleanup among them, the error is the same. -/
structure Blamed (cfg : Config) (size : UInt64) (k : Kernel) (err : Fault) (n : Nat) (e : Errno) :
    Prop where
  script : run k.plan (newScript ((k.book.next + 7 : Nat) : Int)) k.clock = .error (n, err)
  failed : k.plan n = some e
  named : err.cause = some e
  final : ∀ plan, (∀ i ≤ n, plan i = k.plan i) →
    (newOverRing false cfg size { k with plan := plan }).1 = .error err

/-- The outcome of `New` is the verdict of its script.  The device is the eighth thing to get a
number, after the control file and the six parts of the control ring. -/
structure FollowsScript (cfg : Config) (size : UInt64) (k : Kernel)
    (out : Except Fault Device × Kernel) : Prop where
  ok : ∀ d, out.1 = .ok d →
    run k.plan (newScript ((k.book.next + 7 : Nat) : Int)) k.clock = .ok out.2.clock
  error : ∀ err, out.1 = .error err → ∃ n e, Blamed cfg size k err n e

/-- **An error of `New` names the first call that was not excused**, with its texts, and success
means that there was none. -/
theorem new_verdict (cfg : Config) (size : UInt64) (hv : cfg.validate size = .ok ())
    (k : Kernel) (ha : AddAnswered k) :
    FollowsScript cfg size k (newOverRing false cfg size k) := by
  refine ⟨fun d hd => ?_, fun err herr => ?_⟩
  · have h := newOverRing_meets hv ha
    rw [hd] at h
    exact h.1
  · have h := newOverRing_meets hv ha
    rw [herr] at h
    obtain ⟨n, hrun⟩ := h
    obtain ⟨hsome, hcause⟩ := run_blames _ k.clock (names_newScript _) (fun h => nomatch h) hrun
    obtain ⟨e, hfail⟩ := Option.isSome_iff_exists.mp hsome
    refine ⟨n, e, hrun, hfail, hcause.trans hfail, fun plan hplan => ?_⟩
    -- the script comes to the same verdict, and so does the code
    have hstop : ∀ i < (run k.plan (newScript ((k.book.next + 7 : Nat) : Int)) k.clock).stop,
        plan i = k.plan i := by
      rw [hrun]
      exact fun i hi => hplan i (Nat.le_of_lt_succ hi)
    have hsame := (run_local _ _ hstop).trans hrun
    have h2 := newOverRing_meets hv (ha.agree hrun hplan)
    cases herr2 : (newOverRing false cfg size { k with plan := plan }).1 with
    | ok d =>
      rw [herr2] at h2
      exact nomatch h2.1.symm.trans hsame
    | error err2 =>
      rw [herr2] at h2
      obtain ⟨n2, h2⟩ := h2
      cases h2.symm.trans hsame
      rfl

/-- The driver refuses the first form of `ADD_DEV` and the character device comes late; the
`io_uring_enter` for `SET_PARAMS` fails, and so does everything after it. -/
def latePlan : Nat → Option Errno := fun n =>
  if n < 11 then none
  else if n = 11 then some 22
  else if n < 15 then none
  else if n < 17 then some enoent
  else if n = 17 then none
  else some 5

/-- What `New` returns then. -/
def lateFault : Fault := .wrap "set params" (.wrap "io_uring_enter submit" (.errno 5))

theorem new_verdict_late :
    (newOverRing false .default 4096 (.start latePlan)).1 = .error lateFault ∧
      (∀ errnoText, lateFault.message errnoText =
        "set params: io_uring_enter submit: " ++ errnoText 5) ∧
      Blamed .default 4096 (.start latePlan) lateFault 18 5 := by
  have he : (newOverRing false .default 4096 (.start latePlan)).1 = .error lateFault := by rfl
  have ha : AddAnswered (.start latePlan) := by
    intro d k' hopen
    obtain rfl := congrArg Prod.snd hopen
    exact ⟨rfl, rfl⟩
  obtain ⟨n, e, h⟩ :=
    (new_verdict .default 4096 (by decide +kernel) (.start latePlan) ha).error _ he
  obtain rfl : 5 = e := Option.some.inj h.named
  have hn : Except.error (18, lateFault) = Except.error (n, lateFault) :=
    Eq.trans (by rfl) h.script
  obtain rfl : 18 = n := congrArg Prod.fst (Except.error.inj hn)
  refine ⟨he, fun errnoText => ?_, h⟩
  show "set params" ++ ": " ++ ("io_uring_enter submit" ++ ": " ++ errnoText 5) = _
  rw [← String.append_assoc]
  exact congrArg (· ++ errnoText 5) (by decide +kernel)

/-- The `io_uring_enter` for the first form of `ADD_DEV` fails. -/
def unansweredPlan : Nat → Option Errno := fun n =>
  if n = 9 then some 11 else if n = 16 then some 22 else none

/-- Then the error can name a command that was never executed: what fails under `set params` is the
second form of `ADD_DEV`. -/
example :
    let out := newOverRing false .default 4096 (.start unansweredPlan)
    out.1 = .error (.wrap "set params" (.wrap (ctrlCmdText cmdSetParams) (.errno 22))) ∧
      out.2.commands.take 2 = [(uCmdAddDev, true), (cmdAddDev, false)] := ⟨rfl, rfl⟩

end Ublk
