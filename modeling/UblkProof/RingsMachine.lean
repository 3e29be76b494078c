import UblkProof.DeviceLifecycle
import UblkProof.Leases

/-! # Many rings in one process

`Ring.Close` gives back what a ring has mapped and opened: it unmaps by address and length and
closes by number, and the kernel may since have given either to another ring.  In
`DeviceLifecycle` every resource has a number of its own and a stale one hits nothing; here the
kernel reuses whatever is free, and any number of rings is created and closed in any order, each
as often as one likes.  Its answers come with each call of `New` or `NewSQE128`.

The last section says what the calls do to the process; `Close` surrenders what the ring has
noted in its fields.
-/
namespace Ublk
open Leases

/-! ## The process -/

/-- What `unix.Mmap` returns: the address of the first byte, and how many there are. -/
structure Mapping where
  base : Nat
  length : Nat
  deriving DecidableEq

/-- Two mappings without a common byte. -/
def Mapping.ClearOf (m m' : Mapping) : Prop :=
  m.base + m.length ≤ m'.base ∨ m'.base + m'.length ≤ m.base

instance (m m' : Mapping) : Decidable (m.ClearOf m') := inferInstanceAs (Decidable (_ ∨ _))

/-- The open descriptors and the active mappings, each with the number of the ring it was made
for. -/
structure Process where
  fds : List (Nat × Nat)
  maps : List (Mapping × Nat)
  deriving DecidableEq

/-- `unix.EBADF` and `unix.EINVAL`. -/
def ebadf : Errno := 9
def einval : Errno := 22

namespace Process

/-- A system call that opens a descriptor for ring `id`.  The kernel answers with a number that
is free; `none` is an answer it does not give. -/
def openFD (p : Process) (id : Nat) : Except Errno Nat → Option (Except Errno Nat × Process)
  | .error e => some (.error e, p)
  | .ok fd =>
      if fd ∉ names p.fds then some (.ok fd, { p with fds := (fd, id) :: p.fds }) else none

/-- `unix.Mmap` for ring `id`.  The kernel places the mapping where no other one is; an empty
mapping is refused. -/
def mmap (p : Process) (id length : Nat) :
    Except Errno Nat → Option (Except Errno Mapping × Process)
  | .error e => some (.error e, p)
  | .ok base =>
      if 0 < length ∧ ∀ m ∈ names p.maps, m.ClearOf ⟨base, length⟩ then
        some (.ok ⟨base, length⟩, { p with maps := (⟨base, length⟩, id) :: p.maps })
      else none

/-- `unix.Munmap`: the active mapping with this base and length, or `EINVAL`. -/
def munmap (p : Process) (m : Mapping) : Option Errno × Process :=
  if m ∈ names p.maps then (none, { p with maps := surrender p.maps [m] }) else (some einval, p)

/-- `unix.Close`. -/
def closeFD (p : Process) (fd : Nat) : Option Errno × Process :=
  if fd ∈ names p.fds then (none, { p with fds := surrender p.fds [fd] }) else (some ebadf, p)

/-- The first loop of `Close`, with the errors it collects. -/
def munmapAll (p : Process) : List (Option Mapping) → List Errno × Process
  | [] => ([], p)
  | none :: ms => p.munmapAll ms
  | some m :: ms =>
      let (err, p) := p.munmap m
      let (errs, p) := p.munmapAll ms
      (err.toList ++ errs, p)

/-- The second loop. -/
def closeAll (p : Process) : List Int → List Errno × Process
  | [] => ([], p)
  | fd :: fds =>
      if fd ≥ 0 then
        let (err, p) := p.closeFD fd.toNat
        let (errs, p) := p.closeAll fds
        (err.toList ++ errs, p)
      else p.closeAll fds

end Process

/-! ## One ring -/

/-- The fields of a `uring.Ring` that `setup` and `Close` use.  Its entries have `sqeSize n`
bytes. -/
structure RawRing where
  n : Nat
  p : Params
  fd : Int
  cancelFD : Int
  epollFD : Int
  mmapSQ : Option Mapping
  mmapCQ : Option Mapping
  mmapSQEs : Option Mapping
  deriving DecidableEq

/-- The kernel's answers to the calls of one `setup`.  `epollCtl` is asked for each descriptor
to watch. -/
structure SetupReplies where
  setup : Except Errno (Nat × Params)
  mmapSQ : Except Errno Nat
  mmapCQ : Except Errno Nat
  mmapSQEs : Except Errno Nat
  eventfd : Except Errno Nat
  epollCreate : Except Errno Nat
  epollCtl : Int → Option Errno

namespace RawRing

/-- The descriptors, in the order in which `Close` goes through them. -/
def fds (r : RawRing) : List Int := [r.epollFD, r.cancelFD, r.fd]

/-- The mapping fields, in the order in which `Close` goes through them. -/
def mappings (r : RawRing) : List (Option Mapping) := [r.mmapSQ, r.mmapCQ, r.mmapSQEs]

/-- `if *fd >= 0 { close(*fd); *fd = -1 }`, as far as the field is concerned. -/
def forget (fd : Int) : Int := if fd ≥ 0 then -1 else fd

/-- `Close`.  The fields of the mappings are not reset. -/
def close (r : RawRing) (p : Process) : List Errno × RawRing × Process :=
  let (errs, p) := p.munmapAll r.mappings
  let (errs', p) := p.closeAll r.fds
  (errs ++ errs',
    { r with epollFD := forget r.epollFD, cancelFD := forget r.cancelFD, fd := forget r.fd }, p)

/-- `x, err := call(); if err != nil { return fmt.Errorf(text, err) }`. -/
def orFail {α : Type} (text : String) (call : Option (Except Errno α × Process)) (r : RawRing)
    (next : α → Process → Option (Option Fault × RawRing × Process)) :
    Option (Option Fault × RawRing × Process) :=
  match call with
  | none => none
  | some (.error e, p) => some (some (.wrap text (.errno e)), r, p)
  | some (.ok x, p) => next x p

/-- The three mappings; what was mapped before a failure stays in the struct. -/
def mmapRings (r : RawRing) (id : Nat) (k : SetupReplies) (p : Process) :
    Option (Option Fault × RawRing × Process) :=
  orFail "mmap SQ ring" (p.mmap id r.p.sqRingSize k.mmapSQ) r fun m p =>
  let r := { r with mmapSQ := some m }
  orFail "mmap CQ ring" (p.mmap id r.p.cqRingSize k.mmapCQ) r fun m p =>
  let r := { r with mmapCQ := some m }
  orFail "mmap SQEs" (p.mmap id (r.p.sqesSize r.n) k.mmapSQEs) r fun m p =>
  some (none, { r with mmapSQEs := some m }, p)

/-- The eventfd, the epoll instance, and both descriptors added to it. -/
def setupCancel (r : RawRing) (id : Nat) (k : SetupReplies) (p : Process) :
    Option (Option Fault × RawRing × Process) :=
  orFail "eventfd" (p.openFD id k.eventfd) r fun efd p =>
  let r := { r with cancelFD := efd }
  orFail "epoll_create1" (p.openFD id k.epollCreate) r fun epfd p =>
  let r := { r with epollFD := epfd }
  some (([r.fd, r.cancelFD].findSome? k.epollCtl).map fun e => .wrap "epoll_ctl" (.errno e), r, p)

end RawRing

/-! ## All rings -/

/-- A call of `Close`: the ring's number and its fields when it was called, whether the ring had
been closed before, the rings that were open, and the process before and after. -/
structure CloseCall where
  id : Nat
  ring : RawRing
  again : Bool
  live : List Nat
  before : Process
  after : Process
  errs : List Errno
  deriving DecidableEq

/-- The rings of a process, numbered in the order of their creation; `none` is one whose `setup`
failed. -/
structure Rings where
  process : Process
  rings : List (Option RawRing)
  closes : List CloseCall

/-- A call of the package. -/
inductive RingsAction
  | new (k : SetupReplies)
  | newSQE128 (k : SetupReplies)
  | close (id : Nat)

namespace Rings

/-- No ring has been created. -/
def start : Rings := ⟨⟨[], []⟩, [], []⟩

/-- The ring with this number, if its creation succeeded. -/
def ringAt (s : Rings) (id : Nat) : Option RawRing := s.rings[id]?.join

/-- Has `Close` been called on it? -/
def closed (s : Rings) (id : Nat) : Bool := s.closes.any fun c => c.id = id

/-- The rings that were created and not closed. -/
def live (s : Rings) : List Nat :=
  (List.range s.rings.length).filter fun id => (s.ringAt id).isSome && !s.closed id

/-- `r.Close()` for ring `id`, in the process `p`. -/
def closeRing (s : Rings) (id : Nat) (r : RawRing) (p : Process) : Rings :=
  let (errs, _, p') := r.close p
  { s with
    process := p'
    closes := s.closes ++ [⟨id, r, s.closed id, s.live, p, p', errs⟩] }

/-- A `setup` that fails once it has a ring: `_ = r.Close(); return nil, err`. -/
def fail (s : Rings) (r : RawRing) (p : Process) : Rings :=
  { s.closeRing s.rings.length r p with rings := s.rings ++ [none] }

/-- `setup`, for the next ring; replies that the kernel cannot give are no step. -/
def setup (s : Rings) (n : Nat) (k : SetupReplies) : Option (Except Fault RawRing × Rings) :=
  let id := s.rings.length
  match k.setup with
  | .error e =>
      some (.error (.wrap "io_uring_setup" (.errno e)), { s with rings := s.rings ++ [none] })
  | .ok (fd, params) =>
  match s.process.openFD id (.ok fd) with
  | some (.ok fd, p) =>
      match RawRing.mmapRings ⟨n, params, fd, -1, -1, none, none, none⟩ id k p with
      | none => none
      | some (some err, r, p) => some (.error err, s.fail r p)
      | some (none, r, p) =>
      match r.setupCancel id k p with
      | none => none
      | some (some err, r, p) => some (.error err, s.fail r p)
      | some (none, r, p) => some (.ok r, { s with process := p, rings := s.rings ++ [some r] })
  | _ => none

/-- A call of `New`, `NewSQE128` or `Close`. -/
def step (s : Rings) : RingsAction → Option Rings
  | .new k => (s.setup 16 k).map Prod.snd
  | .newSQE128 k => (s.setup 80 k).map Prod.snd
  | .close id =>
      match s.ringAt id with
      | some r =>
          some { s.closeRing id r s.process with
            rings := s.rings.set id (some (r.close s.process).2.1) }
      | none => none

end Rings

/-! ## What the calls do -/

namespace Process

section
variable {p p' : Process} {id length : Nat} {reply : Except Errno Nat}

theorem openFD_ok {fd : Nat} (h : p.openFD id reply = some (.ok fd, p')) :
    fd ∉ names p.fds ∧ p' = { p with fds := (fd, id) :: p.fds } := by
  cases reply with
  | error e => cases h
  | ok fd' =>
    rw [openFD] at h
    split_ifs at h with hfree
    cases h
    exact ⟨hfree, rfl⟩

/-- A call that fails leaves the process alone. -/
theorem openFD_error {e : Errno} (h : p.openFD id reply = some (.error e, p')) : p' = p := by
  cases reply with
  | error e' =>
    cases h
    rfl
  | ok fd =>
    rw [openFD] at h
    split_ifs at h
    cases h

/-- A mapping that is clear of all others is none of them. -/
theorem mmap_ok {m : Mapping} (h : p.mmap id length reply = some (.ok m, p')) :
    m ∉ names p.maps ∧ p' = { p with maps := (m, id) :: p.maps } := by
  cases reply with
  | error e => cases h
  | ok base =>
    rw [mmap] at h
    split_ifs at h with hplace
    cases h
    refine ⟨fun hin => ?_, rfl⟩
    obtain ⟨hpos, hclear⟩ := hplace
    have hself := hclear _ hin
    simp only [Mapping.ClearOf] at hself
    omega

theorem mmap_error {e : Errno} (h : p.mmap id length reply = some (.error e, p')) : p' = p := by
  cases reply with
  | error e' =>
    cases h
    rfl
  | ok base =>
    rw [mmap] at h
    split_ifs at h
    cases h

end

theorem munmap_snd (p : Process) (m : Mapping) :
    (p.munmap m).2 = { p with maps := surrender p.maps [m] } := by
  unfold munmap
  split_ifs with h
  · rfl
  · rw [surrender_of_not_mem h]

theorem closeFD_snd (p : Process) (fd : Nat) :
    (p.closeFD fd).2 = { p with fds := surrender p.fds [fd] } := by
  unfold closeFD
  split_ifs with h
  · rfl
  · rw [surrender_of_not_mem h]

theorem munmapAll_snd (p : Process) (ms : List (Option Mapping)) :
    (p.munmapAll ms).2 = { p with maps := surrender p.maps (ms.filterMap id) } := by
  induction ms generalizing p with
  | nil => rw [List.filterMap_nil, surrender_nil]; rfl
  | cons m ms ih =>
    cases m with
    | none => exact ih p
    | some m =>
      show ((p.munmap m).2.munmapAll ms).2 = _
      rw [ih, munmap_snd, surrender_cons]
      rfl

end Process

/-- The number of a descriptor, if it is one. -/
def RawRing.number (fd : Int) : Option Nat := if fd ≥ 0 then some fd.toNat else none

theorem Process.closeAll_snd (p : Process) (fds : List Int) :
    (p.closeAll fds).2 = { p with fds := surrender p.fds (fds.filterMap RawRing.number) } := by
  induction fds generalizing p with
  | nil => rw [List.filterMap_nil, surrender_nil]; rfl
  | cons fd fds ih =>
    rw [Process.closeAll, List.filterMap_cons, RawRing.number]
    split_ifs with h
    · show ((p.closeFD fd.toNat).2.closeAll fds).2 = _
      rw [ih, closeFD_snd, surrender_cons]
    · exact ih p

namespace RawRing

/-- The descriptors a ring has noted. -/
def openFDs (r : RawRing) : List Nat := r.fds.filterMap number

/-- The mappings a ring has noted. -/
def mapped (r : RawRing) : List Mapping := r.mappings.filterMap id

theorem number_eq_some {fd : Int} {n : Nat} : number fd = some n ↔ fd = n := by
  unfold number
  split_ifs with h
  · rw [Option.some_inj]
    omega
  · constructor
    · intro h'
      cases h'
    · intro h'
      omega

theorem mem_openFDs {r : RawRing} {n : Nat} :
    n ∈ r.openFDs ↔ r.epollFD = n ∨ r.cancelFD = n ∨ r.fd = n := by
  simp [openFDs, fds, number_eq_some, @eq_comm _ (n : Int)]

theorem mem_mapped {r : RawRing} {m : Mapping} :
    m ∈ r.mapped ↔ r.mmapSQ = some m ∨ r.mmapCQ = some m ∨ r.mmapSQEs = some m := by
  simp [mapped, mappings, @eq_comm _ (some m)]

/-- **`Close` gives back what the ring has noted**, whoever holds it by now. -/
theorem close_process (r : RawRing) (p : Process) :
    (r.close p).2.2 = ⟨surrender p.fds r.openFDs, surrender p.maps r.mapped⟩ := by
  show ((p.munmapAll r.mappings).2.closeAll r.fds).2 = _
  rw [Process.closeAll_snd, Process.munmapAll_snd]
  rfl

theorem forget_of_number {fd : Int} (h : number fd = none) : forget fd = fd := by
  unfold number at h
  unfold forget
  split_ifs at h ⊢
  rfl

/-- A ring without descriptors stays as it is. -/
theorem close_ring (r : RawRing) (p : Process) (h : r.openFDs = []) : (r.close p).2.1 = r := by
  have hnone : ∀ fd ∈ r.fds, forget fd = fd := by
    intro fd hfd
    exact forget_of_number (List.filterMap_eq_nil_iff.mp h fd hfd)
  show ({ r with epollFD := _, cancelFD := _, fd := _ } : RawRing) = r
  rw [hnone r.epollFD (by simp [fds]), hnone r.cancelFD (by simp [fds]), hnone r.fd (by simp [fds])]

/-- The descriptors are forgotten. -/
theorem openFDs_close (r : RawRing) (p : Process) : (r.close p).2.1.openFDs = [] := by
  have hforget : ∀ fd, number (forget fd) = none := by
    intro fd
    unfold number forget
    split_ifs <;> first | rfl | omega
  show [forget r.epollFD, forget r.cancelFD, forget r.fd].filterMap number = []
  simp only [List.filterMap_cons, hforget, List.filterMap_nil]

end RawRing
end Ublk
