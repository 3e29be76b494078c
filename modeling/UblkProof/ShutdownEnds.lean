import UblkProof.BoundedDrain
import UblkProof.TeardownWorker

/-! # Shutting down ends

`wg.Wait` blocks `shutdown` until the worker is gone, and the worker blocks in `epoll_wait`
until the kernel or `Cancel` wakes it.  Neither waits for ever: once the flag is set the worker
executes no more than one queue depth of work before it returns (`Flow.Inv.spends`), and after
the write to the eventfd `epoll_wait` has something to report.

`System.stepsLeft` counts what the goroutines can still do during `shutdown`, and every step of
theirs takes at least one unit of it, whatever the kernel does in between.  `Live` collects
what makes the next step possible.

What is left to the kernel is the answer to a control command: if the driver does not answer
`STOP_DEV` or `DEL_DEV`, `shutdown` hangs there, and nowhere else (`System.AwaitsDriver`).
-/
namespace Ublk
open Runs

/-- A step of one of the goroutines: neither the kernel's, whose the answer to a control command is
too, nor a new call of `Close`. -/
def SystemAction.ofGoroutine : SystemAction → Bool
  | .close | .kernel _ | .returns _ => false
  | _ => true

/-- The statements of `shutdown` that are left. -/
def Main.stmtsLeft : Main → Nat
  | .shutting rest => rest.length
  | _ => 0

/-- What the worker's goroutine can still do, when its code can still execute `run` steps. -/
def Goroutine.stepsLeft (run : Nat) : Goroutine → Nat
  | .unborn | .gone => 0
  | .running => run + 1
  | .sending _ => 2
  | .returning => 1

section
variable {β : Type}

/-- Nobody resets the eventfd. -/
theorem Flow.efd_step {w : Worker} {bk : Backend β} {f f' : Flow β} {a : Action}
    (h : f.efd = true) (hs : Flow.Step w bk f a f') : f'.efd = true := by
  cases hs with
  | control hc => cases hc <;> first | exact h | rfl
  | _ => exact h

namespace System
variable {w : Worker} {bk : Backend β} {s s' : System β} {a : SystemAction} {k kc : Nat}

/-- What the goroutines can still do. -/
def stepsLeft (w : Worker) (s : System β) : Nat :=
  s.main.stmtsLeft +
    s.worker.stepsLeft (w.stepsLeft s.world.ring.unpublished.length s.world.pc)

/-! ## What every reachable state has -/

/-- What the next step of the goroutines depends on. -/
structure Live (w : Worker) (k kc : Nat) (s : System β) : Prop where
  releases : ∃ ran, s.Releases ran
  messages : s.Messages
  sync : s.Sync
  flow : ∃ f, Models k kc s.world f ∧ f.Inv w
  running : s.worker = .running → s.world.pc.goroutine = .running
  woken : ∀ rest, s.main = .shutting rest → .cancelWake ∉ rest → s.world.efd = true

namespace Live

theorem boot {b : Worker.Boot β} (hk : b.p.sqEntries.toNat = 2 ^ k)
    (hkc : b.p.cqEntries.toNat = 2 ^ kc) : (System.boot b).Live w k kc where
  releases := ⟨[], releases_boot b⟩
  messages := messages_boot b
  sync := sync_boot b
  flow := ⟨_, Models.boot hk hkc, Flow.inv_boot w b⟩
  running := nofun
  woken := nofun

/-- The worker's machine does not reset the eventfd. -/
theorem efd_reaches {x y : World β} {f : Flow β} (hf : Models k kc x f) (hi : f.Inv w)
    (hk : w.depth.toNat ≤ 2 ^ k) (hkc : w.depth.toNat ≤ 2 ^ kc) (h : Reaches w bk x y) :
    (∃ f', Models k kc y f' ∧ f'.Inv w) ∧ (x.efd = true → y.efd = true) := by
  obtain ⟨as, hrun⟩ := h
  obtain ⟨f', hp, hm', hi'⟩ := hf.follow Anything hi hk hkc hrun
  refine ⟨⟨f', hm', hi'⟩, fun hx => ?_⟩
  have hfx : f.efd = true := (congrArg Core.efd hf.core).symm.trans hx
  have hfy : f'.efd = true :=
    hp.invariant (I := fun f => f.efd = true) hfx fun _ _ _ h hs => Flow.efd_step h hs.2
  exact (congrArg Core.efd hm'.core).trans hfy

/-- The worker's code and its goroutine agree. -/
theorem running_step (h : s.Live w k kc) (hs : Step w bk s a s') :
    s'.worker = .running → s'.world.pc.goroutine = .running := by
  cases hs with
  | prepare hm _ _ =>
    intro hw
    obtain ⟨ran, hr⟩ := h.releases
    exact absurd ((hr.unborn.mpr hm).symm.trans hw) nofun
  | go _ hpc =>
    intro _
    show s.world.pc.goroutine = _
    rw [hpc]
    rfl
  | worker _ _ _ => exact id
  | send _ _ | done _ => exact nofun
  | kernel hk hx =>
    intro hw
    rw [show _ = s.world.pc from (Worker.kernel_keeps hx hk).1]
    exact h.running hw
  | _ => exact h.running

/-- After `cancelWake` the eventfd is written. -/
theorem woken_step (h : s.Live w k kc) (hs : Step w bk s a s')
    (hefd : s.world.efd = true → s'.world.efd = true) :
    ∀ rest, s'.main = .shutting rest → .cancelWake ∉ rest → s'.world.efd = true := by
  have hcode : Stmt.cancelWake ∈ shutdownCode := by decide
  -- a statement other than `cancelWake` was executed
  have hnext : ∀ (st : Stmt) (rest : List Stmt), s.main = .shutting (st :: rest) →
      st ≠ .cancelWake → ∀ rest', Main.shutting rest = .shutting rest' → .cancelWake ∉ rest' →
      s'.world.efd = true := by
    rintro st rest hm hne _ ⟨⟩ hnot
    refine hefd (h.woken _ hm fun hmem => ?_)
    rcases List.mem_cons.mp hmem with heq | hmem
    · exact hne heq.symm
    · exact hnot hmem
  cases hs with
  | prepare hm _ _ =>
    intro rest hr
    rw [show s.main = _ from hr] at hm
    cases hm
  | go _ _ => exact nofun
  | @receive err _ _ _ =>
    intro rest hr hnot
    have hr : Main.orCleanup err.isNone .starting = .shutting rest := hr
    cases err <;> cases hr
    exact absurd hcode hnot
  | cancelStore hm => exact hnext _ _ hm (by simp)
  | cancelWake _ => exact fun _ _ _ => rfl
  | wait hm _ => exact hnext _ _ hm (by simp)
  | release hm | command hm => exact hnext _ _ hm (by simp)
  | @start ok _ =>
    intro rest hr hnot
    have hr : Main.orCleanup ok .serving = .shutting rest := hr
    cases ok <;> cases hr
    exact absurd hcode hnot
  | close _ =>
    rintro _ ⟨⟩ hnot
    exact absurd hcode hnot
  | _ => exact fun rest hr hnot => hefd (h.woken rest hr hnot)

theorem step (h : s.Live w k kc) (hk : w.depth.toNat ≤ 2 ^ k) (hkc : w.depth.toNat ≤ 2 ^ kc)
    (hs : Step w bk s a s') : s'.Live w k kc := by
  obtain ⟨ran, hr⟩ := h.releases
  obtain ⟨f, hf, hi⟩ := h.flow
  obtain ⟨hsync, hreach⟩ := h.sync.step h.messages hr.unborn hs
  obtain ⟨hflow, hefd⟩ := efd_reaches hf hi hk hkc hreach
  exact ⟨hr.step hs, h.messages.step hr.unborn hs, hsync, hflow, h.running_step hs,
    h.woken_step hs hefd⟩

/-! ## During `shutdown` -/

/-- The message has been received, so nobody is about to send one, and the worker is past its
first system call. -/
theorem quiet {rest : List Stmt} (h : s.Live w k kc) (hm : s.main = .shutting rest) :
    s.chan = [] ∧ s.world.pc.early = false ∧ (∀ e, s.worker ≠ .sending e) ∧
      s.signalling = false := by
  have hone : s.main.received = 1 := by rw [hm]; rfl
  obtain ⟨hc, hp⟩ := h.messages.received_one hone
  refine ⟨hc, ?_, fun e hw => ?_, ?_⟩
  · cases he : s.world.pc.early with
    | false => rfl
    | true => rw [pending, he, Bool.toNat_true] at hp; omega
  · rw [pending, hw] at hp
    have : Goroutine.sends (.sending e) = 1 := rfl
    omega
  · cases hs : s.signalling with
    | false => rfl
    | true => rw [pending, hs, Bool.toNat_true] at hp; omega

/-- One step of `shutdown` or of the worker next to it leads to a state of `shutdown`. -/
theorem shutting_step {rest : List Stmt} (hm : s.main = .shutting rest)
    (hs : Step w bk s a s') : s'.main = .shutting rest ∨
      ∃ st, rest = st :: rest.tail ∧ s'.main = .shutting rest.tail := by
  cases hs with
  | cancelStore hm' | cancelWake hm' | wait hm' _ | release hm' | command hm' =>
    rw [hm] at hm'
    cases hm'
    exact .inr ⟨_, rfl, rfl⟩
  | prepare hm' _ _ | go hm' _ | receive hm' _ | start hm' | close hm' =>
    rw [hm] at hm'
    cases hm'
  | _ => exact .inl hm

/-- Once the flag is set, it stays set. -/
theorem cancelled_step {rest : List Stmt} (hm : s.main = .shutting rest)
    (hnot : .cancelStore ∉ rest) (hs : Step w bk s a s') :
    ∃ rest, s'.main = .shutting rest ∧ .cancelStore ∉ rest := by
  rcases shutting_step hm hs with hm' | ⟨-, -, hm'⟩
  · exact ⟨rest, hm', hnot⟩
  · exact ⟨rest.tail, hm', fun hmem => hnot (List.mem_of_mem_tail hmem)⟩

/-- The worker's machine has made the step `b`. -/
theorem world_spends {b : Action} {x : World β} (h : s.Live w k kc) (hk : w.depth.toNat ≤ 2 ^ k)
    (hkc : w.depth.toNat ≤ 2 ^ kc) (hc : s.world.ring.cancelled = true)
    (hx : w.step bk s.world b = some x) :
    w.stepsLeft x.ring.unpublished.length x.pc + b.ofWorker.toNat ≤
      w.stepsLeft s.world.ring.unpublished.length s.world.pc := by
  obtain ⟨f, hf, hi⟩ := h.flow
  obtain ⟨f', hstep, hf'⟩ := hf.step hi hk hkc hx
  have hspends := (hi.spends hstep (.inr (hf.cancelled ▸ hc))).steps
  obtain ⟨_, hsq⟩ := hf.sq
  obtain ⟨_, hsq'⟩ := hf'.sq
  rwa [hsq.unpublished_eq, hsq'.unpublished_eq, show s.world.pc = _ from congrArg Core.pc hf.core,
    show x.pc = _ from congrArg Core.pc hf'.core]

/-- **Every step of a goroutine uses up one that was left.** -/
theorem spends {rest : List Stmt} (h : s.Live w k kc) (hk : w.depth.toNat ≤ 2 ^ k)
    (hkc : w.depth.toNat ≤ 2 ^ kc) (hm : s.main = .shutting rest) (hnot : .cancelStore ∉ rest)
    (hs : Step w bk s a s') : s'.stepsLeft w + a.ofGoroutine.toNat ≤ s.stepsLeft w := by
  have hflag : s.world.ring.cancelled = true :=
    h.sync.cancelled rest hm fun he => hnot (he ▸ List.mem_cons_self)
  obtain ⟨-, -, hsend, hsig⟩ := h.quiet hm
  -- a statement of `shutdown` does not touch what the worker counts
  have hstmt : ∀ (st : Stmt) (rest : List Stmt), s.main = .shutting (st :: rest) →
      rest.length + s.worker.stepsLeft (w.stepsLeft s.world.ring.unpublished.length s.world.pc) +
        1 ≤ s.stepsLeft w := by
    intro st rest hm
    rw [stepsLeft, hm, show Main.stmtsLeft (.shutting (st :: rest)) = rest.length + 1 from rfl]
    omega
  cases hs with
  | prepare hm' _ _ | go hm' _ | receive hm' _ | start hm' | close hm' =>
    rw [hm] at hm'
    cases hm'
  | cancelStore hm' =>
    rw [hm] at hm'
    cases hm'
    exact absurd List.mem_cons_self hnot
  | cancelWake hm' | wait hm' _ | release hm' => exact hstmt _ _ hm'
  | command hm' => exact Nat.le_of_succ_le (hstmt _ _ hm')
  | @worker b x hw hb hx =>
    have hrun := h.world_spends hk hkc hflag hx
    have hquiet : ∀ e, x.pc.goroutine ≠ .sending e :=
      ((h.step hk hkc (.worker hw hb hx)).quiet hm).2.2.1
    rw [stepsLeft, stepsLeft, hw, show (s.worked x).worker = x.pc.goroutine from rfl]
    show s.main.stmtsLeft + x.pc.goroutine.stepsLeft
      (w.stepsLeft x.ring.unpublished.length x.pc) + 1 ≤ _
    rw [hb, Bool.toNat_true] at hrun
    obtain ⟨hborn, hgone⟩ := x.pc.goroutine_ne
    cases hg : x.pc.goroutine with
    | unborn => exact absurd hg hborn
    | gone => exact absurd hg hgone
    | sending e => exact absurd hg (hquiet e)
    | running | returning => simp only [Goroutine.stepsLeft]; omega
  | send hw _ => exact absurd hw (hsend _)
  | done hw =>
    rw [stepsLeft, stepsLeft, hw]
    exact Nat.le_refl _
  | signal hs _ =>
    rw [hsig] at hs
    cases hs
  | @kernel b x hb hx =>
    have hrun := h.world_spends hk hkc hflag hx
    have hleft : s.worker.stepsLeft (w.stepsLeft x.ring.unpublished.length x.pc) ≤
        s.worker.stepsLeft (w.stepsLeft s.world.ring.unpublished.length s.world.pc) := by
      cases s.worker with
      | running => simp only [Goroutine.stepsLeft]; omega
      | _ => exact Nat.le_refl _
    exact Nat.add_le_add_left hleft _

end Live

theorem Run.live {b : Worker.Boot β} {as : List SystemAction} (hb : b.Fits w)
    (h : System.Run w bk b as s) :
    ∃ k kc, w.depth.toNat ≤ 2 ^ k ∧ w.depth.toNat ≤ 2 ^ kc ∧ s.Live w k kc := by
  obtain ⟨k, kc, hk, hkc, hle, hlec⟩ := hb.sizes
  refine ⟨k, kc, hle, hlec, ?_⟩
  exact h.invariant (I := fun s => s.Live w k kc) (Live.boot hk hkc) fun s a s' hl _ hs =>
    hl.step hle hlec (step_cases hs)

end System
end
end Ublk
