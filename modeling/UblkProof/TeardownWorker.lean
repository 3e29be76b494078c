import UblkProof.TeardownOrder

/-! # The worker in the system

What is proved of the worker and the kernel alone holds of them inside the system: a run of the
system is a run of `Worker.step` for the ring, the channel and the flag they share, with the
other statements of `New` and `shutdown` left out.  The channel needs an argument, since the
system has the buffer and the two sends as separate steps: `Sync` says how they show in `ready`.
-/
namespace Ublk
open Runs

section
variable {β : Type}

namespace System
variable {w : Worker} {bk : Backend β} {s s' : System β} {a : SystemAction}

/-- How the senders and the buffer show in `ready`, and `shutdown` in the flag. -/
structure Sync (s : System β) : Prop where
  signalling : s.signalling = true → s.world.ready = .sending
  sending : ∀ e, s.worker = .sending e → s.world.ready = .buffered (some e)
  buffered : ∀ err, s.chan = [err] → s.world.ready = .buffered err
  cancelled : ∀ rest, s.main = .shutting rest → rest ≠ shutdownCode →
    s.world.ring.cancelled = true

theorem sync_boot (b : Worker.Boot β) : (boot b).Sync where
  signalling := nofun
  sending := nofun
  buffered := nofun
  cancelled := nofun

/-- The worker's machine gets from `x` to `y`. -/
def Reaches (w : Worker) (bk : Backend β) (x y : World β) : Prop :=
  ∃ as, Runs.Run (w.step bk) (fun _ _ => True) x as y

theorem Reaches.refl (x : World β) : Reaches w bk x x := ⟨[], .start⟩

theorem reaches_step {x y : World β} {b : Action} (h : w.step bk x b = some y) :
    Reaches w bk x y := ⟨[b], Run.start.next trivial h⟩

namespace Sync

/-- The channel and the world stay as they are. -/
theorem frame (h : s.Sync) (hw : s'.world = s.world) (hsig : s'.signalling = s.signalling)
    (hwk : s'.worker.sends = 0 ∨ s'.worker = s.worker) (hc : s'.chan = s.chan)
    (hm : ∀ rest, s'.main = .shutting rest → rest ≠ shutdownCode →
      ∃ rest', s.main = .shutting rest' ∧ rest' ≠ shutdownCode) : s'.Sync := by
  refine ⟨fun hs => ?_, fun e he => ?_, fun err he => ?_, fun rest hr hne => ?_⟩
  · rw [hw]
    exact h.signalling (hsig ▸ hs)
  · rw [hw]
    rcases hwk with hwk | hwk
    · rw [he] at hwk
      cases hwk
    · exact h.sending e (hwk ▸ he)
  · rw [hw]
    exact h.buffered err (hc ▸ he)
  · obtain ⟨rest', hr', hne'⟩ := hm rest hr hne
    rw [hw]
    exact h.cancelled rest' hr' hne'

end Sync

/-- The flag is set by the first statement of `shutdown`. -/
theorem ne_shutdownCode {st : Stmt} {rest : List Stmt} (h : st ≠ .cancelStore) :
    st :: rest ≠ shutdownCode := by
  intro he
  cases he
  exact h rfl

/-- The worker's step. -/
theorem Sync.worked {b : Action} {x : World β} (h : s.Sync) (hm : s.Messages)
    (hb : b.ofWorker = true) (hx : w.step bk s.world b = some x)
    (hinit : ∀ tag, s.world.pc ≠ .init tag) : (s.worked x).Sync := by
  have hcan : ∀ rest, s.main = .shutting rest → rest ≠ shutdownCode → x.ring.cancelled = true :=
    fun rest hr hne => (Worker.step_cancelled hx hb).trans (h.cancelled rest hr hne)
  -- a step after the first system call, or to it, leaves `ready` and the senders alone
  have hkeep : x.ready = s.world.ready → (∀ count, s.world.pc ≠ .startEnter count) →
      x.pc.goroutine.sends = 0 → (s.worked x).Sync := by
    intro hr hpc hsends
    refine ⟨fun hs => ?_, fun e he => ?_, fun err he => hr.trans (h.buffered err he), hcan⟩
    · have hs : (s.signalling || s.world.pc.spawns x.pc) = true := hs
      rw [PC.spawns_other hpc, Bool.or_false] at hs
      exact hr.trans (h.signalling hs)
    · rw [show x.pc.goroutine = .sending e from he] at hsends
      cases hsends
  -- at the system call the worker has the token, so the channel is empty
  have hempty : ∀ count, s.world.pc = .startEnter count → s.chan = [] ∧ s.signalling = false := by
    intro count hpc
    have hone := hm.sent
    have hearly : s.world.pc.early.toNat = 1 := by rw [hpc]; rfl
    refine ⟨(hm.chan_nil ?_).2, ?_⟩
    · rw [pending, hearly]
      omega
    · rw [pending, hearly] at hone
      cases hs : s.signalling with
      | false => rfl
      | true => rw [hs, Bool.toNat_true] at hone; omega
  cases Worker.step_turn hx hb hinit with
  | call hpc hpc' hr => exact hkeep hr (fun _ h => by rw [hpc] at h; cases h) (by rw [hpc']; rfl)
  | launches hpc hpc' hr =>
    obtain ⟨hc, -⟩ := hempty _ hpc
    refine ⟨fun _ => hr, fun e he => ?_, fun err he => ?_, hcan⟩
    · have he : x.pc.goroutine = .sending e := he
      rw [hpc'] at he
      cases he
    · rw [show s.chan = [err] from he] at hc
      cases hc
  | fails hpc hpc' hr =>
    obtain ⟨hc, hsig⟩ := hempty _ hpc
    refine ⟨fun hs => ?_, fun e he => ?_, fun err he => ?_, hcan⟩
    · have hs : (s.signalling || s.world.pc.spawns x.pc) = true := hs
      rw [hsig, hpc, hpc'] at hs
      cases hs
    · have he : x.pc.goroutine = .sending e := he
      rw [hpc'] at he
      cases he
      exact hr
    · rw [show s.chan = [err] from he] at hc
      cases hc
  | late hpc hlate hr =>
    refine hkeep hr (fun count hstart => ?_) hlate.sends
    rw [hstart] at hpc
    cases hpc

/-- **A step of the system is one of the worker's machine, or none.** -/
theorem Sync.step (h : s.Sync) (hm : s.Messages) (hu : s.worker = .unborn ↔ s.main = .preparing)
    (hs : Step w bk s a s') : s'.Sync ∧ Reaches w bk s.world s'.world := by
  cases hs with
  | @prepare x hmain hpc hx =>
    rcases hm.place with ⟨-, hstart | ⟨tag, hinit⟩⟩ | ⟨hne, -⟩
    · exact absurd hstart hpc
    · obtain ⟨-, hr⟩ := Worker.init_keeps hinit hx
      refine ⟨⟨fun hs => hr.trans (h.signalling hs), fun e he => hr.trans (h.sending e he),
        fun err he => hr.trans (h.buffered err he), fun rest hrest => ?_⟩,
        reaches_step (b := .work) hx⟩
      rw [show _ = Main.preparing from hmain] at hrest
      cases hrest
    · exact absurd hmain hne
  | go hmain hpc =>
    refine ⟨h.frame rfl rfl (.inl rfl) rfl fun rest hr => ?_, .refl _⟩
    cases hr
  | @receive err rest hmain hc =>
    obtain ⟨rfl, -, hp⟩ := hm.chan_single hc
    refine ⟨⟨fun hs => ?_, fun e he => ?_, fun err' he => ?_, fun rest hr hne => ?_⟩, ?_⟩
    · have hs : s.signalling = true := hs
      rw [pending, hs] at hp
      cases hp
    · have he : s.worker = .sending e := he
      rw [pending, he] at hp
      have : Goroutine.sends (.sending e) = 1 := rfl
      omega
    · cases he
    · have hr : Main.orCleanup err.isNone .starting = .shutting rest := hr
      cases err <;> cases hr
      exact absurd rfl hne
    · refine reaches_step (b := .receive) ?_
      simp only [Worker.step, h.buffered err hc]
  | @cancelStore rest hmain =>
    exact ⟨⟨h.signalling, h.sending, h.buffered, fun _ _ _ => rfl⟩,
      reaches_step (b := .cancelStore) rfl⟩
  | @cancelWake rest hmain =>
    have hflag := h.cancelled _ hmain (ne_shutdownCode (by simp))
    refine ⟨⟨h.signalling, h.sending, h.buffered, fun _ _ _ => hflag⟩,
      reaches_step (b := .cancelWake) ?_⟩
    simp only [Worker.step, hflag]
    rfl
  | wait hmain _ =>
    exact ⟨h.frame rfl rfl (.inr rfl) rfl fun _ _ _ => ⟨_, hmain, ne_shutdownCode (by simp)⟩,
      .refl _⟩
  | release hmain | command hmain =>
    exact ⟨h.frame rfl rfl (.inr rfl) rfl fun _ _ _ => ⟨_, hmain, ne_shutdownCode (by simp)⟩,
      .refl _⟩
  | @start ok hmain =>
    refine ⟨h.frame rfl rfl (.inr rfl) rfl fun rest hr hne => ?_, .refl _⟩
    have hr : Main.orCleanup ok .serving = .shutting rest := hr
    cases ok <;> cases hr
    exact absurd rfl hne
  | close hmain =>
    refine ⟨h.frame rfl rfl (.inr rfl) rfl fun rest hr hne => ?_, .refl _⟩
    cases hr
    exact absurd rfl hne
  | @worker b x hw hb hx =>
    rcases hm.place with ⟨hprep, -⟩ | ⟨-, hinit⟩
    · rw [hu.mpr hprep] at hw
      cases hw
    · exact ⟨h.worked hm hb hx hinit, reaches_step hx⟩
  | @send e hw hc =>
    refine ⟨⟨h.signalling, fun e' he => ?_, fun err he => ?_, h.cancelled⟩, .refl _⟩
    · cases he
    · cases he
      exact h.sending e hw
  | done hw => exact ⟨h.frame rfl rfl (.inl rfl) rfl fun rest hr hne => ⟨rest, hr, hne⟩, .refl _⟩
  | signal hsig hc =>
    refine ⟨⟨fun hs => ?_, fun e he => ?_, fun err he => ?_, h.cancelled⟩,
      reaches_step (b := .signal) ?_⟩
    · cases hs
    · have he : s.worker = .sending e := he
      have hready := h.sending e he
      rw [h.signalling hsig] at hready
      cases hready
    · cases he
      rfl
    · simp only [Worker.step, h.signalling hsig]
      rfl
  | kernel hk hx =>
    obtain ⟨-, hr, hc⟩ := Worker.kernel_keeps hx hk
    exact ⟨⟨fun hs => hr.trans (h.signalling hs), fun e he => hr.trans (h.sending e he),
      fun err he => hr.trans (h.buffered err he),
      fun rest hrest hne => hc.trans (h.cancelled rest hrest hne)⟩, reaches_step hx⟩

/-- **The worker in the system behaves as the worker alone.** -/
theorem Run.world {b : Worker.Boot β} {as : List SystemAction} (h : System.Run w bk b as s) :
    ∃ as', w.Run bk Anything b as' s.world := by
  have hinv : (∃ ran, s.Releases ran) ∧ s.Messages ∧ s.Sync ∧
      Reaches w bk (Worker.boot b) s.world := by
    refine h.invariant (I := fun s => (∃ ran, s.Releases ran) ∧ s.Messages ∧ s.Sync ∧
      Reaches w bk (Worker.boot b) s.world)
      ⟨⟨[], releases_boot b⟩, messages_boot b, sync_boot b, .refl _⟩ ?_
    rintro s a s' ⟨⟨ran, hr⟩, hm, hy, as', hrun⟩ - hs
    have hs := step_cases hs
    obtain ⟨hy', bs, hbs⟩ := hy.step hm hr.unborn hs
    exact ⟨hr.step hs, hm.step hr.unborn hs, hy', as' ++ bs, hrun.trans hbs⟩
  exact hinv.2.2.2

end System
end
end Ublk
