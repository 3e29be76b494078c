import UblkProof.TagConservation
import UblkProof.TeardownMachine
import UblkProof.WorkerTurn

/-! # Teardown order

Why shutting down is safe: `wg.Wait` returns only once the worker is gone, and everything the
worker uses is released after it.  The order within `shutdown` is a fact about its list of
statements (`shutdownCode_allowed`); `Releases` ties the list to the trace, and the worker's
goroutine to the counter of the wait group.

The message on `ready` is a token: it is with the worker until the first `io_uring_enter`
returns, then with one of the two senders, then in the channel, then received (`Messages`).  So
there is one message, and its sender finds the channel empty.  `System.toGo` counts the steps
that are left until `New` has it.
-/
namespace Ublk
open Runs
open Ublk.Ring (EnterReply)

/-! ## What is allowed when -/

/-- **What must have happened before each mark**, and what must not. -/
def Mark.Allowed (pre : List Mark) : Mark → Prop
  | .used _ => .left ∉ pre ∧ ∀ r, r.ofWorker → .released r ∉ pre
  | .left => .left ∉ pre
  | .released r => .released r ∉ pre ∧ (r.ofWorker → .left ∈ pre)
  | .command c _ =>
      (c ≠ .start → .released .charFD ∈ pre) ∧ ∀ r, r.ofControl → .released r ∉ pre
  | .sent _ => ∀ err, .sent err ∉ pre
  | .received err => .sent err ∈ pre ∧ ∀ err', .received err' ∉ pre

/-- Statements that release a part of the control ring or its file. -/
def Stmt.releasesControl : Stmt → Bool
  | .release r => r.ofControl
  | _ => false

/-- The same for the statements of `shutdown`. -/
def Stmt.Allowed (pre : List Stmt) : Stmt → Prop
  | .release r => .release r ∉ pre ∧ (r.ofWorker → .wait ∈ pre)
  | .command _ => .release .charFD ∈ pre ∧ ∀ st ∈ pre, st.releasesControl = false
  | _ => True

instance (pre : List Stmt) : ∀ st, Decidable (Stmt.Allowed pre st)
  | .release r => inferInstanceAs (Decidable (_ ∧ (r.ofWorker → _)))
  | .command _ => inferInstanceAs (Decidable (_ ∧ ∀ st ∈ pre, st.releasesControl = false))
  | .cancelStore | .cancelWake | .wait => inferInstanceAs (Decidable True)

theorem shutdownCode_allowed : Justified Stmt.Allowed shutdownCode := by decide +kernel

/-- Once something the worker uses is released, `wg.Wait` has returned. -/
theorem waited_of_release {ran rest : List Stmt} (h : ran ++ rest = shutdownCode) {r : Resource}
    (hr : r.ofWorker = true) (hmem : .release r ∈ ran) : .wait ∈ ran := by
  obtain ⟨pre, post, rfl⟩ := List.append_of_mem hmem
  rw [List.append_assoc, List.cons_append] at h
  exact List.mem_append_left _ ((shutdownCode_allowed _ _ _ h.symm).2 hr)

/-! ## Counting -/

/-- Sends on `ready`. -/
def Mark.isSent : Mark → Bool
  | .sent _ => true
  | _ => false

/-- Receives from `ready`. -/
def Mark.isReceived : Mark → Bool
  | .received _ => true
  | _ => false

/-- Is the worker counted by `wg`? -/
def Goroutine.count : Goroutine → Nat
  | .unborn | .gone => 0
  | _ => 1

/-- Is it about to send? -/
def Goroutine.sends : Goroutine → Nat
  | .sending _ => 1
  | _ => 0

/-- How many messages `New` has received. -/
def Main.received : Main → Nat
  | .preparing | .receiving => 0
  | _ => 1

/-- The statements of `shutdown` executed so far are `ran`. -/
def Main.Ran : Main → List Stmt → Prop
  | .shutting rest, ran => ran ++ rest = shutdownCode
  | _, ran => ran = []

theorem Main.orCleanup_ran (ok : Bool) {next : Main} (h : next.Ran []) :
    (Main.orCleanup ok next).Ran [] := by
  cases ok
  · rfl
  · exact h

theorem Main.orCleanup_ne (ok : Bool) {next : Main} (h : next ≠ .preparing) :
    Main.orCleanup ok next ≠ .preparing := by
  cases ok
  · nofun
  · exact h

theorem PC.goroutine_ne (pc : PC) : pc.goroutine ≠ .unborn ∧ pc.goroutine ≠ .gone := by
  cases pc with
  | done exit => cases exit <;> exact ⟨nofun, nofun⟩
  | _ => exact ⟨nofun, nofun⟩

theorem PC.goroutine_early {pc : PC} (h : pc.early = true) : pc.goroutine = .running := by
  cases pc with
  | init _ | start | startEnter _ => rfl
  | _ => cases h

theorem PC.spawns_other {pc pc' : PC} (h : ∀ count, pc ≠ .startEnter count) :
    pc.spawns pc' = false := by
  cases pc with
  | startEnter count => exact absurd rfl (h count)
  | _ => rfl

theorem Goroutine.count_of_ne {g : Goroutine} (h : g ≠ .unborn) (h' : g ≠ .gone) :
    g.count = 1 := by
  cases g with
  | unborn => exact absurd rfl h
  | gone => exact absurd rfl h'
  | _ => rfl

section
variable {β : Type}

theorem PC.Late.sends {pc : PC} (h : pc.Late) : pc.goroutine.sends = 0 := by
  cases pc with
  | done exit =>
    cases exit with
    | fetchFailed e => exact absurd rfl (h.fetched e)
    | _ => rfl
  | _ => rfl

namespace System
variable {w : Worker} {bk : Backend β} {s s' : System β} {a : SystemAction} {ran : List Stmt}

/-! ## Releases wait for the worker -/

/-- The statements executed, the wait group and the trace agree. -/
structure Releases (s : System β) (ran : List Stmt) : Prop where
  main : s.main.Ran ran
  unborn : s.worker = .unborn ↔ s.main = .preparing
  wg : s.wg = s.worker.count
  waited : .wait ∈ ran → s.worker = .gone
  left : .left ∈ s.trace ↔ s.worker = .gone
  released : ∀ r, .released r ∈ s.trace ↔ .release r ∈ ran

theorem releases_boot (b : Worker.Boot β) : (boot b).Releases [] where
  main := rfl
  unborn := ⟨fun _ => rfl, fun _ => rfl⟩
  wg := rfl
  waited := fun h => absurd h List.not_mem_nil
  left := ⟨fun h => absurd h List.not_mem_nil, nofun⟩
  released := fun _ => ⟨fun h => absurd h List.not_mem_nil, fun h => absurd h List.not_mem_nil⟩

namespace Releases

/-- Before `shutdown` nothing is released. -/
theorem ran_nil (h : s.Releases ran) (hm : ∀ rest, s.main ≠ .shutting rest) : ran = [] := by
  have hr := h.main
  cases hs : s.main with
  | shutting rest => exact absurd hs (hm rest)
  | _ => rw [hs] at hr; exact hr

/-- The goroutine of `New` moves on; `ms` are its marks. -/
theorem main_moves {ms : List Mark} {ran' : List Stmt} (h : s.Releases ran)
    (hw : s'.worker = s.worker ∧ s'.wg = s.wg) (ht : s'.trace = s.trace ++ ms)
    (hprep : s.main ≠ .preparing ∧ s'.main ≠ .preparing) (hm : s'.main.Ran ran')
    (hwait : .wait ∈ ran' → s.worker = .gone) (hleft : .left ∉ ms)
    (hrel : ∀ r, .release r ∈ ran' ↔ .release r ∈ ran ∨ .released r ∈ ms) :
    s'.Releases ran' := by
  refine ⟨hm, ?_, by rw [hw.1, hw.2, h.wg], fun hr => by rw [hw.1, hwait hr], ?_, fun r => ?_⟩
  · rw [hw.1]
    exact ⟨fun hu => absurd (h.unborn.mp hu) hprep.1, fun hp => absurd hp hprep.2⟩
  · rw [ht, hw.1, List.mem_append, or_iff_left hleft, h.left]
  · rw [ht, List.mem_append, hrel, h.released]

/-- From `New` to `shutdown`: nothing of it has been executed. -/
theorem enters {ms : List Mark} (h : s.Releases ran) (hnot : ∀ rest, s.main ≠ .shutting rest)
    (hw : s'.worker = s.worker ∧ s'.wg = s.wg) (ht : s'.trace = s.trace ++ ms)
    (hprep : s.main ≠ .preparing ∧ s'.main ≠ .preparing) (hm : s'.main.Ran [])
    (hms : .left ∉ ms ∧ ∀ r, .released r ∉ ms) : s'.Releases [] := by
  refine h.main_moves hw ht hprep hm (fun hr => absurd hr List.not_mem_nil) hms.1 fun r => ?_
  rw [h.ran_nil hnot, or_iff_left (hms.2 r)]

/-- A statement of `shutdown`. -/
theorem executes {ms : List Mark} {st : Stmt} {rest : List Stmt} (h : s.Releases ran)
    (hm : s.main = .shutting (st :: rest)) (hm' : s'.main = .shutting rest)
    (hw : s'.worker = s.worker ∧ s'.wg = s.wg) (ht : s'.trace = s.trace ++ ms)
    (hst : st = .wait → s.worker = .gone) (hleft : .left ∉ ms)
    (hrel : ∀ r, .released r ∈ ms ↔ st = .release r) : s'.Releases (ran ++ [st]) := by
  have hran := h.main
  rw [hm] at hran
  refine h.main_moves hw ht ?_ ?_ (fun hr => ?_) hleft fun r => ?_
  · rw [hm, hm']
    exact ⟨nofun, nofun⟩
  · rw [hm']
    show (ran ++ [st]) ++ rest = shutdownCode
    rw [List.append_assoc]
    exact hran
  · rcases List.mem_append.mp hr with hr | hr
    · exact h.waited hr
    · exact hst (List.mem_singleton.mp hr).symm
  · rw [List.mem_append, List.mem_singleton, hrel, @eq_comm _ st]

/-- The worker's goroutine moves on. -/
theorem worker_moves {ms : List Mark} (h : s.Releases ran)
    (hw : s.worker ≠ .unborn ∧ s.worker ≠ .gone) (hw' : s'.worker ≠ .unborn)
    (hwg : s'.wg = s'.worker.count) (hm : s'.main = s.main) (ht : s'.trace = s.trace ++ ms)
    (hleft : .left ∈ ms ↔ s'.worker = .gone) (hrel : ∀ r, .released r ∉ ms) :
    s'.Releases ran := by
  refine ⟨hm ▸ h.main, ?_, hwg, fun hr => absurd (h.waited hr) hw.2, ?_, fun r => ?_⟩
  · rw [hm]
    exact ⟨fun hu => absurd hu hw', fun hp => absurd (h.unborn.mpr hp) hw.1⟩
  · rw [ht, List.mem_append, h.left, or_iff_right hw.2, hleft]
  · rw [ht, List.mem_append, or_iff_left (hrel r), h.released]

/-- At `wg.Wait` with the counter at zero, the worker is gone. -/
theorem gone_of_wait (h : s.Releases ran) {rest : List Stmt} (hm : s.main = .shutting rest)
    (hwg : s.wg = 0) : s.worker = .gone := by
  have hcount := h.wg
  rw [hwg] at hcount
  cases hw : s.worker with
  | gone => rfl
  | unborn =>
    have hp := h.unborn.mp hw
    rw [hm] at hp
    cases hp
  | _ => rw [hw] at hcount; cases hcount

theorem step (h : s.Releases ran) (hs : Step w bk s a s') : ∃ ran', s'.Releases ran' := by
  cases hs with
  | prepare _ _ _ | kernel _ _ =>
    exact ⟨ran, h.main, h.unborn, h.wg, h.waited, h.left, h.released⟩
  | go hm hpc =>
    have hu := h.unborn.mpr hm
    have hnil := h.ran_nil (by rw [hm]; nofun)
    refine ⟨ran, hnil, ⟨nofun, nofun⟩, ?_, fun hw => ?_, ?_, h.released⟩
    · rw [h.wg, hu]
      rfl
    · rw [hnil] at hw
      exact absurd hw List.not_mem_nil
    · rw [h.left, hu]
      exact ⟨nofun, nofun⟩
  | receive hm _ | start hm =>
    exact ⟨[], h.enters (by rw [hm]; nofun) ⟨rfl, rfl⟩ rfl
      ⟨by rw [hm]; nofun, Main.orCleanup_ne _ nofun⟩ (Main.orCleanup_ran _ rfl) (by simp)⟩
  | close hm =>
    exact ⟨[], h.enters (by rw [hm]; nofun) ⟨rfl, rfl⟩ (List.append_nil _).symm
      ⟨by rw [hm]; nofun, nofun⟩ rfl (by simp)⟩
  | cancelStore hm | cancelWake hm =>
    exact ⟨_, h.executes hm rfl ⟨rfl, rfl⟩ (List.append_nil _).symm nofun (by simp) (by simp)⟩
  | wait hm hwg =>
    exact ⟨_, h.executes hm rfl ⟨rfl, rfl⟩ (List.append_nil _).symm
      (fun _ => h.gone_of_wait hm hwg) (by simp) (by simp)⟩
  | release hm => exact ⟨_, h.executes hm rfl ⟨rfl, rfl⟩ rfl nofun (by simp) (by simp [eq_comm])⟩
  | command hm => exact ⟨_, h.executes hm rfl ⟨rfl, rfl⟩ rfl nofun (by simp) (by simp)⟩
  | @worker b x hw ha hx =>
    obtain ⟨hu, hg⟩ := x.pc.goroutine_ne
    refine ⟨ran, h.worker_moves (by rw [hw]; exact ⟨nofun, nofun⟩) hu ?_ rfl rfl ?_ (by simp)⟩
    · rw [show (s.worked x).wg = s.wg from rfl, h.wg, hw]
      exact (Goroutine.count_of_ne hu hg).symm
    · exact ⟨fun hl => by simp at hl, fun he => absurd he hg⟩
  | send hw _ | done hw =>
    refine ⟨ran, h.worker_moves (by rw [hw]; exact ⟨nofun, nofun⟩) nofun ?_ rfl rfl (by simp)
      (by simp)⟩
    show _ = _
    simp only [h.wg, hw]
    rfl
  | signal _ _ =>
    exact ⟨ran, h.main, h.unborn, h.wg, h.waited, by simpa using h.left,
      fun r => by simpa using h.released r⟩

end Releases

/-! ## One message -/

/-- Who can still send: the worker before its first system call has returned, and the two
senders. -/
def pending (s : System β) : Nat :=
  s.world.pc.early.toNat + s.worker.sends + s.signalling.toNat

/-- There is one token, and the channel and the trace show where it is. -/
structure Messages (s : System β) : Prop where
  place : (s.main = .preparing ∧ (s.world.pc = .start ∨ ∃ tag, s.world.pc = .init tag)) ∨
    (s.main ≠ .preparing ∧ ∀ tag, s.world.pc ≠ .init tag)
  awake : s.world.pc.early = true → s.worker = .unborn ∨ s.worker = .running
  sent : s.trace.countP Mark.isSent + s.pending = 1
  chan : s.chan.length + s.main.received = s.trace.countP Mark.isSent
  received : s.trace.countP Mark.isReceived = s.main.received
  content : ∀ err ∈ s.chan, .sent err ∈ s.trace

theorem messages_boot (b : Worker.Boot β) : (boot b).Messages where
  place := .inl ⟨rfl, .inr ⟨0, rfl⟩⟩
  awake := fun _ => .inl rfl
  sent := rfl
  chan := rfl
  received := rfl
  content := fun _ h => absurd h List.not_mem_nil

namespace Messages

/-- A step that neither sends nor receives. -/
theorem frame {ms : List Mark} (h : s.Messages) (ht : s'.trace = s.trace ++ ms)
    (hms : ms.countP Mark.isSent = 0 ∧ ms.countP Mark.isReceived = 0) (hc : s'.chan = s.chan)
    (hr : s'.main.received = s.main.received) (hp : s'.pending = s.pending)
    (hplace : (s'.main = .preparing ∧
        (s'.world.pc = .start ∨ ∃ tag, s'.world.pc = .init tag)) ∨
      (s'.main ≠ .preparing ∧ ∀ tag, s'.world.pc ≠ .init tag))
    (hawake : s'.world.pc.early = true → s'.worker = .unborn ∨ s'.worker = .running) :
    s'.Messages := by
  have hsent : s'.trace.countP Mark.isSent = s.trace.countP Mark.isSent := by
    rw [ht, List.countP_append, hms.1, Nat.add_zero]
  refine ⟨hplace, hawake, by rw [hsent, hp, h.sent], by rw [hc, hr, hsent, h.chan], ?_, ?_⟩
  · rw [ht, List.countP_append, hms.2, Nat.add_zero, h.received, hr]
  · intro err herr
    rw [ht]
    exact List.mem_append_left _ (h.content err (hc ▸ herr))

/-- The goroutine of `New`, once it has its message. -/
theorem main_moves {ms : List Mark} (h : s.Messages) (ht : s'.trace = s.trace ++ ms)
    (hms : ms.countP Mark.isSent = 0 ∧ ms.countP Mark.isReceived = 0) (hc : s'.chan = s.chan)
    (hr : s.main.received = 1 ∧ s'.main.received = 1) (hp : s'.pending = s.pending)
    (hpc : s'.world.pc = s.world.pc) (hw : s'.worker = s.worker) : s'.Messages := by
  refine h.frame ht hms hc (hr.2.trans hr.1.symm) hp (.inr ⟨?_, ?_⟩)
    (by rw [hpc, hw]; exact h.awake)
  · intro hm
    rw [hm] at hr
    exact absurd hr.2 (by decide)
  · rw [hpc]
    rcases h.place with ⟨hm, -⟩ | ⟨-, hpc⟩
    · rw [hm] at hr
      exact absurd hr.1 (by decide)
    · exact hpc

/-- A message goes into the channel, which is empty. -/
theorem sends {err : Option UringError} (h : s.Messages) (hc : s.chan = [])
    (hc' : s'.chan = [err]) (ht : s'.trace = s.trace ++ [.sent err]) (hm : s'.main = s.main)
    (hpc : s'.world.pc = s.world.pc) (hp : s'.pending + 1 = s.pending)
    (hw : s'.worker = s.worker ∨ s.worker.sends = 1) : s'.Messages := by
  have hsent := h.sent
  have hchan := h.chan
  rw [hc, List.length_nil] at hchan
  have hcount : s'.trace.countP Mark.isSent = s.trace.countP Mark.isSent + 1 := by
    rw [ht, List.countP_append]
    rfl
  refine ⟨by rw [hm, hpc]; exact h.place, ?_, by omega, ?_, ?_, ?_⟩
  · rw [hpc]
    intro he
    rcases hw with hw | hw
    · rw [hw]
      exact h.awake he
    · rcases h.awake he with hs | hs <;> rw [hs] at hw <;> cases hw
  · rw [hc', hm, hcount, List.length_singleton]
    omega
  · rw [ht, hm, List.countP_append, h.received]
    rfl
  · intro e he
    rw [hc', List.mem_singleton] at he
    rw [ht, he]
    exact List.mem_append_right _ (List.mem_singleton_self _)

/-- Between the channel and the senders: a sender finds the channel empty. -/
theorem chan_nil (h : s.Messages) (hp : 0 < s.pending) :
    s.trace.countP Mark.isSent = 0 ∧ s.chan = [] := by
  have hsent := h.sent
  have hchan := h.chan
  have hzero : s.trace.countP Mark.isSent = 0 := by omega
  exact ⟨hzero, List.length_eq_zero_iff.mp (by omega)⟩

/-- A message in the channel is the only one, and no one sends another. -/
theorem chan_single (h : s.Messages) {err : Option UringError} {rest : List (Option UringError)}
    (hc : s.chan = err :: rest) : rest = [] ∧ s.main.received = 0 ∧ s.pending = 0 := by
  have hsent := h.sent
  have hchan := h.chan
  rw [hc, List.length_cons] at hchan
  exact ⟨List.length_eq_zero_iff.mp (by omega), by omega, by omega⟩

theorem received_one (h : s.Messages) (hr : s.main.received = 1) : s.chan = [] ∧ s.pending = 0 := by
  have hsent := h.sent
  have hchan := h.chan
  exact ⟨List.length_eq_zero_iff.mp (by omega), by omega⟩

end Messages

/-- The worker's step keeps the token or hands it on. -/
theorem pending_worked {b : Action} {x : World β} (hm : s.Messages) (hw : s.worker = .running)
    (hb : b.ofWorker = true) (hx : w.step bk s.world b = some x)
    (hinit : ∀ tag, s.world.pc ≠ .init tag) : (s.worked x).pending = s.pending := by
  have hone : s.world.pc.early.toNat + s.signalling.toNat ≤ 1 := by
    have hsent := hm.sent
    unfold pending at hsent
    omega
  show x.pc.early.toNat + x.pc.goroutine.sends + (s.signalling || s.world.pc.spawns x.pc).toNat =
    s.world.pc.early.toNat + s.worker.sends + s.signalling.toNat
  rw [hw]
  -- nobody else is about to send at the first system call
  have hsig : ∀ count, s.world.pc = .startEnter count → s.signalling = false := by
    intro count hpc
    rw [hpc] at hone
    cases hs : s.signalling with
    | false => rfl
    | true => rw [hs] at hone; exact absurd hone (Nat.not_succ_le_self 1)
  cases Worker.step_turn hx hb hinit with
  | @call count hpc hpc' hr =>
    rw [hpc, hpc', show PC.spawns .start (.startEnter count) = false from rfl, Bool.or_false]
    rfl
  | launches hpc hpc' hr => rw [hpc, hpc', hsig _ hpc]; rfl
  | fails hpc hpc' hr => rw [hpc, hpc', hsig _ hpc]; rfl
  | late hpc hlate hr =>
    have hother : ∀ count, s.world.pc ≠ .startEnter count := by
      intro count hstart
      rw [hstart] at hpc
      cases hpc
    rw [hpc, hlate.early, hlate.sends, PC.spawns_other hother, Bool.or_false]
    rfl

theorem Messages.step (h : s.Messages) (hu : s.worker = .unborn ↔ s.main = .preparing)
    (hs : Step w bk s a s') : s'.Messages := by
  cases hs with
  | @prepare x hm hpc hx =>
    rcases h.place with ⟨-, hstart | ⟨tag, hinit⟩⟩ | ⟨hne, -⟩
    · exact absurd hstart hpc
    · obtain ⟨hpc', -⟩ := Worker.init_keeps hinit hx
      refine h.frame (List.append_nil _).symm ⟨rfl, rfl⟩ rfl rfl ?_ (.inl ⟨hm, hpc'⟩)
        fun _ => .inl (hu.mpr hm)
      show x.pc.early.toNat + _ + _ = s.world.pc.early.toNat + _ + _
      rcases hpc' with hpc' | ⟨tag', hpc'⟩ <;> rw [hpc', hinit] <;> rfl
    · exact absurd hm hne
  | go hm hpc =>
    refine h.frame (List.append_nil _).symm ⟨rfl, rfl⟩ rfl (by rw [hm]; rfl) ?_
      (.inr ⟨nofun, ?_⟩) fun _ => .inr rfl
    · show _ + Goroutine.sends .running + _ = _ + s.worker.sends + _
      rw [hu.mpr hm]
      rfl
    · rw [hpc]
      nofun
  | @receive err rest hm hc =>
    obtain ⟨rfl, hr, hp⟩ := h.chan_single hc
    have hsent := h.sent
    have hcount : ∀ p : Mark → Bool, (s.trace ++ [Mark.received err]).countP p =
        s.trace.countP p + if p (Mark.received err) then 1 else 0 := by
      intro p
      rw [List.countP_append, List.countP_singleton]
    have hone : (Main.orCleanup err.isNone .starting).received = 1 := by
      cases err <;> rfl
    refine ⟨.inr ⟨Main.orCleanup_ne _ nofun, ?_⟩, h.awake, ?_, ?_, ?_, nofun⟩
    · rcases h.place with ⟨hne, -⟩ | ⟨-, hpc⟩
      · rw [hm] at hne
        cases hne
      · exact hpc
    · rw [hcount]
      exact hsent
    · rw [hcount, hone]
      show 0 + 1 = s.trace.countP Mark.isSent + 0
      omega
    · rw [hcount, hone, h.received, hr]
      rfl
  | cancelStore hm | cancelWake hm | wait hm _ =>
    exact h.main_moves (List.append_nil _).symm ⟨rfl, rfl⟩ rfl ⟨by rw [hm]; rfl, rfl⟩ rfl rfl rfl
  | release hm | command hm =>
    exact h.main_moves rfl ⟨rfl, rfl⟩ rfl ⟨by rw [hm]; rfl, rfl⟩ rfl rfl rfl
  | @start ok hm =>
    refine h.main_moves rfl ⟨rfl, rfl⟩ rfl ⟨by rw [hm]; rfl, ?_⟩ rfl rfl rfl
    cases ok <;> rfl
  | close hm =>
    exact h.main_moves (List.append_nil _).symm ⟨rfl, rfl⟩ rfl ⟨by rw [hm]; rfl, rfl⟩ rfl rfl rfl
  | @worker b x hw hb hx =>
    rcases h.place with ⟨hm, -⟩ | ⟨hm, hinit⟩
    · rw [hu.mpr hm] at hw
      cases hw
    refine h.frame rfl ?_ rfl rfl (pending_worked h hw hb hx hinit) (.inr ⟨hm, ?_⟩)
      fun he => .inr (PC.goroutine_early he)
    · exact ⟨by simp [List.countP_map, Function.comp_def, Mark.isSent],
        by simp [List.countP_map, Function.comp_def, Mark.isReceived]⟩
    · intro tag htag
      have htag : x.pc = .init tag := htag
      cases Worker.step_turn hx hb hinit with
      | call _ hpc _ | launches _ hpc _ | fails _ hpc _ =>
        rw [hpc] at htag
        cases htag
      | late _ hlate _ =>
        have hearly := hlate.early
        rw [htag] at hearly
        cases hearly
  | @send e hw hc =>
    refine h.sends hc rfl rfl rfl rfl ?_ (.inr (by rw [hw]; rfl))
    show s.world.pc.early.toNat + 0 + s.signalling.toNat + 1 = _ + s.worker.sends + _
    rw [hw]
    exact Nat.add_right_comm _ _ _
  | done hw =>
    refine h.frame rfl ⟨rfl, rfl⟩ rfl rfl ?_ h.place fun he => ?_
    · show _ + 0 + _ = _ + s.worker.sends + _
      rw [hw]
      rfl
    · rcases h.awake he with hs | hs <;> rw [hw] at hs <;> cases hs
  | signal hs hc =>
    refine h.sends hc rfl rfl rfl rfl ?_ (.inl rfl)
    show _ + _ + 0 + 1 = _ + _ + s.signalling.toNat
    rw [hs]
    rfl
  | kernel hk hx =>
    have hpc := (Worker.kernel_keeps hx hk).1
    refine h.frame (List.append_nil _).symm ⟨rfl, rfl⟩ rfl rfl ?_ ?_ ?_
    · show _ + _ + _ = _ + _ + _
      rw [hpc]
    · rw [hpc]
      exact h.place
    · rw [hpc]
      exact h.awake

/-! ## The order of marks -/

/-- What the worker uses is still there while it is in `run`. -/
theorem Releases.unreleased (h : s.Releases ran) (hw : s.worker ≠ .gone) {r : Resource}
    (hr : r.ofWorker = true) : .released r ∉ s.trace := by
  intro hmem
  rw [h.released] at hmem
  refine hw (h.waited ?_)
  have hran := h.main
  cases hm : s.main with
  | shutting rest =>
    rw [hm] at hran
    exact waited_of_release hran hr hmem
  | _ =>
    rw [hm] at hran
    rw [show ran = [] from hran] at hmem
    exact absurd hmem List.not_mem_nil

/-- **Every mark is allowed when it is made.** -/
theorem orderly_step (h : Justified Mark.Allowed s.trace) (hr : s.Releases ran) (hm : s.Messages)
    (hs : Step w bk s a s') : Justified Mark.Allowed s'.trace := by
  cases hs with
  | prepare _ _ _ | kernel _ _ | go _ _ | cancelStore _ | cancelWake _ | wait _ _ | close _ =>
    exact h
  | @receive err rest hmain hc =>
    refine justified_concat.mpr ⟨h, hm.content err (by rw [hc]; exact List.mem_cons_self), ?_⟩
    intro err' hmem
    have hzero := hm.received
    rw [hmain] at hzero
    exact absurd rfl (List.countP_eq_zero.mp hzero _ hmem)
  | @release r rest hmain =>
    have hran := hr.main
    rw [hmain] at hran
    obtain ⟨hnew, hwait⟩ := shutdownCode_allowed _ _ _ hran.symm
    refine justified_concat.mpr ⟨h, fun hmem => hnew ((hr.released r).mp hmem), fun hw => ?_⟩
    exact hr.left.mpr (hr.waited (hwait hw))
  | @start ok hmain =>
    refine justified_concat.mpr ⟨h, fun hc => absurd rfl hc, fun r _ hmem => ?_⟩
    rw [hr.released, hr.ran_nil (by rw [hmain]; nofun)] at hmem
    exact absurd hmem List.not_mem_nil
  | @command c rest ok hmain =>
    have hran := hr.main
    rw [hmain] at hran
    obtain ⟨hchar, hctrl⟩ := shutdownCode_allowed _ _ _ hran.symm
    refine justified_concat.mpr ⟨h, fun _ => (hr.released _).mpr hchar, fun r hofc hmem => ?_⟩
    have hfalse : r.ofControl = false := hctrl _ ((hr.released r).mp hmem)
    rw [hofc] at hfalse
    cases hfalse
  | @worker b x hw hb hx =>
    refine justified_append.mpr ⟨h, fun pre m post he => ?_⟩
    have hused : ∀ m' ∈ pre ++ m :: post, ∃ acc, m' = .used acc := by
      intro m' hmem
      rw [← he] at hmem
      obtain ⟨acc, -, rfl⟩ := List.mem_map.mp hmem
      exact ⟨acc, rfl⟩
    obtain ⟨acc, rfl⟩ := hused m (List.mem_append_right _ List.mem_cons_self)
    have hgone : s.worker ≠ .gone := by rw [hw]; nofun
    refine ⟨fun hmem => ?_, fun r hofw hmem => ?_⟩ <;>
      rcases List.mem_append.mp hmem with hmem | hmem
    · exact hgone (hr.left.mp hmem)
    · obtain ⟨acc', he'⟩ := hused _ (List.mem_append_left _ hmem)
      cases he'
    · exact hr.unreleased hgone hofw hmem
    · obtain ⟨acc', he'⟩ := hused _ (List.mem_append_left _ hmem)
      cases he'
  | @send e hw hc =>
    refine justified_concat.mpr ⟨h, fun err hmem => ?_⟩
    have hp : 0 < s.pending := by
      unfold pending
      rw [hw]
      show 0 < _ + 1 + _
      omega
    exact absurd rfl (List.countP_eq_zero.mp (hm.chan_nil hp).1 _ hmem)
  | done hw =>
    refine justified_concat.mpr ⟨h, fun hmem => ?_⟩
    have := hr.left.mp hmem
    rw [hw] at this
    cases this
  | signal hsig hc =>
    refine justified_concat.mpr ⟨h, fun err hmem => ?_⟩
    have hp : 0 < s.pending := by
      unfold pending
      rw [hsig]
      exact Nat.succ_pos _
    exact absurd rfl (List.countP_eq_zero.mp (hm.chan_nil hp).1 _ hmem)

/-! ## The message arrives -/

/-- The statements of `SubmitAndWait` that are left, before the message is sent. -/
def toSend (pc : PC) : Nat :=
  match pc with
  | .start => 4
  | .startEnter _ => 3
  | _ => 0

/-- How many steps `New` is from its message: one to receive it, one to send it, and the two of
`SubmitAndWait`. -/
def toGo (s : System β) : Nat :=
  toSend s.world.pc + 2 * (s.worker.sends + s.signalling.toNat) + s.chan.length

theorem toSend_late {pc : PC} (h : pc.early = false) : toSend pc = 0 := by
  cases pc with
  | start | startEnter _ => cases h
  | _ => rfl

/-- The two statements of `SubmitAndWait` lead to the message, the others leave it alone. -/
theorem toGo_worked {b : Action} {x : World β} (hm : s.Messages) (hw : s.worker = .running)
    (hb : b.ofWorker = true) (hx : w.step bk s.world b = some x)
    (hinit : ∀ tag, s.world.pc ≠ .init tag) :
    (s.worked x).toGo + s.world.pc.early.toNat = s.toGo := by
  have hpend := pending_worked hm hw hb hx hinit
  have hone := hm.sent
  simp only [toGo, pending, worked, hw] at hpend hone ⊢
  cases Worker.step_turn hx hb hinit with
  | call hpc hpc' _ =>
    have hsend : toSend s.world.pc = 4 ∧ toSend x.pc = 3 := by rw [hpc, hpc']; exact ⟨rfl, rfl⟩
    have hearly : s.world.pc.early.toNat = 1 ∧ x.pc.early.toNat = 1 := by
      rw [hpc, hpc']
      exact ⟨rfl, rfl⟩
    omega
  | launches hpc hpc' _ | fails hpc hpc' _ =>
    have hsend : toSend s.world.pc = 3 ∧ toSend x.pc = 0 := by rw [hpc, hpc']; exact ⟨rfl, rfl⟩
    have hearly : s.world.pc.early.toNat = 1 ∧ x.pc.early.toNat = 0 := by
      rw [hpc, hpc']
      exact ⟨rfl, rfl⟩
    omega
  | late hpc hlate _ =>
    rw [toSend_late hlate.early, toSend_late hpc]
    rw [hlate.early, hpc] at hpend
    rw [hpc, Bool.toNat_false]
    omega

/-- **No step leads away from the message.** -/
theorem toGo_step (hm : s.Messages) (hrecv : s.main = .receiving) (hs : Step w bk s a s') :
    s'.toGo ≤ s.toGo := by
  have hinit : ∀ tag, s.world.pc ≠ .init tag := by
    rcases hm.place with ⟨hprep, -⟩ | ⟨-, hinit⟩
    · rw [hrecv] at hprep
      cases hprep
    · exact hinit
  cases hs with
  | prepare h _ _ | go h _ | cancelStore h | cancelWake h | wait h _ | release h | start h
  | command h | close h =>
    rw [hrecv] at h
    cases h
  | receive _ hc =>
    simp only [toGo, hc, List.length_cons]
    omega
  | worker hw hb hx =>
    have := toGo_worked hm hw hb hx hinit
    omega
  | send hw hc =>
    simp only [toGo, hw, hc, Goroutine.sends, List.length_cons, List.length_nil]
    omega
  | done hw => simp only [toGo, hw, Goroutine.sends, Nat.le_refl]
  | signal hs hc =>
    simp only [toGo, hs, hc, Bool.toNat_true, Bool.toNat_false, List.length_cons, List.length_nil]
    omega
  | kernel hk hx => simp only [toGo, (Worker.kernel_keeps hx hk).1, Nat.le_refl]

/-- A sender that finds the channel empty sends. -/
theorem send_enabled {e : UringError} (hw : s.worker = .sending e) (hc : s.chan = []) :
    s.step w bk .send = some { s with
      worker := .returning, chan := [some e], trace := s.trace ++ [.sent (some e)] } := by
  simp only [step, send, hw, hc]
  rfl

theorem signal_enabled (hs : s.signalling = true) (hc : s.chan = []) :
    s.step w bk .signal = some { s with
      world := { s.world with ready := .buffered none }
      signalling := false
      chan := [none]
      trace := s.trace ++ [.sent none] } := by
  simp only [step, signal, hs, hc]
  rfl

theorem receive_enabled {err : Option UringError} {rest : List (Option UringError)}
    (hm : s.main = .receiving) (hc : s.chan = err :: rest) :
    s.step w bk .main = some { s with
      world := { s.world with ready := .received err }
      chan := rest
      trace := s.trace ++ [.received err]
      main := .orCleanup err.isNone .starting } := by
  simp only [step, mainStep, hm, hc]

/-- **Some step leads to it**, while `New` waits. -/
theorem toGo_lt (hm : s.Messages) (hu : s.worker = .unborn ↔ s.main = .preparing)
    (hrecv : s.main = .receiving) :
    ∃ a s', s.step w bk a = some s' ∧ s'.toGo < s.toGo := by
  have hsent := hm.sent
  have hchan := hm.chan
  rw [hrecv] at hchan
  rcases hc : s.chan with _ | ⟨err, rest⟩
  · rw [hc] at hchan
    -- the channel is empty, so someone has the token
    cases hsig : s.signalling with
    | true =>
      refine ⟨.signal, _, signal_enabled hsig hc, ?_⟩
      simp only [toGo, hsig, hc, Bool.toNat_true, Bool.toNat_false, List.length_cons,
        List.length_nil]
      omega
    | false =>
    cases hw : s.worker with
    | sending e =>
      refine ⟨.send, _, send_enabled hw hc, ?_⟩
      simp only [toGo, hw, hc, Goroutine.sends, List.length_cons, List.length_nil]
      omega
    | _ =>
      have hearly : s.world.pc.early = true := by
        cases he : s.world.pc.early with
        | true => rfl
        | false =>
          simp only [pending, hw, hsig, he, Goroutine.sends] at hsent
          have : s.trace.countP Mark.isSent = 0 := hchan.symm
          rw [this] at hsent
          cases hsent
      have hrun : s.worker = .running := by
        rcases hm.awake hearly with hun | hrun
        · rw [hu.mp hun] at hrecv
          cases hrecv
        · exact hrun
      have hinit : ∀ tag, s.world.pc ≠ .init tag := by
        rcases hm.place with ⟨hprep, -⟩ | ⟨-, hinit⟩
        · rw [hrecv] at hprep
          cases hprep
        · exact hinit
      obtain ⟨b, hb, hsome⟩ := Worker.early_enabled w bk hearly hinit
      obtain ⟨y, hy⟩ := Option.isSome_iff_exists.mp hsome
      refine ⟨.worker b, s.worked y, ?_, ?_⟩
      · simp only [step, hrun, hb, hy]
        rfl
      · have := toGo_worked hm hrun hb hy hinit
        rw [hearly] at this
        exact Nat.lt_of_succ_le (Nat.le_of_eq this)
  · refine ⟨.main, _, receive_enabled hrecv hc, ?_⟩
    simp only [toGo, hc, List.length_cons]
    omega

/-! ## The result -/

/-- What safe teardown means for the code. -/
structure TeardownSafe (w : Worker) (bk : Backend β) (s : System β) : Prop where
  /-- Each use, release, command and message came at an allowed time. -/
  orderly : Justified Mark.Allowed s.trace
  /-- `New` has received no message before it leaves `<-ready`, and one after it. -/
  received : s.trace.countP Mark.isReceived = s.main.received
  /-- No more than one was sent. -/
  sent : s.trace.countP Mark.isSent ≤ 1
  /-- A goroutine at its send is not blocked there. -/
  unblocked : (∀ e, s.worker = .sending e → (s.step w bk .send).isSome = true) ∧
    (s.signalling = true → (s.step w bk .signal).isSome = true)
  /-- Once `New` has its message there is no other in the channel, and no sender. -/
  single : s.main.received = 1 →
    s.chan = [] ∧ s.signalling = false ∧ ∀ e, s.worker ≠ .sending e
  /-- While `New` waits, some step leads to the message and none leads away from it. -/
  delivered : s.main = .receiving →
    (∃ a s', s.step w bk a = some s' ∧ s'.toGo < s.toGo) ∧
    ∀ a s', s.step w bk a = some s' → s'.toGo ≤ s.toGo

/-- **Teardown never releases what the worker still uses.**  In every interleaving, whichever
calls fail and whenever `Close` is called: the worker uses nothing after a release, the char
device is closed after the worker has left `run`, `STOP_DEV` and `DEL_DEV` are issued after that,
the control ring and descriptor go last, and one message passes through `ready`. -/
theorem teardown_safe (w : Worker) (bk : Backend β) (b : Worker.Boot β) (as : List SystemAction)
    (s : System β) (h : System.Run w bk b as s) : TeardownSafe w bk s := by
  have hinv : (∃ ran, s.Releases ran) ∧ s.Messages ∧ Justified Mark.Allowed s.trace := by
    refine h.invariant
      (I := fun s => (∃ ran, s.Releases ran) ∧ s.Messages ∧ Justified Mark.Allowed s.trace)
      ⟨⟨[], releases_boot b⟩, messages_boot b, justified_nil⟩ ?_
    rintro s a s' ⟨⟨ran, hr⟩, hm, ho⟩ - hs
    have hs := step_cases hs
    exact ⟨hr.step hs, hm.step hr.unborn hs, orderly_step ho hr hm hs⟩
  obtain ⟨⟨ran, hr⟩, hm, ho⟩ := hinv
  have hsent := hm.sent
  refine ⟨ho, hm.received, by omega, ⟨fun e hw => ?_, fun hsig => ?_⟩, fun hone => ?_,
    fun hrecv => ?_⟩
  · have hp : 0 < s.pending := by
      rw [pending, hw]
      exact Nat.lt_add_right _ (Nat.succ_pos _)
    rw [send_enabled hw (hm.chan_nil hp).2]
    rfl
  · have hp : 0 < s.pending := by
      rw [pending, hsig]
      exact Nat.succ_pos _
    rw [signal_enabled hsig (hm.chan_nil hp).2]
    rfl
  · obtain ⟨hc, hp⟩ := hm.received_one hone
    refine ⟨hc, ?_, fun e hw => ?_⟩
    · cases hsig : s.signalling with
      | false => rfl
      | true => rw [pending, hsig] at hp; cases hp
    · rw [pending, hw] at hp
      have : Goroutine.sends (.sending e) = 1 := rfl
      omega
  · exact ⟨toGo_lt hm hr.unborn hrecv, fun a s' hs => toGo_step hm hrecv (step_cases hs)⟩

/-- The small worker from `w.init` to its first system call, which returns `reply`. -/
def smallLaunch (reply : EnterReply) : List SystemAction :=
  List.replicate 5 .main ++ [.worker .work, .worker (.enter reply)]

/-- What is left of `shutdown` at `wg.Wait`. -/
def smallCleanup : List SystemAction :=
  List.replicate 9 .main ++ [.returns true, .returns true] ++ List.replicate 7 .main

/-- `FETCH` fails, and `New` is in `shutdown` before the worker has reached `wg.Done`. -/
def smallFailed : List SystemAction :=
  smallLaunch (.errno 11) ++ [.send, .main, .main, .main, .done] ++ smallCleanup

/-- The device is closed while the worker is blocked in `epoll_wait`. -/
def smallClosed : List SystemAction :=
  smallLaunch (.consumed 3) ++ [.worker .work, .worker .work, .signal, .main, .returns true,
    .close, .main, .main, .worker (.epoll (.events true)), .done] ++ smallCleanup

/-- Both runs of the small worker end with everything released. -/
theorem teardown_safe_small :
    (∃ s : System Unit, System.Run Worker.small fullBackend Worker.smallBoot smallFailed s ∧
      s.main = .shutting [] ∧ TeardownSafe Worker.small fullBackend s) ∧
    ∃ s : System Unit, System.Run Worker.small fullBackend Worker.smallBoot smallClosed s ∧
      s.main = .shutting [] ∧ TeardownSafe Worker.small fullBackend s := by
  have hfailed : ∃ s : System Unit,
      System.Run Worker.small fullBackend Worker.smallBoot smallFailed s ∧ s.main = .shutting [] :=
    exists_run_of_exec (fun s : System Unit => s.main = .shutting []) (by decide +kernel)
  have hclosed : ∃ s : System Unit,
      System.Run Worker.small fullBackend Worker.smallBoot smallClosed s ∧ s.main = .shutting [] :=
    exists_run_of_exec (fun s : System Unit => s.main = .shutting []) (by decide +kernel)
  obtain ⟨s, hs, hend⟩ := hfailed
  obtain ⟨s', hs', hend'⟩ := hclosed
  exact ⟨⟨s, hs, hend, teardown_safe _ _ _ _ s hs⟩, s', hs', hend', teardown_safe _ _ _ _ s' hs'⟩

end System
end
end Ublk
