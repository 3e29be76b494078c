import UblkProof.Once
import UblkProof.ShutdownEnds

/-! # Closing from several goroutines

`Close` is `closeOnce.Do` around `shutdown`, and may be called by any number of goroutines at the
same time.  `Closing` puts the once-object next to the system of `TeardownMachine`: the call that
gets into the function runs the statements of `shutdown`, and leaves it with the error of
`DEL_DEV` once they are executed.  The others wait at the lock, or come later.

Each part has been dealt with by itself (`Once.Inv`, `System.Live`); what connects them is
`Closing.Phase`, where `shutdown` is for each status of the once-object.

A driver that does not answer `STOP_DEV` or `DEL_DEV` keeps the call that runs `shutdown`, and with
it all others; the answer is a step of the kernel here.
-/
namespace Ublk
open Runs

/-! ## The error of `shutdown` -/

/-- `DEL_DEV` has not been issued. -/
def Main.delLeft : Main → Bool
  | .shutting rest => rest.contains (.command .del)
  | _ => true

/-- `DEL_DEV` is being executed. -/
def Main.delNext : Main → Bool
  | .shutting (.command .del :: _) => true
  | _ => false

section
variable {β : Type}

namespace System
variable {w : Worker} {bk : Backend β} {s s' : System β} {a : SystemAction}

/-- The variable `err` of `shutdown`, when it was `err` before the step. -/
def errAfter (s : System β) (err : Bool) : SystemAction → Bool
  | .returns ok => if s.main.delNext then !ok else err
  | _ => err

/-- `err` is set exactly if `DEL_DEV` was issued and failed. -/
structure Verdict (s : System β) (err : Bool) : Prop where
  pending : s.main.delLeft = true → ∀ ok, .command .del ok ∉ s.trace
  eq : err = true ↔ .command .del false ∈ s.trace

theorem verdict_boot (b : Worker.Boot β) : (boot b).Verdict false where
  pending := fun _ _ => List.not_mem_nil
  eq := ⟨nofun, fun h => absurd h List.not_mem_nil⟩

/-- A step that does not end `DEL_DEV`. -/
theorem Verdict.frame {err : Bool} (ms : List Mark) (h : s.Verdict err)
    (ht : s'.trace = s.trace ++ ms) (hms : ∀ ok, Mark.command .del ok ∉ ms)
    (hdel : s'.main.delLeft = true → s.main.delLeft = true) : s'.Verdict err where
  pending := by
    intro hd ok hmem
    rw [ht] at hmem
    rcases List.mem_append.mp hmem with hmem | hmem
    · exact h.pending (hdel hd) ok hmem
    · exact hms ok hmem
  eq := by
    rw [ht, List.mem_append, h.eq]
    exact ⟨.inl, fun hmem => hmem.resolve_right (hms false)⟩

/-- `DEL_DEV` is issued once. -/
theorem del_once {ran rest : List Stmt} (h : ran ++ .command .del :: rest = shutdownCode) :
    Main.delLeft (.shutting rest) = false := by
  have hall : ∀ l ∈ shutdownCode.tails, l.head? = some (.command .del) →
      Main.delLeft (.shutting l.tail) = false := by decide +kernel
  have hsuffix : .command .del :: rest ∈ shutdownCode.tails := by
    rw [List.mem_tails]
    exact ⟨ran, h⟩
  exact hall _ hsuffix rfl

theorem errAfter_eq {err : Bool} (h : s.main.delNext = false) : s.errAfter err a = err := by
  cases a with
  | returns ok => rw [errAfter, h]; rfl
  | _ => rfl

/-- Statements are taken from the front. -/
theorem delLeft_tail {st : Stmt} {rest : List Stmt} (h : s.main = .shutting (st :: rest))
    (hd : Main.delLeft (.shutting rest) = true) : s.main.delLeft = true := by
  rw [h]
  show (st :: rest).contains _ = true
  rw [List.contains_cons, show rest.contains _ = true from hd, Bool.or_true]

theorem Verdict.step {err : Bool} {ran : List Stmt} (h : s.Verdict err) (hr : s.Releases ran)
    (hs : Step w bk s a s') : s'.Verdict (s.errAfter err a) := by
  cases hs with
  | @command c rest ok hm =>
    cases c with
    | del =>
      have hran : ran ++ .command .del :: rest = shutdownCode := by
        have := hr.main
        rwa [hm] at this
      have hd : s.main.delLeft = true := by rw [hm]; rfl
      have herr : s.errAfter err (.returns ok) = !ok := by rw [errAfter, hm]; rfl
      rw [herr]
      refine ⟨fun hd' => ?_, ?_⟩
      · rw [show Main.delLeft _ = false from del_once hran] at hd'
        cases hd'
      · show _ ↔ _ ∈ s.trace ++ [_]
        rw [List.mem_append, List.mem_singleton]
        constructor
        · intro hok
          cases ok with
          | false => exact .inr rfl
          | true => cases hok
        · rintro (hmem | heq)
          · exact absurd hmem (h.pending hd _)
          · cases heq
            rfl
    | start | stop =>
      rw [errAfter_eq (by rw [hm]; rfl)]
      exact h.frame [_] rfl (by simp) (delLeft_tail hm)
  | start hm =>
    rw [errAfter_eq (by rw [hm]; rfl)]
    exact h.frame [_] rfl (by simp) fun _ => by rw [hm]; rfl
  | go hm _ | close hm =>
    exact h.frame [] (List.append_nil _).symm (by simp) fun _ => by rw [hm]; rfl
  | receive hm _ => exact h.frame [_] rfl (by simp) fun _ => by rw [hm]; rfl
  | cancelStore hm | cancelWake hm | wait hm _ =>
    exact h.frame [] (List.append_nil _).symm (by simp) (delLeft_tail hm)
  | release hm => exact h.frame [_] rfl (by simp) (delLeft_tail hm)
  | prepare _ _ _ | kernel _ _ =>
    exact h.frame [] (List.append_nil _).symm (by simp) id
  | worker _ _ _ => exact h.frame (List.map _ _) rfl (by simp) id
  | send _ _ | done _ | signal _ _ => exact h.frame [_] rfl (by simp) id

/-- Without a call of `Close`, a device in use stays in use. -/
theorem serving_step (hm : s.main = .serving) (ha : a ≠ .close) (hs : Step w bk s a s') :
    s'.main = .serving := by
  cases hs with
  | close _ => exact absurd rfl ha
  | prepare hm' _ _ | go hm' _ | receive hm' _ | cancelStore hm' | cancelWake hm' | wait hm' _
  | release hm' | start hm' | command hm' =>
    rw [hm] at hm'
    cases hm'
  | worker _ _ _ | send _ _ | done _ | signal _ _ | kernel _ _ => exact hm

end System

/-! ## The machine -/

/-- `handed` is whether `New` has returned the device, `err` the variable of `shutdown`. -/
structure Closing (ι β : Type) where
  sys : System β
  once : Once.State ι Bool
  handed : Bool
  err : Bool

/-- A step of the system or of one of the callers of `Close`. -/
inductive ClosingAction (ι : Type)
  /-- A step of the system. -/
  | system (a : SystemAction)
  /-- A goroutine calls `Close`. -/
  | call (i : ι)
  /-- The next statement of `closeOnce.Do`, for this call. -/
  | caller (i : ι)

/-- A step of one of the goroutines: neither the kernel's or the driver's, nor a new call. -/
def ClosingAction.ofGoroutine {ι : Type} : ClosingAction ι → Bool
  | .system a => a.ofGoroutine
  | .call _ => false
  | .caller _ => true

namespace Closing
variable {ι : Type} [DecidableEq ι] (w : Worker) (bk : Backend β)

/-- `Close` can be called on a device that `New` has returned.  The call that gets into the
function starts `shutdown`, and leaves when its statements are executed. -/
def step (s : Closing ι β) : ClosingAction ι → Option (Closing ι β)
  | .system a =>
      if a = .close then none
      else (s.sys.step w bk a).map fun x =>
        { s with
          sys := x
          handed := s.handed || decide (x.main = .serving)
          err := s.sys.errAfter s.err a }
  | .call i =>
      if s.handed then (s.once.step i .call).map fun o => { s with once := o } else none
  | .caller i =>
      match s.once.pos i with
      | .body =>
          if s.sys.main = .shutting [] then
            (s.once.step i (.leave s.err)).map fun o => { s with once := o }
          else none
      | _ =>
          (s.once.step i .next).map fun o =>
            { s with
              once := o
              sys := if o.pos i = .body then { s.sys with main := .shutting shutdownCode }
                else s.sys }

/-- Nobody has called `Close`. -/
def boot (b : Worker.Boot β) : Closing ι β := ⟨System.boot b, .fresh, false, false⟩

/-- A run of the system with its callers. -/
abbrev Run (b : Worker.Boot β) (as : List (ClosingAction ι)) (s : Closing ι β) : Prop :=
  Runs.Run (Closing.step w bk) (fun _ _ => True) (boot b) as s

/-- The steps, one constructor for each. -/
inductive Step (s : Closing ι β) : ClosingAction ι → Closing ι β → Prop
  | system {a : SystemAction} {x : System β} (ha : a ≠ .close) (hx : s.sys.step w bk a = some x) :
      Step s (.system a) { s with
        sys := x
        handed := s.handed || decide (x.main = .serving)
        err := s.sys.errAfter s.err a }
  | call {i : ι} (hh : s.handed = true) (hp : s.once.pos i = .outside) :
      Step s (.call i) { s with once := s.once.goto i .load }
  | leave {i : ι} (hp : s.once.pos i = .body) (hm : s.sys.main = .shutting []) :
      Step s (.caller i) { s with once := s.once.goto i (.store s.err) }
  | next {i : ι} {o : Once.State ι Bool} (hp : s.once.pos i ≠ .body)
      (ho : Once.State.Step s.once i .next o) :
      Step s (.caller i) { s with
        once := o
        sys := if o.pos i = .body then { s.sys with main := .shutting shutdownCode } else s.sys }

variable {w bk} {s s' : Closing ι β} {a : ClosingAction ι}

theorem step_cases (h : s.step w bk a = some s') : Step w bk s a s' := by
  cases a with
  | system a =>
    rw [step] at h
    split_ifs at h with ha
    obtain ⟨x, hx, rfl⟩ := Option.map_eq_some_iff.mp h
    exact .system ha hx
  | call i =>
    rw [step] at h
    split_ifs at h with hh
    obtain ⟨o, ho, rfl⟩ := Option.map_eq_some_iff.mp h
    cases Once.State.step_cases ho with
    | call hp => exact .call hh hp
  | caller i =>
    rw [step] at h
    split at h
    next hp =>
      split_ifs at h with hm
      obtain ⟨o, ho, rfl⟩ := Option.map_eq_some_iff.mp h
      cases Once.State.step_cases ho with
      | leave _ => exact .leave hp hm
    next hp =>
      obtain ⟨o, ho, rfl⟩ := Option.map_eq_some_iff.mp h
      exact .next hp (Once.State.step_cases ho)

/-! ## The invariant -/

/-- Where `shutdown` is. -/
def Phase (s : Closing ι β) : Once.Status ι Bool → Prop
  | .notStarted => s.handed = true ↔ s.sys.main = .serving
  | .running _ => s.handed = true ∧ ∃ rest, s.sys.main = .shutting rest
  | .left _ r | .ended _ r => s.handed = true ∧ s.sys.main = .shutting [] ∧ r = s.err

/-- The system's part of a run is a run of the system, in which `Close` is called if and when the
function is. -/
structure Inv (w : Worker) (bk : Backend β) (b : Worker.Boot β) (s : Closing ι β)
    (st : Once.Status ι Bool) : Prop where
  once : Once.Inv s.once st
  run : ∃ bs, System.Run w bk b bs s.sys ∧ bs.count .close = st.runner.toList.length
  verdict : s.sys.Verdict s.err
  called : s.handed = false → ∀ i, s.once.pos i = .outside
  phase : s.Phase st

namespace Inv
variable {b : Worker.Boot β} {st : Once.Status ι Bool} {i : ι}

section
omit [DecidableEq ι]

theorem boot (w : Worker) (bk : Backend β) (b : Worker.Boot β) :
    Inv w bk b (Closing.boot b : Closing ι β) .notStarted where
  once := .fresh
  run := ⟨[], .start, rfl⟩
  verdict := System.verdict_boot b
  called := fun _ _ => rfl
  phase := ⟨nofun, nofun⟩

/-- Somebody has called `Close`, so there is a device. -/
theorem handed (h : Inv w bk b s st) (hp : s.once.pos i ≠ .outside) : s.handed = true := by
  cases hh : s.handed with
  | true => rfl
  | false => exact absurd (h.called hh i) hp

theorem releases (h : Inv w bk b s st) : ∃ ran, s.sys.Releases ran := by
  obtain ⟨bs, hrun, -⟩ := h.run
  exact hrun.invariant (I := fun s => ∃ ran, s.Releases ran) ⟨[], System.releases_boot b⟩
    fun _ _ _ ⟨_, hr⟩ _ hs => hr.step (System.step_cases hs)

/-- A step of the system. -/
theorem system (h : Inv w bk b s st) {a : SystemAction} {x : System β} (ha : a ≠ .close)
    (hx : s.sys.step w bk a = some x) : Inv w bk b { s with
      sys := x
      handed := s.handed || decide (x.main = .serving)
      err := s.sys.errAfter s.err a } st := by
  have hs := System.step_cases hx
  obtain ⟨bs, hrun, hcount⟩ := h.run
  obtain ⟨ran, hr⟩ := h.releases
  refine ⟨h.once, ⟨bs ++ [a], hrun.next trivial hx, ?_⟩, h.verdict.step hr hs, ?_, ?_⟩
  · rw [List.count_append, hcount, List.count_singleton, beq_eq_false_iff_ne.mpr ha]
    rfl
  · intro hh
    exact h.called (Bool.or_eq_false_iff.mp hh).1
  · have hphase := h.phase
    -- `err` is final once the statements are executed
    have herr : s.sys.main = .shutting [] → s.sys.errAfter s.err a = s.err := by
      intro hm
      exact System.errAfter_eq (by rw [hm]; rfl)
    have hend : s.sys.main = .shutting [] → x.main = .shutting [] := by
      intro hm
      rcases System.Live.shutting_step hm hs with hx | ⟨st, hnil, -⟩
      · exact hx
      · cases hnil
    cases st with
    | notStarted =>
      show (s.handed || decide (x.main = .serving)) = true ↔ x.main = .serving
      rw [Bool.or_eq_true, decide_eq_true_eq]
      refine ⟨fun hor => hor.elim (fun hh => ?_) id, .inr⟩
      exact System.serving_step (hphase.mp hh) ha hs
    | running j =>
      obtain ⟨hh, rest, hm⟩ := hphase
      refine ⟨by rw [hh]; rfl, ?_⟩
      rcases System.Live.shutting_step hm hs with hx | ⟨-, -, hx⟩
      · exact ⟨_, hx⟩
      · exact ⟨_, hx⟩
    | left j r | ended j r =>
      obtain ⟨hh, hm, hr⟩ := hphase
      exact ⟨by rw [hh]; rfl, hend hm, hr.trans (herr hm).symm⟩

/-- Whoever is back from `Close` finds `shutdown` executed. -/
theorem executed (h : Inv w bk b s st) {r : Option Bool} (hp : s.once.pos i = .returned r) :
    s.sys.main = .shutting [] := by
  have hover := h.once.over_of_returned hp
  have hphase := h.phase
  cases st with
  | ended j r => exact hphase.2.1
  | notStarted | running j | left j r => cases hover

end

/-- A statement of `Do`. -/
theorem next (h : Inv w bk b s st) {o : Once.State ι Bool} (hout : s.once.pos i ≠ .outside)
    (ho : Once.State.Step s.once i .next o) : ∃ st', Inv w bk b { s with
      once := o
      sys := if o.pos i = .body then { s.sys with main := .shutting shutdownCode }
        else s.sys } st' := by
  have hh := h.handed hout
  obtain ⟨st', hmoves, honce⟩ := h.once.next ho
  have hphase := h.phase
  have hcalled : s.handed = false → ∀ j, o.pos j = .outside := by
    rw [hh]
    exact nofun
  cases hmoves with
  | same hne =>
    rw [if_neg hne]
    exact ⟨st, honce, h.run, h.verdict, hcalled, by cases st <;> exact hphase⟩
  | @finish r hne =>
    rw [if_neg hne]
    exact ⟨_, honce, h.run, h.verdict, hcalled, hphase⟩
  | start heq =>
    rw [if_pos heq]
    have hm : s.sys.main = .serving := hphase.mp hh
    obtain ⟨bs, hrun, hcount⟩ := h.run
    obtain ⟨ran, hr⟩ := h.releases
    have hclose : s.sys.step w bk .close = some { s.sys with main := .shutting shutdownCode } :=
      if_pos hm
    refine ⟨.running i, honce, ⟨bs ++ [.close], hrun.next trivial hclose, ?_⟩, ?_, hcalled,
      hh, _, rfl⟩
    · rw [List.count_append, hcount]
      rfl
    · exact h.verdict.step hr (System.step_cases hclose)

/-- A call that is at a statement of `Do` has begun. -/
theorem ne_outside {o : Once.State ι Bool} (ho : Once.State.Step s.once i .next o) :
    s.once.pos i ≠ .outside := by
  cases ho with
  | skip hp _ | slow hp _ | lock hp _ | late hp _ | enter hp _ | store hp | unlock hp =>
    rw [hp]
    exact nofun

theorem step (h : Inv w bk b s st) (hs : Step w bk s a s') : ∃ st', Inv w bk b s' st' := by
  cases hs with
  | system ha hx => exact ⟨st, h.system ha hx⟩
  | @call i hh hp =>
    refine ⟨st, h.once.call hp, h.run, h.verdict, fun hf => ?_, by
      have := h.phase
      cases st <;> exact this⟩
    rw [show s.handed = true from hh] at hf
    cases hf
  | @leave i hp hm =>
    obtain ⟨rfl, honce⟩ := h.once.leave hp s.err
    obtain ⟨hh, -⟩ := h.phase
    refine ⟨.left i s.err, honce, h.run, h.verdict, fun hf => ?_, hh, hm, rfl⟩
    rw [show s.handed = true from hh] at hf
    cases hf
  | next _ ho => exact h.next (ne_outside ho) ho

/-- Once `shutdown` has begun, nobody else begins it. -/
theorem not_entered (h : Inv w bk b s st) {rest : List Stmt} (hm : s.sys.main = .shutting rest)
    {o : Once.State ι Bool} (ho : Once.State.Step s.once i .next o) : o.pos i ≠ .body := by
  have hh := h.handed (ne_outside ho)
  have hphase := h.phase
  obtain ⟨st', hmoves, -⟩ := h.once.next ho
  cases hmoves with
  | same hne | finish hne => exact hne
  | start _ =>
    rw [hphase.mp hh] at hm
    cases hm

end Inv

theorem Run.inv {b : Worker.Boot β} {as : List (ClosingAction ι)} (h : Closing.Run w bk b as s) :
    ∃ st, Inv w bk b s st :=
  h.invariant (I := fun s => ∃ st, Inv w bk b s st) ⟨_, .boot w bk b⟩
    fun _ _ _ ⟨_, hi⟩ _ hs => hi.step (step_cases hs)

/-! ## How long it takes -/

/-- A state in which `Cancel` has set the flag, during `Close`. -/
structure Ending (w : Worker) (bk : Backend β) (b : Worker.Boot β) (k kc : Nat)
    (s : Closing ι β) : Prop where
  inv : ∃ st, Inv w bk b s st
  live : s.sys.Live w k kc
  shutting : ∃ rest, s.sys.main = .shutting rest ∧ .cancelStore ∉ rest

variable [Fintype ι] {b : Worker.Boot β} {k kc : Nat}

/-- What the goroutines can still do, those in `Close` included. -/
def stepsLeft (w : Worker) (s : Closing ι β) : Nat := s.sys.stepsLeft w + s.once.left

omit [DecidableEq ι] in
theorem stepsLeft_once {o : Once.State ι Bool} (ho : o.left + 1 ≤ s.once.left) :
    stepsLeft w { s with once := o } + 1 ≤ s.stepsLeft w :=
  show s.sys.stepsLeft w + o.left + 1 ≤ s.sys.stepsLeft w + s.once.left by omega

/-- **Every step of a goroutine uses up one that was left.** -/
theorem Ending.step (h : s.Ending w bk b k kc) (hk : w.depth.toNat ≤ 2 ^ k)
    (hkc : w.depth.toNat ≤ 2 ^ kc) (hs : Step w bk s a s') :
    s'.Ending w bk b k kc ∧ s'.stepsLeft w + a.ofGoroutine.toNat ≤ s.stepsLeft w := by
  obtain ⟨st, hi⟩ := h.inv
  obtain ⟨rest, hm, hnot⟩ := h.shutting
  have hinv := hi.step hs
  cases hs with
  | @system a x ha hx =>
    have hx := System.step_cases hx
    refine ⟨⟨hinv, h.live.step hk hkc hx, System.Live.cancelled_step hm hnot hx⟩, ?_⟩
    have hspends := h.live.spends hk hkc hm hnot hx
    show x.stepsLeft w + s.once.left + a.ofGoroutine.toNat ≤ s.sys.stepsLeft w + s.once.left
    omega
  | call _ hp =>
    refine ⟨⟨hinv, h.live, h.shutting⟩, ?_⟩
    exact Nat.le_of_succ_le (stepsLeft_once (Once.State.Step.call hp).left_lt)
  | leave hp _ =>
    refine ⟨⟨hinv, h.live, h.shutting⟩, ?_⟩
    exact stepsLeft_once (Once.State.Step.leave hp).left_lt
  | next _ ho =>
    rw [if_neg (hi.not_entered hm ho)] at hinv ⊢
    exact ⟨⟨hinv, h.live, h.shutting⟩, stepsLeft_once ho.left_lt⟩

/-! ## The result -/

end Closing
end
end Ublk
