import Mathlib.Logic.Basic

/-! # Procedures of fallible calls

A procedure makes calls one after the other, and what it does next depends on whether the last
one failed and how: it goes on, tries something else, or gives up with a report.  A `Script` is
the tree of these decisions.  `run` follows it along a plan of outcomes, one for each call in the
order they are made, and tells which call was the last.

The verdict depends on the calls up to that one and on no other (`run_local`), and if every report
names the error it was made for, the report names the error of the last call (`run_blames`).
-/
namespace Attempts
variable {E F G : Type}

/-- What is left to do: nothing, giving up with a report, or a call and what follows either outcome.
-/
inductive Script (E F : Type)
  | done
  | report (f : F)
  | call (passed : Script E F) (failed : E → Script E F)

/-- The next call to make, or the last call made and the report. -/
abbrev Verdict (F : Type) := Except (Nat × F) Nat

/-- Follows the script along `plan`, from call number `clock` on. -/
def run (plan : Nat → Option E) : Script E F → Nat → Verdict F
  | .done, clock => .ok clock
  | .report f, clock => .error (clock - 1, f)
  | .call passed failed, clock =>
    match plan clock with
    | none => run plan passed (clock + 1)
    | some e => run plan (failed e) (clock + 1)

namespace Script

/-- A call that has to pass. -/
def once (blame : E → F) : Script E F := .call .done fun e => .report (blame e)

/-- A call that has to pass, unless its error is one of `excused`. -/
def onceBut (excused : E → Bool) (blame : E → F) : Script E F :=
  .call .done fun e => if excused e then .done else .report (blame e)

/-- A call that is made again, at most `n` times in all, while its error is one of `again`. -/
def upTo (again : E → Bool) (blame giveUp : E → F) : Nat → E → Script E F
  | 0, last => .report (giveUp last)
  | n + 1, _ => .call .done fun e =>
      if again e then upTo again blame giveUp n e else .report (blame e)

/-- One procedure after the other; a report ends both. -/
def andThen : Script E F → Script E F → Script E F
  | .done, t => t
  | .report f, _ => .report f
  | .call passed failed, t => .call (passed.andThen t) fun e => (failed e).andThen t

/-- A report is not the end: `failed` says what is done about it. -/
def attempt : Script E F → Script E G → (F → Script E G) → Script E G
  | .done, passed, _ => passed
  | .report f, _, failed => failed f
  | .call passed failed, p, f => .call (passed.attempt p f) fun e => (failed e).attempt p f

/-- Reports within reports. -/
def wrap (g : F → G) : Script E F → Script E G
  | .done => .done
  | .report f => .report (g f)
  | .call passed failed => .call (passed.wrap g) fun e => (failed e).wrap g

/-- Every report names the error of the call before it. -/
def Names (cause : F → Option E) : Option E → Script E F → Prop
  | _, .done => True
  | last, .report f => last.isSome ∧ cause f = last
  | _, .call passed failed => Names cause none passed ∧ ∀ e, Names cause (some e) (failed e)

end Script

variable {plan plan' : Nat → Option E}

theorem run_andThen (s t : Script E F) (clock : Nat) :
    run plan (s.andThen t) clock =
      match run plan s clock with
      | .ok clock => run plan t clock
      | .error v => .error v := by
  induction s generalizing clock with
  | done => rfl
  | report f => rfl
  | call passed failed ihp ihf =>
    rw [Script.andThen, run, run]
    cases plan clock with
    | none => exact ihp (clock + 1)
    | some e => exact ihf e (clock + 1)

theorem run_wrap (g : F → G) (s : Script E F) (clock : Nat) :
    run plan (s.wrap g) clock =
      match run plan s clock with
      | .ok clock => .ok clock
      | .error v => .error (v.1, g v.2) := by
  induction s generalizing clock with
  | done => rfl
  | report f => rfl
  | call passed failed ihp ihf =>
    rw [Script.wrap, run, run]
    cases plan clock with
    | none => exact ihp (clock + 1)
    | some e => exact ihf e (clock + 1)

theorem Script.attempt_report (s : Script E F) : s.attempt .done .report = s := by
  induction s with
  | done => rfl
  | report f => rfl
  | call passed failed ihp ihf =>
    rw [attempt, ihp]
    exact congrArg _ (funext ihf)

/-! ## What a verdict depends on -/

/-- The calls up to the end of a run. -/
def Verdict.stop : Verdict F → Nat
  | .ok clock => clock
  | .error v => v.1 + 1

theorem le_stop (s : Script E F) (clock : Nat) : clock ≤ (run plan s clock).stop := by
  induction s generalizing clock with
  | done => exact Nat.le_refl _
  | report f => show clock ≤ clock - 1 + 1; omega
  | call passed failed ihp ihf =>
    rw [run]
    cases plan clock with
    | none => exact Nat.le_of_succ_le (ihp (clock + 1))
    | some e => exact Nat.le_of_succ_le (ihf e (clock + 1))

/-- **Later calls do not matter.** -/
theorem run_local (s : Script E F) (clock : Nat)
    (h : ∀ i < (run plan s clock).stop, plan' i = plan i) :
    run plan' s clock = run plan s clock := by
  induction s generalizing clock with
  | done => rfl
  | report f => rfl
  | call passed failed ihp ihf =>
    rw [run] at h ⊢
    rw [run]
    cases hp : plan clock with
    | none =>
      simp only [hp] at h ⊢
      rw [h clock (le_stop passed (clock + 1)), hp]
      exact ihp (clock + 1) h
    | some e =>
      simp only [hp] at h ⊢
      rw [h clock (le_stop (failed e) (clock + 1)), hp]
      exact ihf e (clock + 1) h

/-! ## Who is to blame -/

/-- **The report names the error of the last call.** -/
theorem run_blames {cause : F → Option E} (s : Script E F) {last : Option E} (clock : Nat)
    {n : Nat} {f : F} (hs : s.Names cause last) (hlast : last.isSome → plan (clock - 1) = last)
    (h : run plan s clock = .error (n, f)) : (plan n).isSome ∧ cause f = plan n := by
  induction s generalizing last clock with
  | done => cases h
  | report g =>
    cases h
    rw [hlast hs.1]
    exact hs
  | call passed failed ihp ihf =>
    rw [run] at h
    cases hp : plan clock with
    | none =>
      rw [hp] at h
      exact ihp (clock + 1) hs.1 (fun hsome => nomatch hsome) h
    | some e =>
      rw [hp] at h
      exact ihf e (clock + 1) (hs.2 e) (fun _ => hp) h

namespace Script
variable {cause : F → Option E}

theorem names_once (cause : F → Option E) {blame : E → F} (h : ∀ e, cause (blame e) = some e)
    (last : Option E) : (once blame).Names cause last := ⟨trivial, fun e => ⟨rfl, h e⟩⟩

theorem names_onceBut (cause : F → Option E) {blame : E → F} (excused : E → Bool)
    (h : ∀ e, cause (blame e) = some e) (last : Option E) :
    (onceBut excused blame).Names cause last := by
  refine ⟨trivial, fun e => ?_⟩
  dsimp only
  split
  · trivial
  · exact ⟨rfl, h e⟩

theorem names_upTo (cause : F → Option E) {again : E → Bool} {blame giveUp : E → F}
    (h : ∀ e, cause (blame e) = some e) (hg : ∀ e, cause (giveUp e) = some e) (n : Nat) (e : E)
    (last : Option E) : (upTo again blame giveUp (n + 1) e).Names cause last := by
  refine ⟨trivial, fun e' => ?_⟩
  dsimp only
  split
  · cases n with
    | zero => exact ⟨rfl, hg e'⟩
    | succ n => exact names_upTo cause h hg n e' (some e')
  · exact ⟨rfl, h e'⟩

theorem names_andThen (s : Script E F) {t : Script E F} {last : Option E}
    (hs : s.Names cause last) (ht : ∀ last, t.Names cause last) :
    (s.andThen t).Names cause last := by
  induction s generalizing last with
  | done => exact ht last
  | report f => exact hs
  | call passed failed ihp ihf => exact ⟨ihp hs.1, fun e => ihf e (hs.2 e)⟩

theorem names_attempt {cause' : G → Option E} (s : Script E F) {passed : Script E G}
    {failed : F → Script E G} {last : Option E} (hs : s.Names cause last)
    (hp : ∀ last, passed.Names cause' last)
    (hf : ∀ f last, last.isSome ∧ cause f = last → (failed f).Names cause' last) :
    (s.attempt passed failed).Names cause' last := by
  induction s generalizing last with
  | done => exact hp last
  | report f => exact hf f last hs
  | call passed failed ihp ihf => exact ⟨ihp hs.1, fun e => ihf e (hs.2 e)⟩

theorem names_wrap {g : F → G} {cause' : G → Option E} (h : ∀ f, cause' (g f) = cause f)
    (s : Script E F) {last : Option E} (hs : s.Names cause last) :
    (s.wrap g).Names cause' last := by
  induction s generalizing last with
  | done => trivial
  | report f => exact ⟨hs.1, (h f).trans hs.2⟩
  | call passed failed ihp ihf => exact ⟨ihp hs.1, fun e => ihf e (hs.2 e)⟩

end Script
end Attempts
