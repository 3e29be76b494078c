import Mathlib.Logic.Basic

/-! # Runs of a partial machine

A machine is a function `step : S → A → Option S`: in state `s` the action `a`
either leads to a state or is not possible.  `Run step ok s₀ as s` is a finite run
from `s₀` to `s` through the actions `as`, each of which met the side condition
`ok` in the state it was taken in.  The side condition is how an assumption on the
environment is expressed: the fewer actions it admits, the more can be said of the
states reached (`Run.invariant`).

`exec` computes a run, for closed examples.

`Path` is the same for a relation instead of a function; `Run.simulate` follows a run of
a machine by a path of a relation.
-/
namespace Runs
variable {S A : Type} {step : S → A → Option S} {ok : S → A → Prop} {s₀ s : S} {as : List A}

/-- A finite run from `s₀`, most recent action last. -/
inductive Run (step : S → A → Option S) (ok : S → A → Prop) (s₀ : S) : List A → S → Prop
  | start : Run step ok s₀ [] s₀
  | next {as : List A} {s s' : S} {a : A} : Run step ok s₀ as s → ok s a → step s a = some s' →
      Run step ok s₀ (as ++ [a]) s'

/-- **The invariant rule.** -/
theorem Run.invariant {I : S → Prop} (h0 : I s₀)
    (hstep : ∀ s a s', I s → ok s a → step s a = some s' → I s')
    (h : Run step ok s₀ as s) : I s := by
  induction h with
  | start => exact h0
  | next _ hok hs ih => exact hstep _ _ _ ih hok hs

/-- Two runs compose. -/
theorem Run.trans {bs : List A} {t : S} (h : Run step ok s₀ as s) (h' : Run step ok s bs t) :
    Run step ok s₀ (as ++ bs) t := by
  induction h' with
  | start => rwa [List.append_nil]
  | next _ hok hs ih => rw [← List.append_assoc]; exact ih.next hok hs

/-! ## Relations, and simulation by one -/

/-- A finite path of the relation `R` from `t₀`. -/
inductive Path {T : Type} (R : T → A → T → Prop) (t₀ : T) : List A → T → Prop
  | start : Path R t₀ [] t₀
  | next {as : List A} {t t' : T} {a : A} : Path R t₀ as t → R t a t' → Path R t₀ (as ++ [a]) t'

theorem Path.invariant {T : Type} {R : T → A → T → Prop} {t₀ t : T} {I : T → Prop} (h0 : I t₀)
    (hstep : ∀ t a t', I t → R t a t' → I t') (h : Path R t₀ as t) : I t := by
  induction h with
  | start => exact h0
  | next _ hr ih => exact hstep _ _ _ ih hr

/-- **A potential bounds a path.**  If every action that `p` counts costs one unit of `pot` and no
other adds any, a path has no more such actions than there was potential at its start. -/
theorem Path.countP_le {T : Type} {R : T → A → T → Prop} {t₀ t : T} {I : T → Prop} (p : A → Bool)
    (pot : T → Nat) (h0 : I t₀) (hinv : ∀ t a t', I t → R t a t' → I t')
    (hcost : ∀ t a t', I t → R t a t' → pot t' + (p a).toNat ≤ pot t) (h : Path R t₀ as t) :
    pot t + as.countP p ≤ pot t₀ := by
  induction h with
  | start => exact Nat.le_refl _
  | @next as t t' a hp hr ih =>
    have hstep := hcost _ _ _ (hp.invariant h0 hinv) hr
    have hone : [a].countP p = (p a).toNat := by
      rw [List.countP_cons, List.countP_nil]
      cases p a <;> rfl
    rw [List.countP_append, hone]
    omega

/-- A run is a path of its own steps. -/
theorem Run.path (h : Run step ok s₀ as s) : Path (fun s a s' => step s a = some s') s₀ as s := by
  induction h with
  | start => exact .start
  | next _ _ hs ih => exact ih.next hs

/-- **Simulation.**  If every step of the machine from a state related to some `t` on a path is
matched by `R`, every run of the machine is matched by a path.  That `t` is on a path is
what lets the matching use invariants of `R`. -/
theorem Run.simulate {T : Type} {R : T → A → T → Prop} {M : S → T → Prop} {t₀ : T} (h0 : M s₀ t₀)
    (hstep : ∀ s a s' as t, M s t → Path R t₀ as t → ok s a → step s a = some s' →
      ∃ t', R t a t' ∧ M s' t')
    (h : Run step ok s₀ as s) : ∃ t, Path R t₀ as t ∧ M s t := by
  induction h with
  | start => exact ⟨t₀, .start, h0⟩
  | next _ hok hs ih =>
    obtain ⟨t, hp, hm⟩ := ih
    obtain ⟨t', hr, hm'⟩ := hstep _ _ _ _ _ hm hp hok hs
    exact ⟨t', hp.next hr, hm'⟩

/-! ## Records of a run -/

section Records
variable {E : Type} {P : List E → E → Prop} {l : List E}

/-- Every entry of a record is justified by the entries before it. -/
def Justified (P : List E → E → Prop) (l : List E) : Prop :=
  ∀ pre e post, l = pre ++ e :: post → P pre e

theorem justified_nil : Justified P [] := fun _ _ _ h => by simp at h

/-- A record that grows: the new entries are justified by the old ones and each other. -/
theorem justified_append {es : List E} :
    Justified P (l ++ es) ↔ Justified P l ∧ Justified (fun pre e => P (l ++ pre) e) es := by
  constructor
  · intro h
    refine ⟨fun pre e post he => h pre e (post ++ es) ?_, fun pre e post he => h _ e post ?_⟩
    · rw [he, List.append_assoc, List.cons_append]
    · rw [he, List.append_assoc]
  · intro ⟨hl, hes⟩ pre e post he
    rcases List.append_eq_append_iff.mp he with ⟨pre', rfl, hes'⟩ | ⟨rest, hl', hrest⟩
    · exact hes pre' e post hes'
    · cases rest with
      | nil =>
        have hfirst : P (l ++ []) e := hes [] e post hrest.symm
        rwa [List.append_nil, hl', List.append_nil] at hfirst
      | cons x rest =>
        cases hrest
        exact hl pre _ rest hl'

theorem justified_concat {e : E} : Justified P (l ++ [e]) ↔ Justified P l ∧ P l e := by
  rw [justified_append]
  refine and_congr_right fun _ => ⟨fun h => ?_, fun h pre x post he => ?_⟩
  · have hlast : P (l ++ []) e := h [] e [] rfl
    rwa [List.append_nil] at hlast
  · cases pre with
    | nil =>
      cases he
      rwa [List.append_nil]
    | cons y pre => cases pre <;> cases he

theorem justified_iff_take :
    Justified P l ↔ ∀ i : Fin l.length, P (l.take i) (l.get i) := by
  constructor
  · intro h i
    refine h _ _ (l.drop (i + 1)) ?_
    rw [List.get_eq_getElem, ← List.drop_eq_getElem_cons, List.take_append_drop]
  · intro h pre e post he
    subst he
    have := h ⟨pre.length, by simp⟩
    simpa using this

instance [∀ pre e, Decidable (P pre e)] : Decidable (Justified P l) :=
  decidable_of_iff _ justified_iff_take.symm

end Records

/-! ## Computing runs -/

/-- Take the actions `as` from `s`, if each of them is possible and admitted. -/
def exec (step : S → A → Option S) (ok : S → A → Prop) [∀ s a, Decidable (ok s a)] (s : S) :
    List A → Option S
  | [] => some s
  | a :: as => if ok s a then (step s a).bind fun s' => exec step ok s' as else none

theorem run_of_exec [∀ s a, Decidable (ok s a)] :
    ∀ {as : List A} {s₀ s : S}, exec step ok s₀ as = some s → Run step ok s₀ as s
  | [], s₀, s, h => by cases h; exact .start
  | a :: as, s₀, s, h => by
      unfold exec at h
      split at h
      · rename_i hok
        obtain ⟨s₁, h₁, h₂⟩ := Option.bind_eq_some_iff.mp h
        have first : Run step ok s₀ [a] s₁ := Run.start.next hok h₁
        exact first.trans (run_of_exec h₂)
      · cases h

/-- A closed run and a decidable fact about the state it ends in, by evaluation. -/
theorem exists_run_of_exec [∀ s a, Decidable (ok s a)] (P : S → Prop) [DecidablePred P]
    (h : (exec step ok s₀ as).any (fun s => P s) = true) : ∃ s, Run step ok s₀ as s ∧ P s := by
  cases hs : exec step ok s₀ as with
  | none => rw [hs] at h; cases h
  | some s =>
    rw [hs] at h
    exact ⟨s, run_of_exec hs, of_decide_eq_true h⟩

end Runs
