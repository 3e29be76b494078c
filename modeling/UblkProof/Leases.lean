import Mathlib.Data.List.Nodup
import Mathlib.Logic.Function.Basic

/-! # Names that are used again

A table lists the names in use, each with its holder.  A name is handed out when it is free and
may be handed out again once it was given back, so a name alone does not say whose it is.  Each
holder keeps notes of the names it was given, and gives back by name: `surrender t ns` takes
every name of `ns` out of the table, whoever holds it.

`Noted` is the half that always holds: whatever is in use is on its holder's notes.  `Accounts`
adds that the notes are up to date.  As long as they are, surrendering one's notes takes nothing
from anybody else (`Accounts.own`) and leaves the notes of all others up to date
(`Accounts.surrender`).
-/
namespace Leases
variable {N O : Type} {t : List (N × O)} {notes : O → List N} {n : N} {o : O}

/-- The names in use. -/
def names (t : List (N × O)) : List N := t.map Prod.fst

theorem mem_names : n ∈ names t ↔ ∃ o, (n, o) ∈ t := by
  rw [names, List.mem_map]
  constructor
  · rintro ⟨⟨n', o⟩, h, rfl⟩
    exact ⟨o, h⟩
  · rintro ⟨o, h⟩
    exact ⟨(n, o), h, rfl⟩

/-- A name has one holder. -/
theorem holder_unique (h : (names t).Nodup) {o' : O} (h1 : (n, o) ∈ t) (h2 : (n, o') ∈ t) :
    o = o' :=
  congrArg Prod.snd (List.inj_on_of_nodup_map h h1 h2 rfl)

/-- Whatever is in use is on its holder's notes. -/
structure Noted (t : List (N × O)) (notes : O → List N) : Prop where
  nodup : (names t).Nodup
  noted : ∀ n o, (n, o) ∈ t → n ∈ notes o

/-- The notes say exactly what is in use. -/
structure Accounts (t : List (N × O)) (notes : O → List N) : Prop extends Noted t notes where
  backed : ∀ o n, n ∈ notes o → (n, o) ∈ t

theorem accounts_nil : Accounts ([] : List (N × O)) fun _ => [] where
  nodup := List.nodup_nil
  noted _ _ h := absurd h List.not_mem_nil
  backed _ _ h := absurd h List.not_mem_nil

section Surrender
variable [DecidableEq N] {ns : List N}

/-- Give back the names `ns`. -/
def surrender (t : List (N × O)) (ns : List N) : List (N × O) := t.filter fun e => e.1 ∉ ns

theorem mem_surrender {e : N × O} : e ∈ surrender t ns ↔ e ∈ t ∧ e.1 ∉ ns := by
  rw [surrender, List.mem_filter, decide_eq_true_iff]

theorem surrender_nil (t : List (N × O)) : surrender t [] = t :=
  List.filter_eq_self.mpr fun _ _ => decide_eq_true List.not_mem_nil

/-- One name after the other. -/
theorem surrender_cons (t : List (N × O)) (n : N) (ns : List N) :
    surrender (surrender t [n]) ns = surrender t (n :: ns) := by
  rw [surrender, surrender, surrender, List.filter_filter]
  refine List.filter_congr fun e _ => ?_
  rw [← Bool.decide_and, decide_eq_decide, List.mem_singleton, List.mem_cons, not_or, and_comm]

/-- Giving back changes nothing exactly if none of the names is in use. -/
theorem surrender_eq_self_iff : surrender t ns = t ↔ ∀ n ∈ ns, n ∉ names t := by
  rw [surrender, List.filter_eq_self]
  constructor
  · intro h n hn hin
    obtain ⟨o, ho⟩ := mem_names.mp hin
    exact of_decide_eq_true (h (n, o) ho) hn
  · intro h e he
    exact decide_eq_true fun hn => h e.1 hn (mem_names.mpr ⟨e.2, he⟩)

theorem surrender_of_not_mem (h : n ∉ names t) : surrender t [n] = t := by
  apply surrender_eq_self_iff.mpr
  intro n' hn'
  rwa [List.mem_singleton.mp hn']

theorem nodup_surrender (h : (names t).Nodup) (ns : List N) : (names (surrender t ns)).Nodup :=
  h.sublist (List.filter_sublist.map Prod.fst)

end Surrender

section Update
variable [DecidableEq O]

namespace Noted

/-- A free name is handed out and noted. -/
theorem grant (h : Noted t notes) (hn : n ∉ names t) (o : O) {ns : List N}
    (hns : n ∈ ns ∧ notes o ⊆ ns) : Noted ((n, o) :: t) (Function.update notes o ns) := by
  constructor
  · exact List.nodup_cons.mpr ⟨hn, h.nodup⟩
  · intro n' o' he
    by_cases ho : o' = o
    · subst ho
      rw [Function.update_self]
      rcases List.mem_cons.mp he with he | he
      · cases he
        exact hns.1
      · exact hns.2 (h.noted n' o' he)
    · rw [Function.update_of_ne ho]
      rcases List.mem_cons.mp he with he | he
      · cases he
        exact absurd rfl ho
      · exact h.noted n' o' he

variable [DecidableEq N]

/-- A holder gives back at least what it holds: it holds nothing any more. -/
theorem surrender (h : Noted t notes) {ns : List N} (hns : notes o ⊆ ns) :
    Noted (surrender t ns) (Function.update notes o []) := by
  constructor
  · exact nodup_surrender h.nodup ns
  · intro n' o' he
    obtain ⟨he, hn⟩ := mem_surrender.mp he
    by_cases ho : o' = o
    · subst ho
      exact absurd (hns (h.noted n' o' he)) hn
    · rw [Function.update_of_ne ho]
      exact h.noted n' o' he

end Noted

namespace Accounts

theorem grant (h : Accounts t notes) (hn : n ∉ names t) (o : O) {ns : List N}
    (hns : ∀ n', n' ∈ ns ↔ n' = n ∨ n' ∈ notes o) :
    Accounts ((n, o) :: t) (Function.update notes o ns) := by
  refine ⟨h.toNoted.grant hn o ⟨(hns n).mpr (.inl rfl), fun n' hn' => (hns n').mpr (.inr hn')⟩, ?_⟩
  intro o' n' hn'
  by_cases ho : o' = o
  · subst ho
    rw [Function.update_self, hns] at hn'
    rcases hn' with rfl | hn'
    · exact List.mem_cons_self
    · exact List.mem_cons_of_mem _ (h.backed o' n' hn')
  · rw [Function.update_of_ne ho] at hn'
    exact List.mem_cons_of_mem _ (h.backed o' n' hn')

variable [DecidableEq N]

omit [DecidableEq O] in
/-- **Up-to-date notes take nothing from others.** -/
theorem own (h : Accounts t notes) {e : N × O} (he : e ∈ t) (hne : e.2 ≠ o) :
    e ∈ Leases.surrender t (notes o) := by
  refine mem_surrender.mpr ⟨he, fun hn => hne ?_⟩
  exact holder_unique h.nodup he (h.backed o e.1 hn)

/-- A holder gives back what it holds; the notes of the others stay up to date. -/
theorem surrender (h : Accounts t notes) (o : O) :
    Accounts (Leases.surrender t (notes o)) (Function.update notes o []) := by
  refine ⟨h.toNoted.surrender (List.Subset.refl _), ?_⟩
  intro o' n' hn'
  by_cases ho : o' = o
  · subst ho
    rw [Function.update_self] at hn'
    exact absurd hn' List.not_mem_nil
  · rw [Function.update_of_ne ho] at hn'
    exact h.own (h.backed o' n' hn') ho

end Accounts

end Update
end Leases
