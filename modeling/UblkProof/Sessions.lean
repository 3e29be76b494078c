import UblkProof.Commutation
import UblkProof.Runs

/-! # Calls that wait

A client that uses a linearizable object through calls, each of which invokes some operations and
waits for all of them.  Between calls nothing is pending, and there the history can be cut:
a linearization of the whole is one of the first part followed by one of the rest
(`Linearizes.split`).  So what a call does to the object, in any order of its operations, is
enough to know what a sequence of calls does (`Sessions.path`).
-/
namespace Linearization
open Runs
variable {σ Op Ret C : Type} {O : SeqObject σ Op Ret} {H H' : List (Event Op Ret)}
  {S : List (Nat × Op × Ret)}

/-- Nothing is pending, and nothing pending from before is answered. -/
structure Quiescent (H : List (Event Op Ret)) : Prop where
  answered : ∀ id op, .inv id op ∈ H → ∃ ret, .res id ret ∈ H
  own : ∀ id ret, .res id ret ∈ H → ∃ op, .inv id op ∈ H

theorem Quiescent.nil : Quiescent ([] : List (Event Op Ret)) := ⟨nofun, nofun⟩

theorem Quiescent.append (h : Quiescent H) (h' : Quiescent H') : Quiescent (H ++ H') where
  answered id op hmem := by
    rcases List.mem_append.mp hmem with hmem | hmem
    · obtain ⟨ret, hres⟩ := h.answered id op hmem
      exact ⟨ret, List.mem_append_left _ hres⟩
    · obtain ⟨ret, hres⟩ := h'.answered id op hmem
      exact ⟨ret, List.mem_append_right _ hres⟩
  own id ret hmem := by
    rcases List.mem_append.mp hmem with hmem | hmem
    · obtain ⟨op, hinv⟩ := h.own id ret hmem
      exact ⟨op, List.mem_append_left _ hinv⟩
    · obtain ⟨op, hinv⟩ := h'.own id ret hmem
      exact ⟨op, List.mem_append_right _ hinv⟩

/-- If everything with `p` comes before everything without, the two parts are in place. -/
theorem eq_filter_append_filter {α : Type} {p : α → Bool} {l : List α}
    (h : l.Pairwise fun x y => p y = true → p x = true) :
    l = l.filter p ++ l.filter fun x => !p x := by
  induction l with
  | nil => rfl
  | cons x l ih =>
    obtain ⟨hx, hl⟩ := List.pairwise_cons.mp h
    cases hp : p x with
    | true =>
      rw [List.filter_cons_of_pos hp, List.filter_cons_of_neg (by simp [hp]), List.cons_append,
        ← ih hl]
    | false =>
      have hnone : ∀ y ∈ l, p y = false := by
        intro y hy
        cases hy' : p y with
        | false => rfl
        | true => exact (hx y hy hy').symm.trans hp
      rw [List.filter_cons_of_neg (by simp [hp]), List.filter_cons_of_pos (by simp [hp]),
        List.filter_eq_nil_iff.mpr (fun y hy => by simp [hnone y hy]),
        List.filter_eq_self.mpr (fun y hy => by simp [hnone y hy])]
      rfl

/-! ## Cutting a history -/

/-- The operation was invoked in `H`. -/
def invokedIn (H : List (Event Op Ret)) (e : Nat × Op × Ret) : Bool :=
  decide (e.1 ∈ (calls H).map Prod.fst)

theorem invokedIn_iff {e : Nat × Op × Ret} : invokedIn H e = true ↔ ∃ op, .inv e.1 op ∈ H := by
  rw [invokedIn, decide_eq_true_iff, List.mem_map]
  constructor
  · rintro ⟨⟨id, op⟩, hk, rfl⟩
    exact ⟨op, mem_calls.mp hk⟩
  · rintro ⟨op, hinv⟩
    exact ⟨_, mem_calls.mpr hinv, rfl⟩

/-- No identity is used on both sides of the cut. -/
theorem inv_disjoint (hnd : ((calls (H ++ H')).map Prod.fst).Nodup) {id : Nat} {op op' : Op}
    (h : .inv id op ∈ H) : .inv id op' ∉ H' := by
  intro h'
  rw [calls_append, List.map_append] at hnd
  exact List.disjoint_of_nodup_append hnd (List.mem_map.mpr ⟨_, mem_calls.mpr h, rfl⟩)
    (List.mem_map.mpr ⟨_, mem_calls.mpr h', rfl⟩)

namespace Linearizes
variable {S₁ S₂ : List (Nat × Op × Ret)}

/-- What was invoked before the cut was answered there, and so comes first. -/
theorem eq_append (h : Linearizes O (H ++ H') S) (hq : Quiescent H) :
    S = S.filter (invokedIn H) ++ S.filter fun e => !invokedIn H e := by
  refine eq_filter_append_filter (List.pairwise_iff_forall_sublist.mpr fun {x y} hsub hy => ?_)
  by_contra hx
  obtain ⟨op, hinv⟩ := invokedIn_iff.mp hy
  obtain ⟨ret, hres⟩ := hq.answered _ _ hinv
  refine h.not_before (List.mem_map_of_mem (hsub.subset (by simp)))
    (List.mem_map_of_mem (hsub.subset (by simp)))
    ⟨H, List.prefix_append H H', ⟨ret, hres⟩, fun op' hop' => hx (invokedIn_iff.mpr ⟨op', hop'⟩)⟩ ?_
  exact hsub.map Prod.fst

theorem left_of_append (h : Linearizes O (H ++ H') (S₁ ++ S₂)) (hq : Quiescent H)
    (hnd : ((calls (H ++ H')).map Prod.fst).Nodup)
    (hmem : ∀ e, e ∈ S₁ ↔ e ∈ S₁ ++ S₂ ∧ ∃ op, .inv e.1 op ∈ H) : Linearizes O H S₁ where
  unique := by
    have hunique := h.unique
    rw [List.map_append] at hunique
    exact hunique.of_append_left
  legal := ((O.legal_append S₁ _).mp h.legal).1
  invoked e he := by
    obtain ⟨heS, op, hinv⟩ := (hmem e).mp he
    exact (List.mem_append.mp (h.invoked e heS)).resolve_right (inv_disjoint hnd hinv)
  completed id ret hres := by
    obtain ⟨op, he⟩ := h.completed id ret (List.mem_append_left _ hres)
    exact ⟨op, (hmem _).mpr ⟨he, hq.own id ret hres⟩⟩
  realTime := by
    rintro a b ha hb ⟨H₁, hpre, hres, hinv⟩
    have hlt := h.realTime a b (by rw [List.map_append]; exact List.mem_append_left _ ha)
      (by rw [List.map_append]; exact List.mem_append_left _ hb)
      ⟨H₁, hpre.trans (List.prefix_append H H'), hres, hinv⟩
    rwa [List.map_append, List.idxOf_append_of_mem ha, List.idxOf_append_of_mem hb] at hlt

theorem right_of_append (h : Linearizes O (H ++ H') (S₁ ++ S₂)) (hq' : Quiescent H')
    (hnd : ((calls (H ++ H')).map Prod.fst).Nodup)
    (hmem : ∀ e, e ∈ S₂ ↔ e ∈ S₁ ++ S₂ ∧ ∀ op, .inv e.1 op ∉ H) :
    Linearizes (O.startAt (O.final O.init S₁)) H' S₂ := by
  have hunique := h.unique
  rw [List.map_append] at hunique
  refine ⟨hunique.of_append_right,
    (O.legal_startAt _ S₂ _).1.mpr ((O.legal_append S₁ _).mp h.legal).2, fun e he => ?_,
    fun id ret hres => ?_, ?_⟩
  · obtain ⟨heS, hnot⟩ := (hmem e).mp he
    exact (List.mem_append.mp (h.invoked e heS)).resolve_left (hnot _)
  · obtain ⟨op, he⟩ := h.completed id ret (List.mem_append_right _ hres)
    obtain ⟨op', hinv'⟩ := hq'.own id ret hres
    exact ⟨op, (hmem _).mpr ⟨he, fun _ hinv => inv_disjoint hnd hinv hinv'⟩⟩
  · rintro a b ha hb ⟨H₁, hpre, ⟨ret, hres⟩, hinv⟩
    have hnot : ∀ x ∈ S₂.map Prod.fst, x ∉ S₁.map Prod.fst :=
      fun x hx hx' => List.disjoint_of_nodup_append hunique hx' hx
    -- up to `H ++ H₁` the second operation has still not been invoked
    have hnew : ∀ op, .inv b op ∉ H ++ H₁ := by
      intro op hop
      obtain ⟨e, he, rfl⟩ := List.mem_map.mp hb
      exact (List.mem_append.mp hop).elim (((hmem e).mp he).2 op) (hinv op)
    have hlt := h.realTime a b (by rw [List.map_append]; exact List.mem_append_right _ ha)
      (by rw [List.map_append]; exact List.mem_append_right _ hb)
      ⟨H ++ H₁, (List.prefix_append_right_inj H).mpr hpre,
        ⟨ret, List.mem_append_right _ hres⟩, hnew⟩
    rw [List.map_append, List.idxOf_append_of_notMem (hnot a ha),
      List.idxOf_append_of_notMem (hnot b hb)] at hlt
    omega

/-- **Histories can be cut where nothing is pending.** -/
theorem split (h : Linearizes O (H ++ H') S) (hq : Quiescent H) (hq' : Quiescent H')
    (hnd : ((calls (H ++ H')).map Prod.fst).Nodup) :
    ∃ S₁ S₂, S = S₁ ++ S₂ ∧ Linearizes O H S₁ ∧
      Linearizes (O.startAt (O.final O.init S₁)) H' S₂ := by
  have hS := h.eq_append hq
  have h' := h
  rw [hS] at h'
  refine ⟨_, _, hS, h'.left_of_append hq hnd fun e => ?_, h'.right_of_append hq' hnd fun e => ?_⟩
  · rw [← hS, List.mem_filter, invokedIn_iff]
  · rw [← hS, List.mem_filter, Bool.not_eq_true', ← Bool.not_eq_true, invokedIn_iff, not_exists]

/-- Where nothing is invoked nothing takes effect. -/
theorem eq_nil (h : Linearizes O [] S) : S = [] := by
  cases S with
  | nil => rfl
  | cons e S => exact absurd (h.invoked e List.mem_cons_self) List.not_mem_nil

end Linearizes

/-! ## Sequences of calls -/

/-- A history that is made of the calls `cs`, one after the other; `P c H` says that `c` can lead
to the history `H`. -/
inductive Sessions (P : C → List (Event Op Ret) → Prop) : List C → List (Event Op Ret) → Prop
  | nil : Sessions P [] []
  | next {cs : List C} {c : C} {H H' : List (Event Op Ret)} : Sessions P cs H → P c H' →
      Sessions P (cs ++ [c]) (H ++ H')

namespace Sessions
variable {P : C → List (Event Op Ret) → Prop} {cs : List C}

theorem quiescent (hP : ∀ c H, P c H → Quiescent H) (h : Sessions P cs H) : Quiescent H := by
  induction h with
  | nil => exact .nil
  | next _ hc ih => exact ih.append (hP _ _ hc)

/-- **Calls compose.**  If `Eff` is what a single call does, whatever the order of its operations,
a sequence of calls goes along a path of `Eff`. -/
theorem path (Eff : σ → C → σ → Prop) {R : Op → Prop} (hP : ∀ c H, P c H → Quiescent H)
    (heff : ∀ s c H S, P c H → ((calls H).map Prod.fst).Nodup → Linearizes (O.startAt s) H S →
      (∀ e ∈ S, R e.2.1) → Eff s c (O.final s S))
    (h : Sessions P cs H) : ∀ S, Linearizes O H S → (∀ e ∈ S, R e.2.1) →
      ((calls H).map Prod.fst).Nodup → Path Eff O.init cs (O.final O.init S) := by
  induction h with
  | nil =>
    intro S hS _ _
    rw [hS.eq_nil]
    exact .start
  | @next cs c H H' hcs hc ih =>
    intro S hS hR hnd
    obtain ⟨S₁, S₂, rfl, h₁, h₂⟩ := hS.split (hcs.quiescent hP) (hP _ _ hc) hnd
    rw [calls_append, List.map_append] at hnd
    have hfirst := ih S₁ h₁ (fun e he => hR e (List.mem_append_left _ he)) hnd.of_append_left
    rw [SeqObject.final_append]
    exact hfirst.next (heff _ c H' S₂ hc hnd.of_append_right h₂ fun e he =>
      hR e (List.mem_append_right _ he))

end Sessions
end Linearization
