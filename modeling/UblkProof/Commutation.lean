import Mathlib.Data.List.Perm.Basic
import Mathlib.Logic.Equiv.Defs
import UblkProof.Linearization

/-! # Operations that commute

Two legal sequences of the same operations that agree on the order of those that do not commute
return the same and end in the same state (`SeqObject.legal_agree`).  The argument is the one
for traces: the first operation of one sequence commutes with all that come before it in the
other, so it can be moved to the front there.

For concurrent objects this says when scheduling does not matter (`Linearizes.agree`): two
histories with the same operations have the same responses, if operations that do not commute
do not overlap, and come in the same order in both.
-/
namespace Linearization
variable {σ Op Ret : Type}

namespace SeqObject
variable (O : SeqObject σ Op Ret)

/-- Neither operation notices whether the other came first, and nobody notices afterwards. -/
structure Commute (a b : Op) : Prop where
  state : ∀ s, (O.apply (O.apply s a).1 b).1 = (O.apply (O.apply s b).1 a).1
  left : ∀ s, (O.apply (O.apply s b).1 a).2 = (O.apply s a).2
  right : ∀ s, (O.apply (O.apply s a).1 b).2 = (O.apply s b).2

/-- **An operation that commutes with all those before it can go first.** -/
theorem legal_front {e : Nat × Op × Ret} (Q : List (Nat × Op × Ret)) {P : List (Nat × Op × Ret)}
    (h : ∀ p ∈ P, O.Commute e.2.1 p.2.1) : ∀ s : σ,
    (O.Legal s (P ++ e :: Q) → O.Legal s (e :: (P ++ Q))) ∧
      O.final s (P ++ e :: Q) = O.final s (e :: (P ++ Q)) := by
  induction P with
  | nil => exact fun _ => ⟨id, rfl⟩
  | cons p P ih =>
    intro s
    have hp := h p List.mem_cons_self
    obtain ⟨hlegal, hfinal⟩ := ih (fun x hx => h x (List.mem_cons_of_mem p hx)) (O.apply s p.2.1).1
    constructor
    · rintro ⟨hret, hrest⟩
      obtain ⟨he, hrest⟩ := hlegal hrest
      refine ⟨(hp.left s).symm.trans he, (hp.right s).trans hret, ?_⟩
      rw [hp.state]
      exact hrest
    · show O.final (O.apply s p.2.1).1 (P ++ e :: Q) =
        O.final (O.apply (O.apply s e.2.1).1 p.2.1).1 (P ++ Q)
      rw [hfinal, hp.state]
      rfl

/-- What is called, and by whom. -/
def key (e : Nat × Op × Ret) : Nat × Op := (e.1, e.2.1)

/-- **Sequences that agree on what does not commute agree.** -/
theorem legal_agree (S : List (Nat × Op × Ret)) : ∀ (s : σ) (S' : List (Nat × Op × Ret)),
    O.Legal s S → O.Legal s S' → (S.map key).Perm (S'.map key) →
    S.Pairwise (fun a b => ¬ O.Commute a.2.1 b.2.1 → ¬ [b.1, a.1].Sublist (S'.map Prod.fst)) →
    S.Perm S' ∧ O.final s S = O.final s S' := by
  induction S with
  | nil =>
    intro s S' _ _ hperm _
    obtain rfl : S' = [] := by
      have := hperm.length_eq
      rw [List.length_map, List.length_map] at this
      exact List.length_eq_zero_iff.mp this.symm
    exact ⟨List.Perm.refl _, rfl⟩
  | cons e S ih =>
    intro s S' ⟨hret, hlegal⟩ hlegal' hperm hpair
    obtain ⟨hhead, htail⟩ := List.pairwise_cons.mp hpair
    obtain ⟨e', he', hkey⟩ :=
      List.mem_map.mp (hperm.subset (List.mem_map_of_mem List.mem_cons_self))
    obtain ⟨P, Q, rfl⟩ := List.append_of_mem he'
    obtain ⟨hid, hop⟩ : e'.1 = e.1 ∧ e'.2.1 = e.2.1 := Prod.mk.inj hkey
    have hperm' : (S.map key).Perm ((P ++ Q).map key) := by
      have hfront : ((P ++ e' :: Q).map key).Perm (key e :: (P ++ Q).map key) := by
        rw [← hkey]
        exact (List.perm_middle.map key)
      exact (hperm.trans hfront).cons_inv
    -- what comes before `e'` comes after `e` on the other side
    have hcommute : ∀ p ∈ P, O.Commute e'.2.1 p.2.1 := by
      intro p hp
      have hmem : key p ∈ S.map key :=
        hperm'.symm.subset (List.mem_map_of_mem (List.mem_append_left _ hp))
      obtain ⟨q, hq, hkq⟩ := List.mem_map.mp hmem
      obtain ⟨hidq, hopq⟩ : q.1 = p.1 ∧ q.2.1 = p.2.1 := Prod.mk.inj hkq
      by_contra hne
      rw [hop, ← hopq] at hne
      refine hhead q hq hne ?_
      obtain ⟨P₁, P₂, rfl⟩ := List.append_of_mem hp
      rw [hidq, ← hid]
      have hbefore : [p, e'].Sublist ((P₁ ++ p :: P₂) ++ e' :: Q) := by
        rw [List.append_assoc]
        refine List.Sublist.trans ?_ (List.sublist_append_right P₁ _)
        refine List.Sublist.cons_cons p ?_
        exact List.singleton_sublist.mpr (List.mem_append_right _ List.mem_cons_self)
      exact hbefore.map Prod.fst
    obtain ⟨hfront, hfinal⟩ := O.legal_front Q hcommute s
    obtain ⟨hret', hrest'⟩ := hfront hlegal'
    have heq : e' = e := by
      refine Prod.ext hid (Prod.ext hop ?_)
      rw [← hret', ← hret, hop]
    subst heq
    have hfewer : ((P ++ Q).map Prod.fst).Sublist ((P ++ e' :: Q).map Prod.fst) :=
      ((List.sublist_cons_self e' Q).append_left P).map Prod.fst
    obtain ⟨hS, hend⟩ := ih _ (P ++ Q) hlegal hrest' hperm'
      (htail.imp fun hnot hc hsub => hnot hc (hsub.trans hfewer))
    refine ⟨(hS.cons e').trans List.perm_middle.symm, ?_⟩
    rw [hfinal]
    exact hend

end SeqObject

/-! ## Histories -/

/-- The operation `a` has responded before `b` is invoked. -/
def Precedes (H : List (Event Op Ret)) (a b : Nat) : Prop :=
  ∃ H₁, H₁ <+: H ∧ (∃ ret, .res a ret ∈ H₁) ∧ ∀ op, .inv b op ∉ H₁

/-- No identity is used twice, and nothing is pending. -/
structure Complete (H : List (Event Op Ret)) : Prop where
  single : ∀ id op op', .inv id op ∈ H → .inv id op' ∈ H → op = op'
  answered : ∀ id op, .inv id op ∈ H → ∃ ret, .res id ret ∈ H

/-- The same operations are called in both histories, under identities that `ρ` relates; what
does not commute comes in the same order in both. -/
structure SameCalls (O : SeqObject σ Op Ret) (ρ : Equiv.Perm Nat) (H H' : List (Event Op Ret)) :
    Prop where
  calls : ∀ id op, .inv id op ∈ H ↔ .inv (ρ id) op ∈ H'
  ordered : ∀ a b op op', .inv a op ∈ H → .inv b op' ∈ H → a ≠ b → ¬ O.Commute op op' →
    (Precedes H a b ∧ Precedes H' (ρ a) (ρ b)) ∨ (Precedes H b a ∧ Precedes H' (ρ b) (ρ a))

/-- What comes first does not come second. -/
theorem not_sublist_of_idxOf_lt {l : List Nat} (hnd : l.Nodup) {a b : Nat}
    (h : l.idxOf a < l.idxOf b) : ¬ [b, a].Sublist l := by
  intro hsub
  obtain ⟨r₁, r₂, rfl, hb, ha⟩ := List.cons_sublist_iff.mp hsub
  have ha := List.singleton_sublist.mp ha
  have hnot : a ∉ r₁ := fun hmem => List.disjoint_of_nodup_append hnd hmem ha
  rw [List.idxOf_append_of_notMem hnot, List.idxOf_append_of_mem hb] at h
  have := List.idxOf_lt_length_of_mem hb
  omega

namespace Linearizes
variable {O : SeqObject σ Op Ret} {H H' : List (Event Op Ret)} {S S' : List (Nat × Op × Ret)}
  {ρ : Equiv.Perm Nat}

/-- In a complete history every call is linearized. -/
theorem mem_key_iff (h : Linearizes O H S) (hc : Complete H) (id : Nat) (op : Op) :
    (id, op) ∈ S.map SeqObject.key ↔ .inv id op ∈ H := by
  constructor
  · intro hmem
    obtain ⟨e, he, hkey⟩ := List.mem_map.mp hmem
    obtain ⟨rfl, rfl⟩ := Prod.mk.inj hkey
    exact h.invoked e he
  · intro hinv
    obtain ⟨ret, hres⟩ := hc.answered id op hinv
    obtain ⟨op', hmem⟩ := h.completed id ret hres
    obtain rfl := hc.single id op op' hinv (h.invoked _ hmem)
    exact List.mem_map.mpr ⟨_, hmem, rfl⟩

/-- No call is linearized twice. -/
theorem nodup_key (h : Linearizes O H S) : (S.map SeqObject.key).Nodup := by
  have hfst : (S.map SeqObject.key).map Prod.fst = S.map Prod.fst := by
    rw [List.map_map]
    rfl
  exact List.Nodup.of_map Prod.fst (hfst ▸ h.unique)

/-- The call with identity `id` has one result. -/
theorem ret_unique (h : Linearizes O H S) {id : Nat} {op op' : Op} {ret ret' : Ret}
    (h1 : (id, op, ret) ∈ S) (h2 : (id, op', ret') ∈ S) : ret = ret' := by
  have heq := List.inj_on_of_nodup_map h.unique h1 h2 rfl
  exact congrArg (fun e => e.2.2) heq

/-- What comes first in real time comes first in the sequence. -/
theorem not_before (h : Linearizes O H S) {a b : Nat} (ha : a ∈ S.map Prod.fst)
    (hb : b ∈ S.map Prod.fst) (hp : Precedes H a b) : ¬ [b, a].Sublist (S.map Prod.fst) :=
  not_sublist_of_idxOf_lt h.unique (h.realTime a b ha hb hp)

/-- The calls under their identities in the other history. -/
def renamed (ρ : Equiv.Perm Nat) (S : List (Nat × Op × Ret)) : List (Nat × Op × Ret) :=
  S.map fun e => (ρ e.1, e.2)

theorem legal_renamed (S : List (Nat × Op × Ret)) : ∀ s : σ, O.Legal s S →
    O.Legal s (renamed ρ S) ∧ O.final s (renamed ρ S) = O.final s S := by
  induction S with
  | nil => exact fun _ _ => ⟨trivial, rfl⟩
  | cons e S ih =>
    rintro s ⟨hret, hlegal⟩
    obtain ⟨h1, h2⟩ := ih _ hlegal
    exact ⟨⟨hret, h1⟩, h2⟩

/-- **Histories that agree on what does not commute agree.** -/
theorem agree (h : Linearizes O H S) (h' : Linearizes O H' S') (hc : Complete H)
    (hc' : Complete H') (hsame : SameCalls O ρ H H') :
    (renamed ρ S).Perm S' ∧ O.final O.init S = O.final O.init S' := by
  obtain ⟨hlegal, hfinal⟩ := legal_renamed (ρ := ρ) S O.init h.legal
  have hkeys : ((renamed ρ S).map SeqObject.key).Perm (S'.map SeqObject.key) := by
    have hren : (renamed ρ S).map SeqObject.key =
        (S.map SeqObject.key).map fun k => (ρ k.1, k.2) := by
      rw [renamed, List.map_map, List.map_map]
      rfl
    rw [hren]
    refine (List.perm_ext_iff_of_nodup ?_ h'.nodup_key).mpr fun ⟨id', op⟩ => ?_
    · refine h.nodup_key.map fun k k' hk => ?_
      obtain ⟨h1, h2⟩ := Prod.mk.inj hk
      exact Prod.ext (ρ.injective h1) h2
    · rw [h'.mem_key_iff hc', ← ρ.apply_symm_apply id', ← hsame.calls, ← h.mem_key_iff hc,
        List.mem_map]
      constructor
      · rintro ⟨k, hk, hkey⟩
        obtain ⟨h1, h2⟩ := Prod.mk.inj hkey
        rw [← ρ.injective h1, ← h2]
        exact hk
      · exact fun hk => ⟨_, hk, rfl⟩
  have hids : ∀ e ∈ S, ρ e.1 ∈ S'.map Prod.fst := by
    intro e he
    have hmem : (ρ e.1, e.2.1) ∈ S'.map SeqObject.key :=
      hkeys.subset (List.mem_map.mpr ⟨_, List.mem_map.mpr ⟨e, he, rfl⟩, rfl⟩)
    obtain ⟨e', he', hkey⟩ := List.mem_map.mp hmem
    exact List.mem_map.mpr ⟨e', he', congrArg Prod.fst hkey⟩
  -- a pair that does not commute is in the same order on both sides
  have hpair : (renamed ρ S).Pairwise (fun a b => ¬ O.Commute a.2.1 b.2.1 →
      ¬ [b.1, a.1].Sublist (S'.map Prod.fst)) := by
    refine List.pairwise_map.mpr (List.pairwise_iff_forall_sublist.mpr ?_)
    intro a b hab hne
    have ha : a ∈ S := hab.subset List.mem_cons_self
    have hb : b ∈ S := hab.subset (List.mem_cons_of_mem _ List.mem_cons_self)
    have hsub : [a.1, b.1].Sublist (S.map Prod.fst) := hab.map Prod.fst
    have hidne : a.1 ≠ b.1 := by
      have hnd := hsub.nodup h.unique
      simpa using hnd
    rcases hsame.ordered a.1 b.1 _ _ (h.invoked a ha) (h.invoked b hb) hidne hne with
      ⟨-, hp'⟩ | ⟨hp, -⟩
    · exact h'.not_before (hids a ha) (hids b hb) hp'
    · exact absurd hsub (h.not_before (List.mem_map_of_mem hb) (List.mem_map_of_mem ha) hp)
  obtain ⟨hperm, hend⟩ := O.legal_agree _ O.init S' hlegal h'.legal hkeys hpair
  exact ⟨hperm, hfinal.symm.trans hend⟩

/-- Then the same is returned, call by call. -/
theorem agree_res (h : Linearizes O H S) (h' : Linearizes O H' S') (hc : Complete H)
    (hc' : Complete H') (hsame : SameCalls O ρ H H') (id : Nat) (ret : Ret) :
    .res id ret ∈ H ↔ .res (ρ id) ret ∈ H' := by
  obtain ⟨hperm, -⟩ := h.agree h' hc hc' hsame
  constructor
  · intro hres
    obtain ⟨op, hmem⟩ := h.completed id ret hres
    have hmem' : (ρ id, op, ret) ∈ S' := hperm.subset (List.mem_map.mpr ⟨_, hmem, rfl⟩)
    obtain ⟨ret', hres'⟩ := hc'.answered _ _ (h'.invoked _ hmem')
    obtain ⟨op', hmem''⟩ := h'.completed _ _ hres'
    rwa [h'.ret_unique hmem' hmem'']
  · intro hres'
    obtain ⟨op, hmem'⟩ := h'.completed _ ret hres'
    obtain ⟨e, he, heq⟩ := List.mem_map.mp (hperm.symm.subset hmem')
    obtain ⟨hid, hrest⟩ := Prod.mk.inj heq
    have hmem : (id, op, ret) ∈ S := by
      rw [← ρ.injective hid, ← hrest]
      exact he
    obtain ⟨ret', hres⟩ := hc.answered _ _ (h.invoked _ hmem)
    obtain ⟨op', hmem''⟩ := h.completed _ _ hres
    rwa [h.ret_unique hmem hmem'']

end Linearizes
end Linearization
