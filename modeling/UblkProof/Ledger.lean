import Mathlib.Data.Multiset.AddSub

/-! # A ledger of resources

A `Book` records which resources are live, each under a handle of its own, and everything
that was ever acquired or released.  Handles are not used twice, so that a stale handle can
be told from a current one: releasing one is recorded as `stray`.

A program is reasoned about by what it owns: `b.Owns held` says that the book is sound and
exactly `held` is live.  Acquiring adds to `held` and releasing takes from it
(`Owns.acquire`, `Owns.release`), so what several parts of a program own is the sum of what
each owns.  A resource that is not live at the end has been released exactly as often as it
was acquired, which is at most once (`Sound.balance`, `Sound.once`).
-/
namespace Ledger

/-- `stray` is a release of what is not owned. -/
inductive Entry (R : Type)
  | acquired (h : Nat) (r : R)
  | released (h : Nat) (r : R)
  | stray (h : Nat)
  deriving DecidableEq

/-- What is owned, the next handle, and everything that has happened. -/
structure Book (R : Type) where
  live : List (Nat × R)
  next : Nat
  log : List (Entry R)

namespace Book
variable {R : Type}

/-- Nothing is owned. -/
def empty : Book R := ⟨[], 0, []⟩

/-- A new handle for `r`. -/
def acquire (b : Book R) (r : R) : Nat × Book R :=
  (b.next, ⟨(b.next, r) :: b.live, b.next + 1, b.log ++ [.acquired b.next r]⟩)

variable [DecidableEq R]

/-- Release whatever is live under the handle. -/
def release (b : Book R) (h : Nat) : Book R :=
  match b.live.find? (fun e => e.1 == h) with
  | some e => { b with live := b.live.erase e, log := b.log ++ [.released h e.2] }
  | none => { b with log := b.log ++ [.stray h] }

/-- The books balance: handles are given out once, and what was acquired is either owned or released
once. -/
structure Sound (b : Book R) : Prop where
  lt : ∀ e ∈ b.live, e.1 < b.next
  distinct : (b.live.map Prod.fst).Nodup
  fresh : ∀ h r, .acquired h r ∈ b.log → h < b.next
  once : ∀ h r, b.log.count (.acquired h r) ≤ 1
  balance : ∀ h r, b.log.count (.acquired h r) =
    b.log.count (.released h r) + b.live.count (h, r)
  legit : ∀ pre, pre <+: b.log → ∀ h r, pre.count (.released h r) ≤ pre.count (.acquired h r)
  noStray : ∀ h, .stray h ∉ b.log

/-- The book is sound and exactly `held` is live. -/
structure Owns (b : Book R) (held : Multiset (Nat × R)) : Prop where
  sound : b.Sound
  live : (b.live : Multiset (Nat × R)) = held

section
variable {b : Book R} {held : Multiset (Nat × R)}

theorem count_concat (l : List (Entry R)) (e e' : Entry R) :
    (l ++ [e]).count e' = l.count e' + if e = e' then 1 else 0 := by
  rw [List.count_append, List.count_singleton]
  simp only [beq_iff_eq]

/-- A prefix of an extended log is a prefix of the old log or the whole. -/
theorem legit_concat (hb : b.Sound) {e : Entry R}
    (h : ∀ x r, (b.log ++ [e]).count (.released x r) ≤ (b.log ++ [e]).count (.acquired x r)) :
    ∀ pre, pre <+: b.log ++ [e] → ∀ x r, pre.count (.released x r) ≤ pre.count (.acquired x r) := by
  intro pre hpre x r
  rcases List.prefix_concat_iff.mp hpre with rfl | hpre
  · exact h x r
  · exact hb.legit pre hpre x r

/-- **Acquiring adds to what is owned.** -/
theorem Owns.acquire (hb : b.Owns held) (r : R) :
    (b.acquire r).2.Owns ({((b.acquire r).1, r)} + held) where
  live := by
    show (((b.next, r) :: b.live : List (Nat × R)) : Multiset (Nat × R)) = _
    rw [← Multiset.cons_coe, hb.live, Multiset.singleton_add]
    rfl
  sound := by
    have hs := hb.sound
    have hnew : ∀ x, b.log.count (.acquired b.next x) = 0 := fun x =>
      List.count_eq_zero.mpr fun hmem => Nat.lt_irrefl _ (hs.fresh b.next x hmem)
    have hbal : ∀ x r', (b.log ++ [Entry.acquired b.next r]).count (.acquired x r') =
        (b.log ++ [Entry.acquired b.next r]).count (.released x r') +
          ((b.next, r) :: b.live).count (x, r') := by
      intro x r'
      have hold := hs.balance x r'
      have hne : ¬ Entry.acquired b.next r = .released x r' := nofun
      rw [count_concat, count_concat, List.count_cons, if_neg hne]
      by_cases he : (b.next, r) = (x, r')
      · cases he
        simp only [if_true, beq_self_eq_true]
        omega
      · have h1 : ¬ Entry.acquired b.next r = .acquired x r' := by simpa using he
        have h2 : ((b.next, r) == (x, r')) = false := beq_eq_false_iff_ne.mpr he
        rw [if_neg h1, h2]
        simpa using hold
    refine ⟨?_, ?_, ?_, ?_, hbal, ?_, ?_⟩
    · intro e he
      rcases List.mem_cons.mp he with rfl | he
      · exact Nat.lt_succ_self _
      · exact Nat.lt_succ_of_lt (hs.lt e he)
    · refine List.nodup_cons.mpr ⟨fun hmem => ?_, hs.distinct⟩
      obtain ⟨e, he, heq⟩ := List.mem_map.mp hmem
      exact Nat.lt_irrefl _ (heq ▸ hs.lt e he)
    · intro x r' hmem
      rcases List.mem_append.mp hmem with hmem | hmem
      · exact Nat.lt_succ_of_lt (hs.fresh x r' hmem)
      · cases List.mem_singleton.mp hmem
        exact Nat.lt_succ_self _
    · intro x r'
      rw [show (b.acquire r).2.log = b.log ++ [.acquired b.next r] from rfl, count_concat]
      by_cases he : Entry.acquired b.next r = .acquired x r'
      · cases he
        rw [hnew, if_pos rfl]
      · rw [if_neg he]
        exact hs.once x r'
    · refine legit_concat hs fun x r' => ?_
      rw [hbal]
      exact Nat.le_add_right _ _
    · intro x hmem
      rcases List.mem_append.mp hmem with hmem | hmem
      · exact hs.noStray x hmem
      · cases List.mem_singleton.mp hmem

/-- The resource found under an owned handle is the owned one. -/
theorem Sound.find (hb : b.Sound) {h : Nat} {r : R} (hmem : (h, r) ∈ b.live) :
    b.live.find? (fun e => e.1 == h) = some (h, r) := by
  cases hf : b.live.find? (fun e => e.1 == h) with
  | none =>
    have := List.find?_eq_none.mp hf (h, r) hmem
    simp at this
  | some e =>
    have heq : e.1 = h := by simpa using List.find?_some hf
    have := List.inj_on_of_nodup_map hb.distinct (List.mem_of_find?_eq_some hf) hmem heq
    rw [this]

theorem Owns.mem {h : Nat} {r : R} (hb : b.Owns ({(h, r)} + held)) : (h, r) ∈ b.live := by
  rw [← Multiset.mem_coe, hb.live, Multiset.singleton_add]
  exact Multiset.mem_cons_self _ _

theorem Owns.release_eq {h : Nat} {r : R} (hb : b.Owns ({(h, r)} + held)) :
    b.release h = { b with live := b.live.erase (h, r), log := b.log ++ [.released h r] } := by
  simp only [Book.release, hb.sound.find hb.mem]

/-- **Releasing what is owned takes it away.** -/
theorem Owns.release {h : Nat} {r : R} (hb : b.Owns ({(h, r)} + held)) :
    (b.release h).Owns held := by
  have hs := hb.sound
  have hmem := hb.mem
  have hbal : ∀ x r', (b.log ++ [Entry.released h r]).count (.acquired x r') =
      (b.log ++ [Entry.released h r]).count (.released x r') +
        (b.live.erase (h, r)).count (x, r') := by
    intro x r'
    have := hs.balance x r'
    rw [count_concat, count_concat, if_neg (by simp)]
    by_cases he : (h, r) = (x, r')
    · cases he
      have hpos : 0 < b.live.count (h, r) := List.count_pos_iff.mpr hmem
      rw [if_pos rfl, List.count_erase_self]
      omega
    · have h1 : ¬ Entry.released h r = .released x r' := by simpa using he
      rw [if_neg h1, List.count_erase_of_ne (Ne.symm he)]
      omega
  rw [hb.release_eq]
  refine ⟨⟨?_, ?_, ?_, ?_, hbal, ?_, ?_⟩, ?_⟩
  · exact fun e he => hs.lt e (List.mem_of_mem_erase he)
  · exact hs.distinct.sublist (List.Sublist.map _ List.erase_sublist)
  · intro x r' hx
    rcases List.mem_append.mp hx with hx | hx
    · exact hs.fresh x r' hx
    · cases List.mem_singleton.mp hx
  · intro x r'
    rw [show ({ b with live := _, log := b.log ++ [.released h r] } : Book R).log =
      b.log ++ [.released h r] from rfl, count_concat, if_neg (by simp)]
    exact hs.once x r'
  · refine legit_concat hs fun x r' => ?_
    rw [hbal]
    exact Nat.le_add_right _ _
  · intro x hx
    rcases List.mem_append.mp hx with hx | hx
    · exact hs.noStray x hx
    · cases List.mem_singleton.mp hx
  · show ((b.live.erase (h, r) : List (Nat × R)) : Multiset (Nat × R)) = held
    have hperm := Multiset.coe_eq_coe.mpr (List.perm_cons_erase hmem)
    rw [hb.live, Multiset.singleton_add, ← Multiset.cons_coe] at hperm
    exact (Multiset.cons_inj_right _).mp hperm.symm

/-- What is not live has been released as often as it was acquired. -/
theorem Owns.settled (hb : b.Owns held) {h : Nat} {r : R} (hn : (h, r) ∉ held) :
    b.log.count (.released h r) = b.log.count (.acquired h r) := by
  have hzero : b.live.count (h, r) = 0 := by
    rw [List.count_eq_zero, ← Multiset.mem_coe, hb.live]
    exact hn
  rw [hb.sound.balance, hzero, Nat.add_zero]

end
end Book
end Ledger
