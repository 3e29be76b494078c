import Mathlib.Data.List.Basic
import Mathlib.Logic.Function.Basic
import Mathlib.Order.Interval.Finset.Nat

/-! # Circular buffers addressed by free-running counters

A producer and a consumer share a power-of-two array and two `UInt32` counters
that are only ever incremented and wrap past `2 ^ 32`.  The counter of position
`p` is `UInt32.ofNat p`; its slot is `p % 2 ^ k`, computed with a mask.

Positions are natural numbers here and never wrap.  The first half of the module
says when counter arithmetic agrees with arithmetic on positions
(`dist_ofNat`, `and_mask_ofNat`); the second half is about the array: `Window`
states that the slots from a position on hold a given list, and its lemmas are the
operations of a FIFO queue.
-/
namespace CircularBuffer

/-! ## Counters -/

theorem ofNat_add_one (p : Nat) : UInt32.ofNat p + 1 = UInt32.ofNat (p + 1) := by
  rw [UInt32.ofNat_add]; rfl

theorem toNat_ofNat_of_lt {d : Nat} (h : d < 2 ^ 32) : (UInt32.ofNat d).toNat = d := by
  rw [UInt32.toNat_ofNat', Nat.mod_eq_of_lt h]

/-- **Counter distance is position distance**, wrapped or not. -/
theorem ofNat_sub_ofNat {h t : Nat} (hle : h ≤ t) :
    UInt32.ofNat t - UInt32.ofNat h = UInt32.ofNat (t - h) := by
  obtain ⟨d, rfl⟩ := Nat.exists_eq_add_of_le' hle
  rw [UInt32.ofNat_add, Nat.add_sub_cancel, UInt32.add_sub_cancel]

theorem dist_ofNat {h t : Nat} (hle : h ≤ t) (hlt : t - h < 2 ^ 32) :
    (UInt32.ofNat t - UInt32.ofNat h).toNat = t - h := by
  rw [ofNat_sub_ofNat hle, toNat_ofNat_of_lt hlt]

/-- Masking a counter gives the slot of its position: `2 ^ k` divides `2 ^ 32`, so
the wrap of the counter does not show in the slot. -/
theorem and_mask_ofNat {k : Nat} (hk : k ≤ 32) {m : UInt32} (hm : m.toNat = 2 ^ k - 1) (p : Nat) :
    (UInt32.ofNat p &&& m).toNat = p % 2 ^ k := by
  rw [UInt32.toNat_and, hm, Nat.and_two_pow_sub_one_eq_mod, UInt32.toNat_ofNat',
    Nat.mod_mod_of_dvd _ (Nat.pow_dvd_pow 2 hk)]

/-- Two positions less than a full turn apart have different slots. -/
theorem slot_inj {c a p q : Nat} (hp : a ≤ p) (hp' : p < a + c) (hq : a ≤ q) (hq' : q < a + c)
    (h : p % c = q % c) : p = q :=
  Nat.mod_injOn_Ico a c (by simpa using ⟨hp, hp'⟩) (by simpa using ⟨hq, hq'⟩) h

/-! ## Windows -/

variable {α : Type}

/-- The `c` slots hold `l`, in order, from position `head` on. -/
def Window (slots : Nat → α) (c head : Nat) (l : List α) : Prop :=
  ∀ i (h : i < l.length), slots ((head + i) % c) = l[i]

namespace Window
variable {slots : Nat → α} {c head : Nat} {l : List α}

theorem nil : Window slots c head ([] : List α) := fun _ h => absurd h (Nat.not_lt_zero _)

/-- The slots from `head` on, read in order. -/
theorem map_range (h : Window slots c head l) :
    ((List.range l.length).map fun i => slots ((head + i) % c)) = l := by
  apply List.ext_getElem
  · rw [List.length_map, List.length_range]
  · intro i _ h2
    rw [List.getElem_map, List.getElem_range]
    exact h i h2

/-- A window is about its own slots only. -/
theorem congr {slots' : Nat → α} (h : Window slots c head l)
    (heq : ∀ i, i < l.length → slots' ((head + i) % c) = slots ((head + i) % c)) :
    Window slots' c head l := fun i hi => (heq i hi).trans (h i hi)

/-- Writing the slot after the window leaves the window alone while it is not full. -/
theorem update_tail (h : Window slots c head l) (hlt : l.length < c) (x : α) :
    Window (Function.update slots ((head + l.length) % c) x) c head l := by
  refine h.congr fun i hi => Function.update_of_ne ?_ _ _
  intro he
  have := slot_inj (a := head) (by omega) (by omega) (by omega) (by omega) he
  omega

/-- A window and the slot after it. -/
theorem concat (h : Window slots c head l) {x : α} (hx : slots ((head + l.length) % c) = x) :
    Window slots c head (l ++ [x]) := by
  intro i hi
  rw [List.length_append, List.length_singleton] at hi
  rcases Nat.lt_or_eq_of_le (Nat.lt_succ_iff.mp hi) with hi' | rfl
  · rw [List.getElem_append_left hi']
    exact h i hi'
  · rw [hx, List.getElem_concat_length]
    rfl

/-- **Enqueue**: writing the slot after the window appends to it. -/
theorem push (h : Window slots c head l) (hlt : l.length < c) (x : α) :
    Window (Function.update slots ((head + l.length) % c) x) c head (l ++ [x]) :=
  (h.update_tail hlt x).concat (Function.update_self ..)

/-- **Dequeue**: moving the head past the first `k` entries drops them. -/
theorem drop (h : Window slots c head l) (k : Nat) : Window slots c (head + k) (l.drop k) := by
  intro i hi
  rw [List.length_drop] at hi
  rw [List.getElem_drop, Nat.add_assoc]
  exact h (k + i) (by omega)

/-- Writing a slot of the window replaces the entry there and no other. -/
theorem set (h : Window slots c head l) (hle : l.length ≤ c) {j : Nat} (hj : j < l.length) (x : α) :
    Window (Function.update slots ((head + j) % c) x) c head (l.set j x) := by
  intro i hi
  rw [List.length_set] at hi
  by_cases hij : i = j
  · subst hij; simp
  · rw [List.getElem_set_ne (Ne.symm hij), Function.update_of_ne, h i hi]
    intro he
    exact hij (Nat.add_left_cancel
      (slot_inj (a := head) (by omega) (by omega) (by omega) (by omega) he))

theorem head_eq {x : α} (h : Window slots c head (x :: l)) : slots (head % c) = x := by
  exact h 0 (Nat.zero_lt_succ _)

theorem append_left {l' : List α} (h : Window slots c head (l ++ l')) : Window slots c head l := by
  intro i hi
  rw [h i (by rw [List.length_append]; omega), List.getElem_append_left hi]

end Window

/-! ## Writing over what is still there

A producer that does not watch the consumer writes over the oldest slots.  What the area
then holds of everything ever written is the last `c` of it. -/

/-- The slots hold the most recent `c` elements of `l`. -/
def Latest (slots : Nat → α) (c base : Nat) (l : List α) : Prop :=
  ∀ m (h : m < l.length), l.length ≤ m + c → slots ((base + m) % c) = l[m]

namespace Latest
variable {slots : Nat → α} {c base : Nat} {l : List α}

theorem nil : Latest slots c base ([] : List α) := fun _ h => absurd h (Nat.not_lt_zero _)

theorem push (h : Latest slots c base l) (hc : 0 < c) (x : α) :
    Latest (Function.update slots ((base + l.length) % c) x) c base (l ++ [x]) := by
  intro m hm hle
  rw [List.length_append, List.length_singleton] at hm hle
  by_cases he : m = l.length
  · subst he
    rw [Function.update_self, List.getElem_concat_length]
    rfl
  · have hne : (base + m) % c ≠ (base + l.length) % c := by
      intro heq
      have := slot_inj (a := base + m) (by omega) (by omega) (by omega) (by omega) heq
      omega
    rw [Function.update_of_ne hne, List.getElem_append_left (by omega)]
    exact h m (by omega) (by omega)

/-- Storing to the slot of the last element replaces it. -/
theorem setLast {x : α} (h : Latest slots c base (l ++ [x])) (hc : 0 < c) (y : α) :
    Latest (Function.update slots ((base + l.length) % c) y) c base (l ++ [y]) := by
  intro m hm hle
  rw [List.length_append, List.length_singleton] at hm hle
  by_cases he : m = l.length
  · subst he
    rw [Function.update_self, List.getElem_concat_length]
    rfl
  · have hne : (base + m) % c ≠ (base + l.length) % c := by
      intro heq
      have := slot_inj (a := base + m) (by omega) (by omega) (by omega) (by omega) heq
      omega
    have hold := h m (by simp; omega) (by simp; omega)
    rw [List.getElem_append_left (by omega)] at hold
    rw [Function.update_of_ne hne, List.getElem_append_left (by omega)]
    exact hold

/-- **What is read at position `p`**: not the element written there, but the last one written
to its slot. -/
theorem read (h : Latest slots c base l) (hc : 0 < c) {p m : Nat} (hm : m < l.length)
    (he : m = l.length - 1 - (l.length - 1 - p) % c) (hp : p < l.length) :
    slots ((base + p) % c) = l[m] := by
  have hlt := Nat.mod_lt (l.length - 1 - p) hc
  have hle := Nat.mod_le (l.length - 1 - p) c
  have hdiv := Nat.div_add_mod (l.length - 1 - p) c
  have hslot : (base + p) % c = (base + m) % c := by
    have hsum : base + m = base + p + c * ((l.length - 1 - p) / c) := by omega
    rw [hsum, Nat.add_mul_mod_self_left]
  rw [hslot]
  exact h m hm (by omega)

end Latest
end CircularBuffer
