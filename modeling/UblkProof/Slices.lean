import Mathlib.Data.Nat.SuccPred
import Mathlib.Order.CompletePartialOrder
import Mathlib.Order.Interval.Set.Union
import Mathlib.Order.SuccPred.IntervalSucc

/-! # Byte slices

A slice is a window into an allocation: where its bytes start, how many there are, and how many
the allocation has from there on.  Bounds are signed words of 64 bits.  Slicing a slice checks the
bounds against the capacity and not against the length, so a window may well reach past the
slice it was cut from; `Partition` says that windows do not, that they do not meet, and that
nothing is left over.

The last section is the arithmetic of alignment: how far an address is from the next multiple.
-/
namespace Slices

/-- A slice of bytes: where it starts, its length and its capacity. -/
structure Slice where
  addr : Nat
  len : Nat
  cap : Nat
  len_le : len ≤ cap

namespace Slice
variable {s : Slice} {a n k : Nat}

/-- The addresses of the bytes. -/
def bytes (s : Slice) : Set Nat := Set.Ico s.addr (s.addr + s.len)

/-- An allocation as a whole. -/
def whole (addr n : Nat) : Slice := ⟨addr, n, n, Nat.le_refl n⟩

/-- The `n` bytes from offset `a` on, as far as the allocation reaches. -/
def window (s : Slice) (a n : Nat) : Slice :=
  ⟨s.addr + a, min n (s.cap - a), s.cap - a, Nat.min_le_right _ _⟩

/-- `make([]byte, n)`, for which there is room at `addr`.  A negative length panics. -/
def make (n : Int64) (addr : UInt64) : Option Slice :=
  if 0 ≤ n.toInt then some (whole addr.toNat n.toInt.toNat) else none

/-- `s[lo:hi]`.  Bounds that are out of order or past the capacity panic. -/
def reslice (s : Slice) (lo hi : Int64) : Option Slice :=
  if 0 ≤ lo.toInt ∧ lo.toInt ≤ hi.toInt ∧ hi.toInt ≤ s.cap then
    some (s.window lo.toInt.toNat (hi.toInt - lo.toInt).toNat)
  else none

theorem make_ofNat (h : n < 2 ^ 63) (addr : UInt64) :
    make (Int64.ofNat n) addr = some (whole addr.toNat n) := by
  rw [make, Int64.toInt_ofNat_of_lt h, if_pos (Int.natCast_nonneg n), Int.toNat_natCast]

theorem reslice_ofNat (h : a + n ≤ s.cap) (hlt : a + n < 2 ^ 63) :
    s.reslice (Int64.ofNat a) (Int64.ofNat (a + n)) = some (s.window a n) := by
  have hn : ((a + n : Nat) : Int) - (a : Int) = (n : Int) := by omega
  rw [reslice, Int64.toInt_ofNat_of_lt (Nat.lt_of_le_of_lt (Nat.le_add_right a n) hlt),
    Int64.toInt_ofNat_of_lt hlt, if_pos ⟨by omega, by omega, by omega⟩, hn, Int.toNat_natCast,
    Int.toNat_natCast]

theorem len_window (h : a + n ≤ s.cap) : (s.window a n).len = n :=
  Nat.min_eq_left (by omega)

theorem bytes_window (h : a + n ≤ s.cap) :
    (s.window a n).bytes = Set.Ico (s.addr + a) (s.addr + (a + n)) := by
  rw [bytes, len_window h, window, Nat.add_assoc]

theorem window_subset (h : a + n ≤ s.len) : (s.window a n).bytes ⊆ s.bytes := by
  rw [bytes_window (Nat.le_trans h s.len_le)]
  exact Set.Ico_subset_Ico (Nat.le_add_right _ _) (Nat.add_le_add_left h _)

/-! ## Cutting a slice up -/

/-- The slices `parts` cut `s` up: they do not meet, lie inside it and cover it. -/
structure Partition (s : Slice) (parts : List Slice) : Prop where
  disjoint : parts.Pairwise fun p q => Disjoint p.bytes q.bytes
  within : ∀ p ∈ parts, p.bytes ⊆ s.bytes
  cover : s.bytes ⊆ ⋃ p ∈ parts, p.bytes

/-- `k` windows of `n` bytes, one after the other. -/
def cut (s : Slice) (n k : Nat) : List Slice := (List.range k).map fun i => s.window (i * n) n

theorem mem_cut {p : Slice} : p ∈ s.cut n k ↔ ∃ i < k, s.window (i * n) n = p := by
  rw [cut, List.mem_map]
  exact exists_congr fun i => and_congr_left' List.mem_range

/-- The windows stay inside as long as there are bytes for them. -/
theorem cut_fits (h : s.len = k * n) {i : Nat} (hi : i < k) : i * n + n ≤ s.len := by
  rw [h, ← Nat.succ_mul]
  exact Nat.mul_le_mul_right n hi

theorem bytes_cut (h : s.len = k * n) {i : Nat} (hi : i < k) :
    (s.window (i * n) n).bytes = Set.Ico (s.addr + i * n) (s.addr + (i + 1) * n) := by
  rw [bytes_window (Nat.le_trans (cut_fits h hi) s.len_le), ← Nat.succ_mul]

/-- **A slice is partitioned by windows of one length** if they make up its own. -/
theorem partition_cut (h : s.len = k * n) : s.Partition (s.cut n k) := by
  have hmono : Monotone fun i => s.addr + i * n :=
    fun i j hij => Nat.add_le_add_left (Nat.mul_le_mul_right n hij) _
  constructor
  · rw [cut, List.pairwise_map]
    refine List.Pairwise.imp_of_mem ?_ List.pairwise_lt_range
    intro i j hi hj hlt
    rw [bytes_cut h (List.mem_range.mp hi), bytes_cut h (List.mem_range.mp hj)]
    exact hmono.pairwise_disjoint_on_Ico_succ (Nat.ne_of_lt hlt)
  · intro p hp
    obtain ⟨i, hi, rfl⟩ := mem_cut.mp hp
    exact window_subset (cut_fits h hi)
  · intro x hx
    have hends : s.bytes = Set.Ico (s.addr + 0 * n) (s.addr + k * n) := by
      rw [bytes, h, Nat.zero_mul, Nat.add_zero]
    rw [hends] at hx
    obtain ⟨i, hi, hxi⟩ :=
      Set.mem_iUnion₂.mp (Ico_subset_biUnion_Ico k (fun i => s.addr + i * n) hx)
    have hlt := Finset.mem_range.mp hi
    refine Set.mem_iUnion₂.mpr ⟨s.window (i * n) n, mem_cut.mpr ⟨i, hlt, rfl⟩, ?_⟩
    rwa [bytes_cut h hlt]

end Slice

/-- A loop that may panic does not if none of its rounds does. -/
theorem mapM_eq_some {α β : Type} {f : α → Option β} {g : α → β} {l : List α}
    (h : ∀ a ∈ l, f a = some (g a)) : l.mapM f = some (l.map g) := by
  induction l with
  | nil => rfl
  | cons a l ih =>
      rw [List.mapM_cons, h a List.mem_cons_self, ih fun b hb => h b (List.mem_cons_of_mem a hb)]
      rfl

/-! ## Alignment -/

/-- The distance from `addr` to the next multiple of `align`. -/
def padding (addr align : Nat) : Nat := (align - addr % align) % align

theorem padding_lt (addr : Nat) {align : Nat} (h : 0 < align) : padding addr align < align :=
  Nat.mod_lt _ h

theorem dvd_add_padding (addr : Nat) {align : Nat} (h : 0 < align) :
    align ∣ addr + padding addr align := by
  have hr := Nat.mod_lt addr h
  have hq := Nat.div_add_mod addr align
  have hnext : addr + (align - addr % align) = align * (addr / align + 1) := by
    rw [Nat.mul_succ]
    omega
  apply Nat.dvd_of_mod_eq_zero
  rw [padding, Nat.add_mod_mod, hnext, Nat.mul_mod_right]

/-- The same in words: nothing wraps. -/
theorem toNat_padding (addr : UInt64) {align : UInt64} (h : 0 < align.toNat) :
    ((align - addr % align) % align).toNat = padding addr.toNat align.toNat := by
  have hle : addr % align ≤ align := by
    rw [UInt64.le_iff_toNat_le, UInt64.toNat_mod]
    exact Nat.le_of_lt (Nat.mod_lt _ h)
  rw [UInt64.toNat_mod, UInt64.toNat_sub_of_le _ _ hle, UInt64.toNat_mod, padding]

end Slices
