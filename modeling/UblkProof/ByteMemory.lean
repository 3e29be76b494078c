import Mathlib.Data.List.Basic

/-! # Flat memory

Memory is a function from addresses to cells.  `readBytes` and `writeBytes` access a
range; a write is seen by reads of the same range and by no read of a disjoint one. -/
namespace ByteMemory
variable {α : Type}

/-- The `len` bytes at `addr`. -/
def readBytes (mem : Nat → α) (addr len : Nat) : List α :=
  (List.range len).map fun i => mem (addr + i)

/-- Memory with `bs` stored at `addr`. -/
def writeBytes (mem : Nat → α) (addr : Nat) (bs : List α) : Nat → α := fun a =>
  if h : addr ≤ a ∧ a - addr < bs.length then bs[a - addr] else mem a

@[simp] theorem length_readBytes (mem : Nat → α) (addr len : Nat) :
    (readBytes mem addr len).length = len := by
  rw [readBytes, List.length_map, List.length_range]

theorem getElem_readBytes (mem : Nat → α) (addr len : Nat) {i : Nat}
    (h : i < (readBytes mem addr len).length) : (readBytes mem addr len)[i] = mem (addr + i) := by
  simp only [readBytes, List.getElem_map, List.getElem_range]

/-- Reads of a range depend on its cells only. -/
theorem readBytes_congr {mem mem' : Nat → α} {addr len : Nat}
    (h : ∀ i, i < len → mem' (addr + i) = mem (addr + i)) :
    readBytes mem' addr len = readBytes mem addr len :=
  List.map_congr_left fun i hi => h i (List.mem_range.mp hi)

theorem take_readBytes (mem : Nat → α) (addr : Nat) {len k : Nat} (h : k ≤ len) :
    (readBytes mem addr len).take k = readBytes mem addr k := by
  rw [readBytes, ← List.map_take, List.take_range, Nat.min_eq_left h]
  rfl

/-- **Load after store.** -/
theorem readBytes_writeBytes (mem : Nat → α) (addr : Nat) (bs : List α) {len : Nat}
    (h : len ≤ bs.length) : readBytes (writeBytes mem addr bs) addr len = bs.take len := by
  apply List.ext_getElem
  · rw [length_readBytes, List.length_take, Nat.min_eq_left h]
  · intro i h1 h2
    rw [length_readBytes] at h1
    rw [getElem_readBytes, writeBytes, dif_pos ⟨Nat.le_add_right _ _, by omega⟩, List.getElem_take]
    simp only [Nat.add_sub_cancel_left]

/-- **A store elsewhere is not seen.** -/
theorem readBytes_writeBytes_disjoint (mem : Nat → α) {addr addr' len : Nat} {bs : List α}
    (h : addr + len ≤ addr' ∨ addr' + bs.length ≤ addr) :
    readBytes (writeBytes mem addr' bs) addr len = readBytes mem addr len := by
  refine readBytes_congr fun i hi => ?_
  rw [writeBytes, dif_neg]
  rintro ⟨h1, h2⟩
  omega

/-- **Two stores apart from each other can be swapped.** -/
theorem writeBytes_comm (mem : Nat → α) {addr addr' : Nat} {bs bs' : List α}
    (h : addr + bs.length ≤ addr' ∨ addr' + bs'.length ≤ addr) :
    writeBytes (writeBytes mem addr bs) addr' bs' =
      writeBytes (writeBytes mem addr' bs') addr bs := by
  funext a
  simp only [writeBytes]
  split_ifs with h1 h2
  · omega
  · rfl
  · rfl
  · rfl

end ByteMemory
