import Mathlib.Data.List.Basic
import Mathlib.Order.Interval.Finset.Nat

/-! # Little-endian fields of fixed-size byte areas

`toLE k x` is the `k`-byte little-endian representation of `x`, `ofLE` reads bytes
back.  A record without padding is the concatenation of the representations of its
fields (`layout`, over pairs of a width and a value); `readFields_layout` reads the fields
back after the record was copied to the start of a larger area.
-/
namespace LittleEndian

/-- The low `k` bytes of `x`, least significant first. -/
def toLE : Nat → Nat → List UInt8
  | 0, _ => []
  | k + 1, x => UInt8.ofNat x :: toLE k (x / 256)

/-- The number with these bytes, the lowest first. -/
def ofLE : List UInt8 → Nat
  | [] => 0
  | b :: bs => b.toNat + 256 * ofLE bs

@[simp] theorem length_toLE (k x : Nat) : (toLE k x).length = k := by
  induction k generalizing x with
  | zero => rfl
  | succ k ih => rw [toLE, List.length_cons, ih]

theorem ofLE_toLE (k x : Nat) : ofLE (toLE k x) = x % 256 ^ k := by
  induction k generalizing x with
  | zero => rw [Nat.pow_zero, Nat.mod_one]; rfl
  | succ k ih =>
    have hpow : 256 ^ (k + 1) = 256 * 256 ^ k := Nat.pow_succ'
    rw [toLE, ofLE, ih, UInt8.toNat_ofNat', hpow, Nat.mod_mul]

theorem toLE_ofLE (bs : List UInt8) : toLE bs.length (ofLE bs) = bs := by
  induction bs with
  | nil => rfl
  | cons b bs ih =>
    have hlow : UInt8.ofNat (b.toNat + 256 * ofLE bs) = b := by
      apply UInt8.toNat_inj.mp
      rw [UInt8.toNat_ofNat', Nat.add_mul_mod_self_left]
      exact Nat.mod_eq_of_lt b.toNat_lt
    have hhigh : (b.toNat + 256 * ofLE bs) / 256 = ofLE bs := by
      have := b.toNat_lt
      omega
    rw [List.length_cons, ofLE, toLE, hlow, hhigh, ih]

theorem ofLE_lt (bs : List UInt8) : ofLE bs < 256 ^ bs.length := by
  induction bs with
  | nil => exact Nat.one_pos
  | cons b bs ih =>
    have := b.toNat_lt
    rw [ofLE, List.length_cons, Nat.pow_succ']
    omega

theorem toLE_zero (k : Nat) : toLE k 0 = List.replicate k 0 := by
  induction k with
  | zero => rfl
  | succ k ih => rw [toLE, Nat.zero_div, ih, List.replicate_succ]; rfl

/-- A value that fits the low `a` bytes leaves the others zero. -/
theorem toLE_add {a x : Nat} (b : Nat) (h : x < 256 ^ a) :
    toLE (a + b) x = toLE a x ++ toLE b 0 := by
  induction a generalizing x with
  | zero =>
    obtain rfl : x = 0 := by simpa using h
    rw [Nat.zero_add]
    rfl
  | succ a ih =>
    have hdiv : x / 256 < 256 ^ a := by
      rw [Nat.pow_succ] at h
      exact Nat.div_lt_of_lt_mul (by rwa [Nat.mul_comm])
    rw [Nat.succ_add, toLE, toLE, ih hdiv, List.cons_append]

variable {n : Nat}

/-- `copy(dst[:], src)`: the first bytes are replaced, the rest stays. -/
def copyInto (dst : Fin n → UInt8) (src : List UInt8) : Fin n → UInt8 :=
  fun i => if h : i.val < src.length then src[i.val] else dst i

/-- The `k`-byte field at offset `off`. -/
def readLE (area : Fin n → UInt8) (off k : Nat) : Nat :=
  ofLE ((List.range k).map fun i => if h : off + i < n then area ⟨off + i, h⟩ else 0)

theorem readLE_copyInto (dst : Fin n → UInt8) (before field after : List UInt8)
    (hlen : before.length + field.length ≤ n) :
    readLE (copyInto dst (before ++ (field ++ after))) before.length field.length = ofLE field := by
  have hbytes : (List.range field.length).map (fun i => if h : before.length + i < n then
      copyInto dst (before ++ (field ++ after)) ⟨before.length + i, h⟩ else 0) = field := by
    apply List.ext_getElem (by rw [List.length_map, List.length_range])
    intro i h1 h2
    rw [List.getElem_map, List.getElem_range, dif_pos (by omega), copyInto,
      dif_pos (by simp only [List.length_append]; omega), List.getElem_append_right (by simp),
      List.getElem_append_left (by simpa using h2)]
    simp
  rw [readLE, hbytes]

/-- The bytes of a record without padding, from the widths and values of its fields. -/
def layout (fields : List (Nat × Nat)) : List UInt8 := fields.flatMap fun f => toLE f.1 f.2

/-- The fields of the given widths, one after the other from `off` on. -/
def readFields (area : Fin n → UInt8) : Nat → List Nat → List Nat
  | _, [] => []
  | off, k :: ks => readLE area off k :: readFields area (off + k) ks

/-- The same with other bytes in front, by induction on the fields. -/
theorem readFields_append (dst : Fin n → UInt8) (before : List UInt8) (fields : List (Nat × Nat))
    (hlen : before.length + (layout fields).length ≤ n) :
    readFields (copyInto dst (before ++ layout fields)) before.length (fields.map Prod.fst) =
      fields.map fun f => f.2 % 256 ^ f.1 := by
  induction fields generalizing before with
  | nil => rfl
  | cons f fields ih =>
    have hbytes : layout (f :: fields) = toLE f.1 f.2 ++ layout fields := List.flatMap_cons
    rw [hbytes, List.length_append, length_toLE] at hlen
    have hfirst := readLE_copyInto dst before (toLE f.1 f.2) (layout fields)
      (by rw [length_toLE]; omega)
    have hrest := ih (before ++ toLE f.1 f.2)
      (by rw [List.length_append, length_toLE]; omega)
    rw [length_toLE, ofLE_toLE] at hfirst
    rw [List.append_assoc, List.length_append, length_toLE] at hrest
    rw [hbytes, List.map_cons, List.map_cons, readFields, hfirst, hrest]

/-- **The fields are read back from where the record has them**, whatever the area held. -/
theorem readFields_layout (dst : Fin n → UInt8) (fields : List (Nat × Nat))
    (hlen : (layout fields).length ≤ n) :
    readFields (copyInto dst (layout fields)) 0 (fields.map Prod.fst) =
      fields.map fun f => f.2 % 256 ^ f.1 :=
  readFields_append dst [] fields (by rwa [List.length_nil, Nat.zero_add])

/-! ## Bytes without a value -/

/-- Byte `i` of the record belongs to a field whose value is zero, or is behind all fields. -/
def Blank : List (Nat × Nat) → Nat → Prop
  | [], _ => True
  | (width, value) :: fields, i => if i < width then value = 0 else Blank fields (i - width)

theorem blank_nil (i : Nat) : Blank [] i ↔ True := Iff.rfl

/-- As a conjunction, which does not double with every field. -/
theorem blank_cons {width value i : Nat} {fields : List (Nat × Nat)} :
    Blank ((width, value) :: fields) i ↔
      (i < width → value = 0) ∧ (width ≤ i → Blank fields (i - width)) := by
  rw [Blank]
  split_ifs with h
  · exact ⟨fun hv => ⟨fun _ => hv, fun hle => absurd h (Nat.not_lt.mpr hle)⟩, fun hb => hb.1 h⟩
  · exact ⟨fun hb => ⟨fun hlt => absurd hlt h, fun _ => hb⟩, fun hb => hb.2 (Nat.le_of_not_lt h)⟩

theorem getElem?_layout_of_blank (fields : List (Nat × Nat)) {i : Nat} (h : Blank fields i) :
    ((layout fields)[i]?).getD 0 = 0 := by
  induction fields generalizing i with
  | nil => rfl
  | cons f fields ih =>
    obtain ⟨width, value⟩ := f
    rw [layout, List.flatMap_cons]
    unfold Blank at h
    split_ifs at h with hi
    · subst h
      rw [List.getElem?_append_left (by rwa [length_toLE]), toLE_zero,
        List.getElem?_replicate_of_lt hi]
      rfl
    · rw [List.getElem?_append_right (by rw [length_toLE]; omega), length_toLE]
      exact ih h

/-! ## Cutting bytes into fields -/

/-- The fields of the given widths that the bytes are the record of. -/
def chop : List Nat → List UInt8 → List (Nat × Nat)
  | [], _ => []
  | w :: ws, bs => (w, ofLE (bs.take w)) :: chop ws (bs.drop w)

theorem layout_chop (ws : List Nat) (bs : List UInt8) (h : bs.length = ws.foldr (· + ·) 0) :
    layout (chop ws bs) = bs := by
  induction ws generalizing bs with
  | nil => exact (List.length_eq_zero_iff.mp h).symm
  | cons w ws ih =>
    rw [List.foldr_cons] at h
    have htake : (bs.take w).length = w := by rw [List.length_take]; omega
    have hfirst : toLE w (ofLE (bs.take w)) = bs.take w := by
      conv => lhs; arg 1; rw [← htake]
      exact toLE_ofLE _
    rw [chop, layout, List.flatMap_cons]
    show toLE w (ofLE (bs.take w)) ++ layout (chop ws (bs.drop w)) = bs
    rw [hfirst, ih _ (by rw [List.length_drop]; omega), List.take_append_drop]

end LittleEndian
