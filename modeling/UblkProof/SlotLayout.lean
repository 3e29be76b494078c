import UblkProof.ControlCommand
import UblkProof.DeviceGeometry
import UblkProof.WorkerMachine

/-! # The bytes of a submission slot

The entry area is one mapping; slot `idx` is its bytes from `idx * stride` on, with a stride of
64 or 128.  The kernel reads a slot by its own offsets, and the descriptor table by its own
record size.  This module follows the stores of `prepareFetch`, `prepareCommitAndFetch` and
`ctrlCommand` to the bytes of the area.

The Go structs have the kernel's fields, each at a multiple of its size (`natural`), so the
compiler inserts no padding and the memory of a struct is the concatenation of its fields.  As
there is no padding, every content of the area is that of some entries (`Ring.exists_area`):
quantifying over the entries a ring holds is quantifying over all contents of the area.
-/
namespace Ublk
open LittleEndian ByteMemory

/-! ## Layouts -/

/-- From offset `off` on, fields of these widths stand at multiples of their size, and the record
ends at a multiple of eight: a 64-bit compiler adds no padding. -/
def natural : Nat → List Nat → Bool
  | off, [] => off % 8 == 0
  | off, w :: ws => off % w == 0 && natural (off + w) ws

/-- The fields of an entry in front of its command area. -/
def SQE.fields {n : Nat} (sqe : SQE n) : List (Nat × Nat) :=
  [(1, sqe.opcode.toNat), (1, sqe.flags.toNat), (2, sqe.ioprio.toNat),
    (4, sqe.fd.toUInt32.toNat), (8, sqe.off.toNat), (8, sqe.addr.toNat), (4, sqe.len.toNat),
    (4, sqe.opFlags.toNat), (8, sqe.userData.toNat), (2, sqe.bufIndex.toNat),
    (2, sqe.personality.toNat), (4, sqe.spliceFdIn.toUInt32.toNat)]

/-- The fields of an `ioDesc`, 24 bytes. -/
def IODesc.fields (d : IODesc) : List (Nat × Nat) :=
  [(4, d.opFlags.toNat), (4, d.nrSectors.toNat), (8, d.startSector.toNat), (8, d.addr.toNat)]

/-- The bytes of a descriptor. -/
def IODesc.bytes (d : IODesc) : List UInt8 := layout d.fields

/-- `*(*ioDesc)(p)`. -/
def IODesc.decode {n : Nat} (area : Fin n → UInt8) : IODesc where
  opFlags := UInt32.ofNat (readLE area 0 4)
  nrSectors := UInt32.ofNat (readLE area 4 4)
  startSector := UInt64.ofNat (readLE area 8 8)
  addr := UInt64.ofNat (readLE area 16 8)

/-- The four struct mirrors have no padding. -/
theorem natural_layouts {n : Nat} (sqe : SQE n) (io : IOCmd) (ctrl : CtrlCmd) (d : IODesc) :
    natural 0 (sqe.fields.map Prod.fst) = true ∧ natural 0 (io.fields.map Prod.fst) = true ∧
      natural 0 (ctrl.fields.map Prod.fst) = true ∧ natural 0 (d.fields.map Prod.fst) = true := by
  refine ⟨?_, ?_, ?_, ?_⟩
  · show natural 0 [1, 1, 2, 4, 8, 8, 4, 4, 8, 2, 2, 4] = true
    decide
  · show natural 0 [2, 2, 4, 8] = true
    decide
  · show natural 0 [4, 2, 2, 8, 8, 2, 2, 4] = true
    decide
  · show natural 0 [4, 4, 8, 8] = true
    decide

variable {n : Nat}

theorem SQE.length_layout (sqe : SQE n) : (layout sqe.fields).length = 48 := rfl

/-- The memory of an entry. -/
def SQE.image (sqe : SQE n) : Fin (sqeSize n) → UInt8 :=
  copyInto (fun i => if h : 48 ≤ i.val then
    sqe.cmd ⟨i.val - 48, by have := i.isLt; unfold sqeSize at this; omega⟩ else 0)
    (layout sqe.fields)

theorem SQE.image_cmd (sqe : SQE n) (i : Fin n) :
    sqe.image ⟨48 + i.val, Nat.add_lt_add_left i.isLt 48⟩ = sqe.cmd i := by
  have hbeyond : ¬48 + i.val < (layout sqe.fields).length := by
    rw [sqe.length_layout]
    exact Nat.not_lt.mpr (Nat.le_add_right _ _)
  rw [SQE.image, copyInto, dif_neg hbeyond, dif_pos (Nat.le_add_right _ _)]
  exact congrArg sqe.cmd (Fin.ext (Nat.add_sub_cancel_left _ _))

/-- The bytes behind the fields are those of `cmd`. -/
theorem SQE.image_of_ge (sqe : SQE n) {i : Fin (sqeSize n)} (h : 48 ≤ i.val) :
    ∃ hlt : i.val - 48 < n, sqe.image i = sqe.cmd ⟨i.val - 48, hlt⟩ := by
  have hlt : i.val - 48 < n := by
    have := i.isLt
    unfold sqeSize at this
    omega
  have he : i = ⟨48 + (i.val - 48), Nat.add_lt_add_left hlt 48⟩ :=
    Fin.ext (Nat.add_sub_cancel' h).symm
  refine ⟨hlt, ?_⟩
  conv => lhs; rw [he]
  exact sqe.image_cmd ⟨i.val - 48, hlt⟩

theorem SQE.image_of_lt (sqe : SQE n) {i : Fin (sqeSize n)} (h : i.val < 48) :
    sqe.image i = ((layout sqe.fields)[i.val]?).getD 0 := by
  rw [SQE.image, copyInto, dif_pos (by rwa [sqe.length_layout]),
    List.getElem?_eq_getElem (by rwa [sqe.length_layout]), Option.getD_some]

/-- Bytes cut at the offsets of an entry's fields. -/
theorem SQE.exists_fields (bs : List UInt8) (hlen : bs.length = 48) (cmd : Fin n → UInt8) :
    ∃ sqe : SQE n, layout sqe.fields = bs ∧ sqe.cmd = cmd := by
  obtain ⟨field, hfield⟩ : ∃ field : Nat → Nat → Nat,
      ∀ off w, field off w = ofLE ((bs.drop off).take w) := ⟨_, fun _ _ => rfl⟩
  have hlt : ∀ off w, field off w < 256 ^ w := by
    intro off w
    rw [hfield]
    exact Nat.lt_of_lt_of_le (ofLE_lt _)
      (Nat.pow_le_pow_right (by decide) (List.length_take_le _ _))
  have h8 : ∀ off, (UInt8.ofNat (field off 1)).toNat = field off 1 := fun off =>
    UInt8.toNat_ofNat_of_lt' (hlt off 1)
  have h16 : ∀ off, (UInt16.ofNat (field off 2)).toNat = field off 2 := fun off =>
    UInt16.toNat_ofNat_of_lt' (hlt off 2)
  have h32 : ∀ off, (UInt32.ofNat (field off 4)).toNat = field off 4 := fun off =>
    UInt32.toNat_ofNat_of_lt' (hlt off 4)
  have h64 : ∀ off, (UInt64.ofNat (field off 8)).toNat = field off 8 := fun off =>
    UInt64.toNat_ofNat_of_lt' (hlt off 8)
  refine ⟨⟨UInt8.ofNat (field 0 1), UInt8.ofNat (field 1 1), UInt16.ofNat (field 2 2),
    (UInt32.ofNat (field 4 4)).toInt32, UInt64.ofNat (field 8 8), UInt64.ofNat (field 16 8),
    UInt32.ofNat (field 24 4), UInt32.ofNat (field 28 4), UInt64.ofNat (field 32 8),
    UInt16.ofNat (field 40 2), UInt16.ofNat (field 42 2), (UInt32.ofNat (field 44 4)).toInt32,
    cmd⟩, ?_, rfl⟩
  have hchop : layout (chop [1, 1, 2, 4, 8, 8, 4, 4, 8, 2, 2, 4] bs) = bs := layout_chop _ bs hlen
  simp only [chop, List.drop_drop, ← hfield] at hchop
  simp only [SQE.fields, h8, h16, h32, h64, UInt32.toUInt32_toInt32]
  rw [show ofLE (bs.take 1) = field 0 1 from (hfield 0 1).symm] at hchop
  exact hchop

/-- **Every content of a slot is that of an entry.** -/
theorem SQE.exists_image (slot : Fin (sqeSize n) → UInt8) : ∃ sqe : SQE n, sqe.image = slot := by
  have h48 : ∀ {i : Nat}, i < 48 → i < sqeSize n :=
    fun h => Nat.lt_of_lt_of_le h (Nat.le_add_right 48 n)
  obtain ⟨sqe, hfields, hcmd⟩ := SQE.exists_fields
    (List.ofFn fun i : Fin 48 => slot ⟨i.val, h48 i.isLt⟩) (List.length_ofFn)
    fun i : Fin n => slot ⟨48 + i.val, Nat.add_lt_add_left i.isLt 48⟩
  refine ⟨sqe, funext fun i => ?_⟩
  by_cases hi : i.val < 48
  · rw [sqe.image_of_lt hi, hfields, List.getElem?_ofFn, dif_pos hi]
    rfl
  · obtain ⟨hlt, himage⟩ := sqe.image_of_ge (Nat.le_of_not_lt hi)
    rw [himage, hcmd]
    exact congrArg slot (Fin.ext (Nat.add_sub_cancel' (Nat.le_of_not_lt hi)))

/-! ## The area -/

/-- The bytes of a ring's entry area. -/
def Ring.area (r : Ring n) (a : Nat) : UInt8 :=
  (r.sqes (a / sqeSize n)).image
    ⟨a % sqeSize n, Nat.mod_lt _ (Nat.lt_of_lt_of_le (by decide) (Nat.le_add_right 48 n))⟩

theorem Ring.area_slot (r : Ring n) (idx : Nat) (i : Fin (sqeSize n)) :
    r.area (idx * sqeSize n + i.val) = (r.sqes idx).image i := by
  have hpos : 0 < sqeSize n := Nat.lt_of_lt_of_le (by decide) (Nat.le_add_right 48 n)
  have hdiv : (idx * sqeSize n + i.val) / sqeSize n = idx := by
    rw [Nat.mul_comm, Nat.mul_add_div hpos, Nat.div_eq_of_lt i.isLt, Nat.add_zero]
  have hmod : (idx * sqeSize n + i.val) % sqeSize n = i.val := by
    rw [Nat.mul_comm, Nat.mul_add_mod, Nat.mod_eq_of_lt i.isLt]
  rw [Ring.area]
  simp only [hdiv, hmod]

/-- **Every content of the area is that of some entries.** -/
theorem Ring.exists_area (area : Nat → UInt8) :
    ∃ sqes : Nat → SQE n, ∀ r : Ring n, r.sqes = sqes → r.area = area := by
  have hslot := fun idx =>
    SQE.exists_image fun i : Fin (sqeSize n) => area (idx * sqeSize n + i.val)
  refine ⟨fun idx => (hslot idx).choose, ?_⟩
  intro r hr
  funext a
  rw [Ring.area, hr, (hslot (a / sqeSize n)).choose_spec]
  exact congrArg area (Nat.div_add_mod' a (sqeSize n))

/-- What the kernel reads of a command's slot in front of the payload. -/
structure SlotView where
  opcode : UInt8
  fd : Int32
  cmdOp : UInt32
  cmdOpPad : UInt32
  userData : UInt64
  deriving DecidableEq

/-- The fields at the offsets of `struct io_uring_sqe`. -/
def SlotView.decode {m : Nat} (slot : Fin m → UInt8) : SlotView where
  opcode := UInt8.ofNat (readLE slot 0 1)
  fd := (UInt32.ofNat (readLE slot 4 4)).toInt32
  cmdOp := UInt32.ofNat (readLE slot 8 4)
  cmdOpPad := UInt32.ofNat (readLE slot 12 4)
  userData := UInt64.ofNat (readLE slot 32 8)

/-- The bytes of slot `idx` of an area, and those of its payload. -/
def slotAt (area : Nat → UInt8) (stride idx : Nat) : Fin stride → UInt8 :=
  fun i => area (idx * stride + i.val)

/-- The command area of entry `idx`. -/
def payloadAt (area : Nat → UInt8) (stride idx n : Nat) : Fin n → UInt8 :=
  fun i => area (idx * stride + 48 + i.val)

/-- A byte of a slot that belongs to none of the fields of a command with `len` bytes of
payload. -/
def Unused (len i : Nat) : Prop :=
  i ≠ 0 ∧ (i < 4 ∨ 12 ≤ i) ∧ (i < 32 ∨ 40 ≤ i) ∧ (i < 48 ∨ 48 + len ≤ i)

/-- Slot `idx` of the area `after` holds a command, and nothing else changed since `before`. -/
structure SlotHolds (before after : Nat → UInt8) (stride idx len : Nat) (view : SlotView) :
    Prop where
  view : SlotView.decode (slotAt after stride idx) = view
  unused : ∀ i, i < stride → Unused len i → after (idx * stride + i) = 0
  others : ∀ a, a / stride ≠ idx → after a = before a

/-! ## An entry that holds a command -/

/-- The entry with these fields, and zero in all others. -/
def SQE.command (fd : Int32) (cmdOp : UInt32) (userData : UInt64) (payload : List UInt8) : SQE n :=
  { SQE.zero n with
    opcode := opUringCmd
    fd := fd
    off := cmdOp.toUInt64
    userData := userData
    cmd := copyInto (SQE.zero n).cmd payload }

/-- The kernel's fields of such an entry: the upper half of `Off` is a field of its own, and the
fields that are not set are run together. -/
def commandFields (fd : Int32) (cmdOp : UInt32) (userData : UInt64) : List (Nat × Nat) :=
  [(1, opUringCmd.toNat), (3, 0), (4, fd.toUInt32.toNat), (4, cmdOp.toNat), (4, 0), (16, 0),
    (8, userData.toNat), (8, 0)]

section
variable (fd : Int32) (cmdOp : UInt32) (userData : UInt64) (payload : List UInt8)

theorem layout_command : layout (SQE.command (n := n) fd cmdOp userData payload).fields =
    layout (commandFields fd cmdOp userData) := by
  -- `Off` is eight bytes to the library and `cmd_op` with its padding to the kernel
  have hoff : toLE 8 cmdOp.toUInt64.toNat = toLE 4 cmdOp.toNat ++ toLE 4 0 := by
    rw [UInt32.toNat_toUInt64]
    exact toLE_add 4 cmdOp.toNat_lt
  simp only [layout, SQE.fields, SQE.command, commandFields, List.flatMap_cons, List.flatMap_nil,
    hoff, List.append_assoc]
  rfl

/-- The kernel reads the fields back. -/
theorem decode_command :
    SlotView.decode (SQE.command (n := n) fd cmdOp userData payload).image =
      ⟨opUringCmd, fd, cmdOp, 0, userData⟩ := by
  have hfields : readFields (SQE.command (n := n) fd cmdOp userData payload).image 0
      [1, 3, 4, 4, 4, 16, 8, 8] =
      (commandFields fd cmdOp userData).map fun f => f.2 % 256 ^ f.1 := by
    rw [SQE.image, layout_command]
    exact readFields_layout _ (commandFields fd cmdOp userData) (Nat.le_add_right 48 n)
  simp only [readFields, commandFields, List.map_cons, List.map_nil, List.cons.injEq] at hfields
  obtain ⟨h0, -, h2, h3, h4, -, h6, -⟩ := hfields
  rw [SlotView.decode, h0, h2, h3, h4, h6, ofNat_mod32, ofNat_mod32, ofNat_mod64,
    Int32.toInt32_toUInt32]
  rfl

theorem image_command_unused {i : Fin (sqeSize n)} (h : Unused payload.length i.val) :
    (SQE.command fd cmdOp userData payload).image i = 0 := by
  obtain ⟨h1, h2, h3, h4⟩ := h
  by_cases hi : i.val < 48
  · -- in the fixed fields: the byte is in one whose value is zero
    rw [SQE.image_of_lt _ hi, layout_command]
    refine getElem?_layout_of_blank _ ?_
    simp only [commandFields, blank_cons, blank_nil, implies_true, true_and, and_true]
    omega
  · -- in the command area: past the payload, which was copied over zeroes
    obtain ⟨hlt, himage⟩ :=
      (SQE.command fd cmdOp userData payload).image_of_ge (Nat.le_of_not_lt hi)
    rw [himage]
    exact dif_neg (show ¬ i.val - 48 < payload.length by omega)

end

/-! ## The three fills -/

/-- A ring in which slot `idx` was given a command. -/
theorem SlotHolds.of_update {r r' : Ring n} {idx : Nat} {fd : Int32} {cmdOp : UInt32}
    {userData : UInt64} {payload : List UInt8}
    (h : r'.sqes = Function.update r.sqes idx (SQE.command fd cmdOp userData payload)) :
    SlotHolds r.area r'.area (sqeSize n) idx payload.length ⟨opUringCmd, fd, cmdOp, 0, userData⟩ ∧
      payloadAt r'.area (sqeSize n) idx n = copyInto (SQE.zero n).cmd payload := by
  have hslot : r'.sqes idx = SQE.command fd cmdOp userData payload := by
    rw [h, Function.update_self]
  refine ⟨⟨?_, ?_, ?_⟩, ?_⟩
  · have himage : slotAt r'.area (sqeSize n) idx =
        (SQE.command fd cmdOp userData payload).image := by
      funext i
      rw [slotAt, r'.area_slot, hslot]
    rw [himage, decode_command]
  · intro i hi hu
    rw [r'.area_slot idx ⟨i, hi⟩, hslot]
    exact image_command_unused fd cmdOp userData payload hu
  · intro a ha
    rw [Ring.area, Ring.area, h, Function.update_of_ne ha]
  · funext i
    rw [payloadAt, Nat.add_assoc,
      r'.area_slot idx ⟨48 + i.val, Nat.add_lt_add_left i.isLt 48⟩, hslot, SQE.image_cmd]
    rfl

/-- `GetSQE` zeroes the slot it returns, and the stores through the pointer reach no other. -/
theorem sqes_getSQE {r : Ring n} {idx : Nat} (h : r.getSQE.1 = some idx) :
    r.getSQE.2.sqes = Function.update r.sqes idx (SQE.zero n) := by
  have hnext : r.nextSQE.2.sqes = r.sqes := by
    simp only [Ring.nextSQE]
    split_ifs <;> rfl
  unfold Ring.getSQE at h ⊢
  split at h
  · cases h
  · rename_i idx' r' he
    cases h
    rw [he] at hnext
    show Function.update r'.sqes idx (SQE.zero n) = _
    rw [show r'.sqes = r.sqes from hnext]

theorem sqes_command {r : Ring n} {idx : Nat} (h : r.getSQE.1 = some idx) (sqe : SQE n) :
    r.getSQE.2.sqes idx = SQE.zero n ∧
      (r.getSQE.2.writeSQE idx sqe).sqes = Function.update r.sqes idx sqe := by
  refine ⟨by rw [sqes_getSQE h, Function.update_self], ?_⟩
  show Function.update r.getSQE.2.sqes idx sqe = _
  rw [sqes_getSQE h, Function.update_idem]

/-- `prepareFetch` and `prepareCommitAndFetch`. -/
theorem Worker.prepare_encodes (w : Worker) (op : UInt32) (tag : UInt16) (result : Int32)
    {r : Ring 16} {idx : Nat} (h : r.getSQE.1 = some idx) :
    SlotHolds r.area (w.prepare op tag result r).2.area 64 idx 16
        ⟨opUringCmd, w.charFD, op, 0, tag.toUInt64⟩ ∧
      IOCmd.decode (payloadAt (w.prepare op tag result r).2.area 64 idx 16) =
        w.ioCmd tag result := by
  have hring : (w.prepare op tag result r).2.sqes = Function.update r.sqes idx
      (SQE.command w.charFD op tag.toUInt64 (w.ioCmd tag result).bytes) := by
    obtain ⟨hzero, hsqes⟩ := sqes_command h
      (SQE.command w.charFD op tag.toUInt64 (w.ioCmd tag result).bytes)
    rw [← hsqes]
    unfold Worker.prepare
    split
    · rename_i he
      rw [he] at h
      cases h
    · rename_i idx' r' he
      rw [he] at h hzero
      cases h
      rw [he, show r'.sqes idx = _ from hzero]
      rfl
  obtain ⟨hslot, hpayload⟩ := SlotHolds.of_update hring
  refine ⟨hslot, ?_⟩
  rw [show payloadAt (w.prepare op tag result r).2.area 64 idx 16 = _ from hpayload]
  exact IOCmd.decode_copyInto (Nat.le_refl 16) _ _

/-- `ctrlCommand`'s stores. -/
theorem CtrlWorld.begin_encodes (ctrlFD : Int32) (s : CtrlWorld) (c : CtrlCall) {idx : Nat}
    (h : s.ring.getSQE.1 = some idx) :
    SlotHolds s.ring.area (s.begin ctrlFD c).ring.area 128 idx 32
        ⟨opUringCmd, ctrlFD, c.cmdOp, 0, 0⟩ ∧
      CtrlCmd.decode (payloadAt (s.begin ctrlFD c).ring.area 128 idx 80) = c.cmd := by
  have hring : (s.begin ctrlFD c).ring.sqes = Function.update s.ring.sqes idx
      (SQE.command ctrlFD c.cmdOp 0 c.cmd.bytes) := by
    obtain ⟨hzero, hsqes⟩ := sqes_command h (SQE.command ctrlFD c.cmdOp 0 c.cmd.bytes)
    rw [← hsqes]
    unfold CtrlWorld.begin
    simp only
    split
    · rename_i he
      rw [he] at h
      cases h
    · rename_i idx' r' he
      rw [he] at h hzero
      cases h
      rw [he, show r'.sqes idx = _ from hzero]
      rfl
  obtain ⟨hslot, hpayload⟩ := SlotHolds.of_update hring
  refine ⟨hslot, ?_⟩
  rw [show payloadAt (s.begin ctrlFD c).ring.area 128 idx 80 = _ from hpayload]
  exact CtrlCmd.decode_copyInto (by decide) _ _

/-! ## Descriptors -/

/-- `getDesc`: the struct at the tag's offset in the mapped table of `depth` records.  `none` is an
index out of range. -/
def Worker.getDesc (w : Worker) (ioDescs : Nat → UInt8) (tag : UInt16) : Option IODesc :=
  let off := tag.toNat * sizeofIODesc
  if off < w.depth.toNat * sizeofIODesc then
    some (IODesc.decode fun i : Fin 24 => ioDescs (off + i.val))
  else none

theorem IODesc.decode_copyInto (dst : Fin n → UInt8) (hn : 24 ≤ n) (d : IODesc) :
    IODesc.decode (copyInto dst d.bytes) = d := by
  have hfields : readFields (copyInto dst d.bytes) 0 [4, 4, 8, 8] = _ :=
    readFields_layout dst d.fields hn
  simp only [readFields, IODesc.fields, List.map_cons, List.map_nil, List.cons.injEq] at hfields
  obtain ⟨h0, h1, h2, h3, -⟩ := hfields
  rw [IODesc.decode, h0, h1, h2, h3]
  simp only [ofNat_mod32, ofNat_mod64]

/-- **`getDesc` returns the record the kernel wrote.** -/
theorem Worker.getDesc_eq (w : Worker) {ioDescs : Nat → UInt8} {descs : Nat → IODesc}
    (h : ∀ t, t < w.depth.toNat → readBytes ioDescs (24 * t) 24 = (descs t).bytes) {tag : UInt16}
    (htag : tag < w.depth) : w.getDesc ioDescs tag = some (descs tag.toNat) := by
  have hlt := UInt16.lt_iff_toNat_lt.mp htag
  have hbytes := h tag.toNat hlt
  have hslot : (fun i : Fin 24 => ioDescs (tag.toNat * sizeofIODesc + i.val)) =
      copyInto (fun _ => 0) (descs tag.toNat).bytes := by
    funext i
    have hi : i.val < (descs tag.toNat).bytes.length := i.isLt
    rw [copyInto, dif_pos hi]
    have hget : (readBytes ioDescs (24 * tag.toNat) 24)[i.val]? =
        (descs tag.toNat).bytes[i.val]? := by rw [hbytes]
    rw [List.getElem?_eq_getElem (by rw [length_readBytes]; exact i.isLt),
      List.getElem?_eq_getElem hi, getElem_readBytes] at hget
    rw [← Option.some.inj hget, Nat.mul_comm]
    rfl
  unfold Worker.getDesc
  rw [if_pos (Nat.mul_lt_mul_of_pos_right hlt (by decide)), hslot,
    IODesc.decode_copyInto _ (Nat.le_refl 24)]

/-- **Commands and descriptors pass between the library and the kernel unchanged**, whatever the
slot and the rest of the area held.

* After `prepareFetch`, `prepareCommitAndFetch` and the stores of `ctrlCommand`, the kernel reads
  back the values from the slot `GetSQE` returned; all other bytes of the slot are zero, and all
  other slots are as they were.
* The low half of the stored `UserData` is the tag, and zero for a control command.
* `getDesc` returns the record the kernel wrote at 24 bytes for each tag. -/
theorem command_encoding_round_trips (w : Worker) (tag : UInt16) (htag : tag < w.depth)
    (result : Int32) (r : Ring 16) (idx : Nat) (hidx : r.getSQE.1 = some idx) (ctrlFD : Int32)
    (s : CtrlWorld) (c : CtrlCall) (cidx : Nat) (hcidx : s.ring.getSQE.1 = some cidx)
    (ioDescs : Nat → UInt8) (descs : Nat → IODesc)
    (hdescs : ∀ t, t < w.depth.toNat → readBytes ioDescs (24 * t) 24 = (descs t).bytes) :
    (SlotHolds r.area (w.prepareFetch tag r).2.area 64 idx 16
        ⟨46, w.charFD, 0xC0107520, 0, tag.toUInt64⟩ ∧
      IOCmd.decode (payloadAt (w.prepareFetch tag r).2.area 64 idx 16) =
        ⟨w.qid, tag, 0, UInt64.ofNat (w.bufAddr tag.toNat)⟩) ∧
    (SlotHolds r.area (w.prepareCommitAndFetch tag result r).2.area 64 idx 16
        ⟨46, w.charFD, 0xC0107521, 0, tag.toUInt64⟩ ∧
      IOCmd.decode (payloadAt (w.prepareCommitAndFetch tag result r).2.area 64 idx 16) =
        ⟨w.qid, tag, result, UInt64.ofNat (w.bufAddr tag.toNat)⟩) ∧
    (SlotHolds s.ring.area (s.begin ctrlFD c).ring.area 128 cidx 32 ⟨46, ctrlFD, c.cmdOp, 0, 0⟩ ∧
      CtrlCmd.decode (payloadAt (s.begin ctrlFD c).ring.area 128 cidx 80) = c.cmd) ∧
    (tag.toUInt64.toUInt16 = tag ∧ (0 : UInt64).toUInt16 = 0) ∧
    w.getDesc ioDescs tag = some (descs tag.toNat) :=
  ⟨w.prepare_encodes uIOFetchReq tag 0 hidx, w.prepare_encodes uIOCommitAndFetchReq tag result hidx,
    CtrlWorld.begin_encodes ctrlFD s c hcidx, ⟨UInt16.toUInt16_toUInt64 tag, rfl⟩,
    w.getDesc_eq hdescs htag⟩

/-- A slot of a used ring: every field is set and the payload is not zero. -/
def dirtySQE (n : Nat) : SQE n :=
  ⟨46, 255, 65535, -1, 0xFFFFFFFFFFFFFFFF, 1, 2, 3, 0xABCDEF, 4, 5, -6, fun i => UInt8.ofNat i.val⟩

/-- A ring all of whose slots are dirty. -/
def dirtyRing (n : Nat) : Ring n :=
  Ring.setup ⟨4, 8, 64, 64⟩ 2 0 (fun _ => 0) (fun _ => dirtySQE n) fun _ => ⟨0, 0, 0⟩

/-- Slot 2 of two dirty rings, and the last of three equal descriptors. -/
theorem command_encoding_dirty :
    ∃ w : Worker, w.depth = 3 ∧
      SlotHolds (dirtyRing 16).area (w.prepareFetch 2 (dirtyRing 16)).2.area 64 2 16
        ⟨46, 7, 0xC0107520, 0, 2⟩ ∧
      w.getDesc (fun a => (IODesc.bytes ⟨1, 8, 1024, 0⟩).getD (a % 24) 0) 2 =
        some ⟨1, 8, 1024, 0⟩ := by
  obtain ⟨hfetch, -, -, -, hdesc⟩ := command_encoding_round_trips
    ⟨0, 3, 512, 7, 4096, by decide, by decide, by decide, by decide⟩ 2 (by decide) 512
    (dirtyRing 16) 2 (by decide +kernel) 9 ⟨dirtyRing 80, .idle, [], fun _ => 0, [], []⟩
    ⟨uCmdStopDev, ⟨1, 0xFFFF, 0, 0, 0, 0, 0, 0⟩⟩ 2 (by decide +kernel)
    (fun a => (IODesc.bytes ⟨1, 8, 1024, 0⟩).getD (a % 24) 0) (fun _ => ⟨1, 8, 1024, 0⟩)
    (by decide +kernel)
  exact ⟨_, rfl, hfetch.1, hdesc⟩

end Ublk
