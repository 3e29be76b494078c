import UblkProof.DeviceGeometry
import UblkProof.Linearization
import UblkProof.WorkerMachine

/-! # A block device as a byte array

What the data plane is for: a sequential object over an array of bytes whose operations are
whole requests (`blockArray`).  Below it a backend that keeps its data in such an array,
with the plain meaning of `ReadAt`, `WriteAt` and `WriteZeroesAt` (`byteArray`).

`handleIO_blockArray` connects the two for one request: `handleIO` on the backend is one
operation of the object, and what the kernel will find in the buffer is its answer.
-/
namespace Ublk
open Linearization (SeqObject)

/-- An array of `size` bytes. -/
abbrev Bytes (size : Nat) := Fin size → UInt8

namespace Bytes
variable {size : Nat}

/-- `len` bytes from `off` on; bytes behind the end are zero. -/
def read (b : Bytes size) (off len : Nat) : List UInt8 :=
  (List.range len).map fun i => if h : off + i < size then b ⟨off + i, h⟩ else 0

/-- `bs` in place of what stood from `off` on; what does not fit is dropped. -/
def write (b : Bytes size) (off : Nat) (bs : List UInt8) : Bytes size := fun i =>
  if h : off ≤ i.val ∧ i.val - off < bs.length then bs[i.val - off] else b i

@[simp] theorem length_read (b : Bytes size) (off len : Nat) : (b.read off len).length = len := by
  rw [read, List.length_map, List.length_range]

theorem write_nil (b : Bytes size) (off : Nat) : b.write off [] = b := by
  funext i
  rw [write, dif_neg (fun h => absurd h.2 (Nat.not_lt_zero _))]

end Bytes

/-- The backend.  Accesses that do not fit are cut short or refused, with an error. -/
def byteArray (size : Nat) : Backend (Bytes size) where
  readAt b p off :=
    if off < 0 then
      (⟨0, some "negative offset"⟩, p, b)
    else
      let n := min p.length (size - off.toInt.toNat)
      (⟨n, if n < p.length then some "EOF" else none⟩, b.read off.toInt.toNat n ++ p.drop n, b)
  writeAt b p off :=
    if off < 0 ∨ size < off.toInt.toNat + p.length then
      (⟨0, some "write out of range"⟩, b)
    else
      (⟨p.length, none⟩, b.write off.toInt.toNat p)
  discardAt := none
  writeZeroesAt := some fun b off len _ =>
    if off < 0 ∨ len < 0 ∨ size < off.toInt.toNat + len.toInt.toNat then
      (⟨0, some "write out of range"⟩, b)
    else
      (⟨len.toInt, none⟩, b.write off.toInt.toNat (List.replicate len.toInt.toNat 0))

/-- The first byte of a request. -/
def Request.start (req : Request) : Nat := req.desc.startSector.toNat * 512

/-- **The sequential array.** -/
def blockArray {size : Nat} (init : Bytes size) : SeqObject (Bytes size) Request Response where
  init := init
  apply b req :=
    if req.desc.op = opRead then
      (b, ⟨Int32.ofNat req.desc.length, b.read req.start req.desc.length⟩)
    else if req.desc.op = opWrite then
      (b.write req.start req.payload, ⟨Int32.ofNat req.desc.length, []⟩)
    else if req.desc.op = opWriteZeroes then
      (b.write req.start (List.replicate req.desc.length 0), ⟨Int32.ofNat req.desc.length, []⟩)
    else
      (b, ⟨-eopnotsupp, []⟩)

/-- What the block layer may send to a device with the advertised parameters: within the
limits, within the device, and with as many bytes to write as it says. -/
structure Request.Admissible (p : UblkParams) (req : Request) : Prop where
  invited : Invited p req.desc
  within : req.desc.startSector.toNat + req.desc.nrSectors.toNat ≤ p.basic.devSectors.toNat
  payload : req.desc.op = opWrite → req.payload.length = req.desc.length

instance (p : UblkParams) (req : Request) : Decidable (req.Admissible p) :=
  decidable_of_iff (Invited p req.desc ∧
      req.desc.startSector.toNat + req.desc.nrSectors.toNat ≤ p.basic.devSectors.toNat ∧
      (req.desc.op = opWrite → req.payload.length = req.desc.length))
    ⟨fun h => ⟨h.1, h.2.1, h.2.2⟩, fun h => ⟨h.invited, h.within, h.payload⟩⟩

/-- A device over a byte array: the options of `New` and the buffer size the kernel handed
back.  An array of bytes is shorter than `2 ^ 63`, the range of an `int`. -/
structure ArrayDevice where
  cfg : Config
  size : UInt64
  maxIOBufBytes : UInt32
  valid : cfg.Valid size
  size_lt : size.toNat < 2 ^ 63
  buf_le : maxIOBufBytes = 0 ∨ maxIOBufBytes ≤ cfg.maxIOSize

namespace ArrayDevice
variable (dev : ArrayDevice)

/-- The size of each buffer of the worker. -/
def bufSize : Nat := bufSizeOf dev.cfg dev.maxIOBufBytes

/-- The array itself as the backend of the device. -/
def backend : Backend (Bytes dev.size.toNat) := byteArray dev.size.toNat

/-- What `New` advertises. -/
def params : UblkParams :=
  setParams dev.backend.caps dev.size dev.cfg (maxSectorsOf dev.bufSize)

theorem devSectors_params : dev.params.basic.devSectors = dev.size / 512 :=
  setParams_devSectors _ _ _ _

end ArrayDevice

/-! ## Numbers -/

theorem ioResult_full (length : Nat) : ioResult length ⟨length, none⟩ = Int32.ofNat length := by
  rw [ioResult, if_neg (by simp)]
  exact Int32.ofInt_eq_ofNat

/-! ## One request -/

/-- What the kernel will hand out after a commit of `result`, from the first bytes of the
tag's buffer. -/
def IODesc.answer (d : IODesc) (result : Int32) (buf : List UInt8) : Response where
  result := result
  data := if d.op = opRead ∧ result.toInt = d.length then buf.take d.length else []

namespace ArrayDevice
variable {dev : ArrayDevice} {req : Request}

theorem op_cases (h : req.Admissible dev.params) :
    req.desc.op = opRead ∨ req.desc.op = opWrite ∨ req.desc.op = opWriteZeroes := by
  rcases h.invited with ⟨hop | hop, -⟩ | ⟨-, hne, -⟩ | ⟨hop, -⟩
  · exact .inl hop
  · exact .inr (.inl hop)
  · -- the array has no `DiscardAt`, so none is invited
    rw [params, setParams_maxDiscardSectors] at hne
    exact absurd rfl hne
  · exact .inr (.inr hop)

theorem length_le (h : req.Admissible dev.params) : req.desc.length ≤ 2 ^ 30 ∧
    (req.desc.op = opRead ∨ req.desc.op = opWrite → req.desc.length ≤ dev.bufSize) :=
  Invited.length_le dev.valid dev.buf_le h.invited

theorem length_ne_zero (h : req.Admissible dev.params)
    (hop : req.desc.op = opRead ∨ req.desc.op = opWrite) : req.desc.length ≠ 0 := by
  rcases h.invited with ⟨-, hpos, -⟩ | ⟨hop', -⟩ | ⟨hop', -⟩
  · have hpos' : 0 < req.desc.nrSectors.toNat := UInt32.lt_iff_toNat_lt.mp hpos
    unfold IODesc.length
    omega
  · rw [hop'] at hop; exact absurd hop (by decide)
  · rw [hop'] at hop; exact absurd hop (by decide)

/-- An admissible request ends within the array. -/
theorem end_le (h : req.Admissible dev.params) :
    req.start + req.desc.length ≤ dev.size.toNat := by
  have hw := h.within
  have hdiv : (dev.size / 512).toNat = dev.size.toNat / 512 := UInt64.toNat_div _ _
  rw [dev.devSectors_params, hdiv] at hw
  calc req.start + req.desc.length
      = (req.desc.startSector.toNat + req.desc.nrSectors.toNat) * 512 := (Nat.add_mul _ _ _).symm
    _ ≤ dev.size.toNat / 512 * 512 := Nat.mul_le_mul_right 512 hw
    _ ≤ dev.size.toNat := Nat.div_mul_le_self _ _

theorem offset_toInt (h : req.Admissible dev.params) :
    req.desc.offset.toInt = req.start ∧ ¬ req.desc.offset < 0 := by
  have hend := dev.size_lt
  have := end_le h
  have hoff : req.desc.offset.toInt = req.start :=
    IODesc.offset_toInt (show req.start < 2 ^ 63 by omega)
  refine ⟨hoff, ?_⟩
  have hzero : (0 : Int64).toInt = 0 := by decide
  rw [Int64.lt_iff_toInt_lt, hoff, hzero]
  omega

variable {b : Bytes dev.size.toNat} {buf : List UInt8}

theorem handleIO_read_array (h : req.Admissible dev.params) (hop : req.desc.op = opRead)
    (hbuf : buf.length = dev.bufSize) :
    ∃ out, handleIO dev.backend dev.bufSize req.desc buf b = some out ∧ out.backend = b ∧
      out.result = Int32.ofNat req.desc.length ∧
      out.buf = b.read req.start req.desc.length ++ buf.drop req.desc.length := by
  obtain ⟨hoff, hneg⟩ := offset_toInt h
  have hle := (length_le h).2 (.inl hop)
  have hend := end_le h
  have hread : dev.backend.readAt b (buf.take req.desc.length) req.desc.offset =
      (⟨req.desc.length, none⟩, b.read req.start req.desc.length, b) := by
    have hmin : min (buf.take req.desc.length).length (dev.size.toNat - req.start) =
        req.desc.length := by
      rw [List.length_take]; omega
    have hlt : ¬ req.desc.length < (buf.take req.desc.length).length := by
      rw [List.length_take]; omega
    show (byteArray dev.size.toNat).readAt _ _ _ = _
    simp only [byteArray, if_neg hneg, hoff, Int.toNat_natCast, hmin, if_neg hlt]
    rw [List.drop_eq_nil_of_le (by rw [List.length_take]; omega), List.append_nil]
  refine ⟨_, handleIO_read hop (length_ne_zero h (.inl hop)) hle hbuf, ?_⟩
  rw [hread]
  refine ⟨rfl, ioResult_full _, ?_⟩
  have hold : (buf.take req.desc.length).length = req.desc.length := by
    rw [List.length_take]; omega
  have hnew := Bytes.length_read b req.start req.desc.length
  rw [overwrite, hold, hnew, List.take_of_length_le (Nat.le_of_eq hnew),
    List.drop_eq_nil_of_le (Nat.le_of_eq hold), List.append_nil]

theorem handleIO_write_array (h : req.Admissible dev.params) (hop : req.desc.op = opWrite)
    (hbuf : buf.length = dev.bufSize) (hpay : buf.take req.desc.length = req.payload) :
    ∃ out, handleIO dev.backend dev.bufSize req.desc buf b = some out ∧
      out.backend = b.write req.start req.payload ∧
      out.result = Int32.ofNat req.desc.length ∧ out.buf = buf := by
  obtain ⟨hoff, hneg⟩ := offset_toInt h
  have hle := (length_le h).2 (.inr hop)
  have hend := end_le h
  have hlen := h.payload hop
  have hwrite : dev.backend.writeAt b (buf.take req.desc.length) req.desc.offset =
      (⟨req.desc.length, none⟩, b.write req.start req.payload) := by
    rw [hpay]
    show (byteArray dev.size.toNat).writeAt _ _ _ = _
    simp only [byteArray, hoff, Int.toNat_natCast, hlen]
    rw [if_neg (not_or.mpr ⟨hneg, by omega⟩)]
  refine ⟨_, handleIO_write hop (length_ne_zero h (.inr hop)) hle hbuf, ?_⟩
  rw [hwrite]
  exact ⟨rfl, ioResult_full _, rfl⟩

theorem handleIO_zeroes_array (h : req.Admissible dev.params)
    (hop : req.desc.op = opWriteZeroes) :
    ∃ out, handleIO dev.backend dev.bufSize req.desc buf b = some out ∧
      out.backend = b.write req.start (List.replicate req.desc.length 0) ∧
      out.result = Int32.ofNat req.desc.length ∧ out.buf = buf := by
  obtain ⟨hoff, hneg⟩ := offset_toInt h
  have hle := (length_le h).1
  have hend := end_le h
  by_cases h0 : req.desc.length = 0
  · -- nothing to do, and no call
    refine ⟨_, handleIO_zero h0 (.inr ⟨hop, rfl⟩), ?_⟩
    rw [h0, List.replicate_zero, Bytes.write_nil]
    exact ⟨rfl, rfl, rfl⟩
  · have hlen : (Int64.ofNat req.desc.length).toInt = req.desc.length :=
      Int64.toInt_ofNat_of_lt (Nat.lt_of_le_of_lt hle (by decide))
    have hzero : (0 : Int64).toInt = 0 := by decide
    have hpos : ¬ Int64.ofNat req.desc.length < 0 := by
      rw [Int64.lt_iff_toInt_lt, hlen, hzero]
      omega
    refine ⟨_, handleIO_writeZeroes hop h0 rfl, ?_⟩
    simp only [hoff, hlen, Int.toNat_natCast]
    rw [if_neg (not_or.mpr ⟨hneg, not_or.mpr ⟨hpos, by omega⟩⟩)]
    exact ⟨rfl, ioResult_full _, trivial⟩

/-- **`handleIO` is one operation of the array.** -/
theorem handleIO_blockArray (h : req.Admissible dev.params) (hbuf : buf.length = dev.bufSize)
    (hpay : req.desc.op = opWrite → buf.take req.desc.length = req.payload)
    (init : Bytes dev.size.toNat) :
    ∃ out, handleIO dev.backend dev.bufSize req.desc buf b = some out ∧
      out.buf.length = dev.bufSize ∧
      (blockArray init).apply b req = (out.backend, req.desc.answer out.result out.buf) := by
  have hlen : (Int32.ofNat req.desc.length).toInt = req.desc.length :=
    Int32.toInt_ofNat_of_lt (Nat.lt_of_le_of_lt (length_le h).1 (by decide))
  rcases op_cases h with hop | hop | hop
  · obtain ⟨out, hout, hb, hres, hob⟩ := handleIO_read_array (b := b) h hop hbuf
    have hle := (length_le h).2 (.inl hop)
    refine ⟨out, hout, ?_, ?_⟩
    · rw [hob, List.length_append, Bytes.length_read, List.length_drop]
      omega
    · have htake : out.buf.take req.desc.length = b.read req.start req.desc.length := by
        rw [hob, List.take_left' (Bytes.length_read _ _ _)]
      simp only [blockArray, if_pos hop, hb, hres, IODesc.answer, hlen, and_true, htake]
  · obtain ⟨out, hout, hb, hres, hob⟩ := handleIO_write_array (b := b) h hop hbuf (hpay hop)
    have hne : req.desc.op ≠ opRead := by rw [hop]; decide
    refine ⟨out, hout, hob ▸ hbuf, ?_⟩
    simp only [blockArray, if_pos hop, hb, hres, IODesc.answer, hne, false_and,
      if_false]
  · obtain ⟨out, hout, hb, hres, hob⟩ := @handleIO_zeroes_array dev req b buf h hop
    have hne : req.desc.op ≠ opRead := by rw [hop]; decide
    have hne' : req.desc.op ≠ opWrite := by rw [hop]; decide
    refine ⟨out, hout, hob ▸ hbuf, ?_⟩
    simp only [blockArray, if_neg hne', if_pos hop, hb, hres, IODesc.answer, hne, false_and,
      if_false]

end ArrayDevice
end Ublk
