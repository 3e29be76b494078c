import UblkProof.LittleEndian
import UblkProof.Ring

/-! # ublk commands and their encoding

The types and constants of `ublk/types.go`, and the byte layout a command has in the
command area of its submission entry.  The Go code copies the struct's memory; on a
64-bit little-endian machine the structs have no padding, so that memory is the
concatenation of the fields.
-/
namespace Ublk
open LittleEndian

/-! ## Constants -/

/-- The request codes, in the low byte of `IODesc.opFlags`. -/
def opRead : UInt32 := 0
def opWrite : UInt32 := 1
def opDiscard : UInt32 := 3
def opWriteZeroes : UInt32 := 5

/-- `UBLK_IO_F_NOUNMAP` in `IODesc.opFlags`. -/
def ioFlagNoUnmap : UInt32 := 0x8000

/-- `UBLK_MAX_QUEUE_DEPTH`. -/
def maxQueueDepth : Nat := 4096

/-- Which parts of `ublkParams` are set. -/
def paramTypeBasic : UInt32 := 1
def paramTypeDiscard : UInt32 := 2

/-- Control commands, in the legacy encoding. -/
def cmdAddDev : UInt32 := 0x04
def cmdDelDev : UInt32 := 0x05
def cmdStartDev : UInt32 := 0x06
def cmdStopDev : UInt32 := 0x07
def cmdSetParams : UInt32 := 0x08

/-- Control commands, in the ioctl encoding. -/
def uCmdAddDev : UInt32 := 0xC0207504
def uCmdDelDev : UInt32 := 0xC0207505
def uCmdStartDev : UInt32 := 0xC0207506
def uCmdStopDev : UInt32 := 0xC0207507
def uCmdSetParams : UInt32 := 0xC0207508

/-- Commands of the worker. -/
def uIOFetchReq : UInt32 := 0xC0107520
def uIOCommitAndFetchReq : UInt32 := 0xC0107521

/-- `unix.EIO` and `unix.EOPNOTSUPP`. -/
def eio : Int32 := 5
def eopnotsupp : Int32 := 95

/-! ## Structures -/

/-- `ctrlCmd`. -/
structure CtrlCmd where
  devID : UInt32
  queueID : UInt16
  len : UInt16
  addr : UInt64
  data : UInt64
  devPathLen : UInt16
  pad : UInt16
  reserved : UInt32
  deriving DecidableEq

/-- `ioCmd`. -/
structure IOCmd where
  qid : UInt16
  tag : UInt16
  result : Int32
  addr : UInt64
  deriving DecidableEq

/-- `ioDesc`, one request of the block layer. -/
structure IODesc where
  opFlags : UInt32
  nrSectors : UInt32
  startSector : UInt64
  addr : UInt64
  deriving DecidableEq

/-! ## Encoding -/

/-- The fields of an `ioCmd`, 16 bytes. -/
def IOCmd.fields (c : IOCmd) : List (Nat × Nat) :=
  [(2, c.qid.toNat), (2, c.tag.toNat), (4, c.result.toUInt32.toNat), (8, c.addr.toNat)]

/-- The memory of an `ioCmd`. -/
def IOCmd.bytes (c : IOCmd) : List UInt8 := layout c.fields

/-- The fields of a `ctrlCmd`, 32 bytes. -/
def CtrlCmd.fields (c : CtrlCmd) : List (Nat × Nat) :=
  [(4, c.devID.toNat), (2, c.queueID.toNat), (2, c.len.toNat), (8, c.addr.toNat),
    (8, c.data.toNat), (2, c.devPathLen.toNat), (2, c.pad.toNat), (4, c.reserved.toNat)]

/-- The memory of a `ctrlCmd`. -/
def CtrlCmd.bytes (c : CtrlCmd) : List UInt8 := layout c.fields

/-- The kernel's view of a command area as `struct ublksrv_io_cmd`. -/
def IOCmd.decode {n : Nat} (area : Fin n → UInt8) : IOCmd where
  qid := UInt16.ofNat (readLE area 0 2)
  tag := UInt16.ofNat (readLE area 2 2)
  result := (UInt32.ofNat (readLE area 4 4)).toInt32
  addr := UInt64.ofNat (readLE area 8 8)

/-- The kernel's view of a command area as `struct ublksrv_ctrl_cmd`. -/
def CtrlCmd.decode {n : Nat} (area : Fin n → UInt8) : CtrlCmd where
  devID := UInt32.ofNat (readLE area 0 4)
  queueID := UInt16.ofNat (readLE area 4 2)
  len := UInt16.ofNat (readLE area 6 2)
  addr := UInt64.ofNat (readLE area 8 8)
  data := UInt64.ofNat (readLE area 16 8)
  devPathLen := UInt16.ofNat (readLE area 24 2)
  pad := UInt16.ofNat (readLE area 26 2)
  reserved := UInt32.ofNat (readLE area 28 4)

/-! Truncation to a field's width loses nothing: the values have that width. -/

theorem ofNat_mod16 (x : UInt16) : UInt16.ofNat (x.toNat % 256 ^ 2) = x := by
  rw [Nat.mod_eq_of_lt (show x.toNat < 256 ^ 2 from x.toNat_lt), UInt16.ofNat_toNat]

theorem ofNat_mod32 (x : UInt32) : UInt32.ofNat (x.toNat % 256 ^ 4) = x := by
  rw [Nat.mod_eq_of_lt (show x.toNat < 256 ^ 4 from x.toNat_lt), UInt32.ofNat_toNat]

theorem ofNat_mod64 (x : UInt64) : UInt64.ofNat (x.toNat % 256 ^ 8) = x := by
  rw [Nat.mod_eq_of_lt (show x.toNat < 256 ^ 8 from x.toNat_lt), UInt64.ofNat_toNat]

/-- **The kernel reads back the `ioCmd` that was copied in**, whatever the area held. -/
theorem IOCmd.decode_copyInto {n : Nat} (hn : 16 ≤ n) (dst : Fin n → UInt8) (c : IOCmd) :
    IOCmd.decode (copyInto dst c.bytes) = c := by
  have hfields : readFields (copyInto dst c.bytes) 0 [2, 2, 4, 8] = _ :=
    readFields_layout dst c.fields hn
  simp only [readFields, IOCmd.fields, List.map_cons, List.map_nil, List.cons.injEq] at hfields
  obtain ⟨h0, h1, h2, h3, -⟩ := hfields
  rw [IOCmd.decode, h0, h1, h2, h3, ofNat_mod16, ofNat_mod16, ofNat_mod32, ofNat_mod64,
    Int32.toInt32_toUInt32]

/-- **The kernel reads back the `ctrlCmd` that was copied in.** -/
theorem CtrlCmd.decode_copyInto {n : Nat} (hn : 32 ≤ n) (dst : Fin n → UInt8) (c : CtrlCmd) :
    CtrlCmd.decode (copyInto dst c.bytes) = c := by
  have hfields : readFields (copyInto dst c.bytes) 0 [4, 2, 2, 8, 8, 2, 2, 4] = _ :=
    readFields_layout dst c.fields hn
  simp only [readFields, CtrlCmd.fields, List.map_cons, List.map_nil, List.cons.injEq] at hfields
  obtain ⟨h0, h1, h2, h3, h4, h5, h6, h7, -⟩ := hfields
  rw [CtrlCmd.decode, h0, h1, h2, h3, h4, h5, h6, h7]
  simp only [ofNat_mod16, ofNat_mod32, ofNat_mod64]

end Ublk
