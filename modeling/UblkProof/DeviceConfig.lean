import UblkProof.Commands

/-! # Configuration and advertised parameters

`New` validates its options, lets the kernel lower the I/O buffer size, and advertises
the resulting limits with `SET_PARAMS`.  The same buffer size is what the worker checks
requests against; `DeviceConfig` is the place where the two sides' numbers come from.
-/
namespace Ublk

/-- The options of `New`. -/
structure Config where
  blockSize : UInt32
  queueDepth : UInt16
  maxIOSize : UInt32
  deriving DecidableEq

/-- The defaults, and the largest `maxIOSize`. -/
def defaultBlockSize : UInt32 := 512
def defaultQueueDepth : UInt16 := 128
def defaultMaxIOSize : UInt32 := 128 * 1024
def maxMaxIOSize : UInt32 := 0x100000

/-- The configuration without options. -/
def Config.default : Config := ⟨defaultBlockSize, defaultQueueDepth, defaultMaxIOSize⟩

/-- `bits.OnesCount32`. -/
def onesCount32 (v : UInt32) : Nat := (List.range 32).countP fun i => v.toNat.testBit i

/-- `bits.TrailingZeros32`. -/
def trailingZeros32 (v : UInt32) : Nat :=
  ((List.range 32).find? fun i => v.toNat.testBit i).getD 32

/-- Why a configuration is rejected, with the values the message shows. -/
inductive ConfigError
  | sizeZero
  | blockSize (bs : UInt32)
  | sizeMultiple (size : UInt64) (bs : UInt32)
  | queueDepth (depth : UInt16)
  | maxIOMultiple (n : UInt32) (bs : UInt32)
  | maxIOCap (n : UInt32)
  deriving DecidableEq

/-- The text of each error. -/
def ConfigError.text : ConfigError → String
  | .sizeZero => "size must be > 0"
  | .blockSize bs => s!"block size must be a power of two >= 512, got {bs}"
  | .sizeMultiple size bs => s!"size ({size}) must be a multiple of block size ({bs})"
  | .queueDepth depth => s!"queue depth must be in [1, {maxQueueDepth}], got {depth}"
  | .maxIOMultiple n bs =>
      s!"max IO size ({n}) must be a positive multiple of block size ({bs})"
  | .maxIOCap n => s!"max IO size ({n}) exceeds 1 MiB cap ({maxMaxIOSize})"

/-- The checks of `New`, in order. -/
def Config.validate (c : Config) (size : UInt64) : Except ConfigError Unit :=
  if size = 0 then
    .error .sizeZero
  else if c.blockSize < 512 ∨ onesCount32 c.blockSize ≠ 1 then
    .error (.blockSize c.blockSize)
  else if size % c.blockSize.toUInt64 ≠ 0 then
    .error (.sizeMultiple size c.blockSize)
  else if c.queueDepth < 1 ∨ maxQueueDepth < c.queueDepth.toNat then
    .error (.queueDepth c.queueDepth)
  else if c.maxIOSize = 0 ∨ c.maxIOSize % c.blockSize ≠ 0 then
    .error (.maxIOMultiple c.maxIOSize c.blockSize)
  else if maxMaxIOSize < c.maxIOSize then
    .error (.maxIOCap c.maxIOSize)
  else
    .ok ()

/-- What an accepted configuration satisfies: the negation of every check. -/
structure Config.Valid (c : Config) (size : UInt64) : Prop where
  size_ne : size ≠ 0
  block_ge : ¬ c.blockSize < 512
  block_pow : onesCount32 c.blockSize = 1
  size_mod : size % c.blockSize.toUInt64 = 0
  depth_ge : ¬ c.queueDepth < 1
  depth_le : c.queueDepth.toNat ≤ maxQueueDepth
  io_ne : c.maxIOSize ≠ 0
  io_mod : c.maxIOSize % c.blockSize = 0
  io_le : ¬ maxMaxIOSize < c.maxIOSize

theorem Config.valid_of_validate {c : Config} {size : UInt64} (h : c.validate size = .ok ()) :
    c.Valid size := by
  unfold Config.validate at h
  split_ifs at h with h1 h2 h3 h4 h5 h6
  obtain ⟨hb, hp⟩ := not_or.mp h2
  obtain ⟨hd, hd'⟩ := not_or.mp h4
  obtain ⟨hio, hio'⟩ := not_or.mp h5
  exact ⟨h1, hb, not_not.mp hp, not_not.mp h3, hd, Nat.not_lt.mp hd', hio, not_not.mp hio', h6⟩

theorem Config.Valid.io_toNat_le {c : Config} {size : UInt64} (h : c.Valid size) :
    c.maxIOSize.toNat ≤ 2 ^ 20 := by
  have := UInt32.not_lt.mp h.io_le
  rw [UInt32.le_iff_toNat_le] at this
  exact this

/-! ## Buffer size and limits -/

/-- The buffer size `New` uses: what the kernel handed back in `MaxIOBufBytes`, or the
requested size if that is zero. -/
def bufSizeOf (c : Config) (maxIOBufBytes : UInt32) : Nat :=
  if maxIOBufBytes.toNat = 0 then c.maxIOSize.toNat else maxIOBufBytes.toNat

/-- The `maxSectors` argument of `setParams`. -/
def maxSectorsOf (bufSize : Nat) : UInt32 := UInt32.ofNat bufSize / 512

theorem bufSizeOf_le {c : Config} {size : UInt64} (h : c.Valid size) {m : UInt32}
    (hm : m = 0 ∨ m ≤ c.maxIOSize) : bufSizeOf c m ≤ 2 ^ 20 := by
  have hio := h.io_toNat_le
  unfold bufSizeOf
  split_ifs with h0
  · exact hio
  · rcases hm with rfl | hm
    · exact absurd rfl h0
    · rw [UInt32.le_iff_toNat_le] at hm
      omega

/-- `paramBasic`. -/
structure ParamBasic where
  attrs : UInt32
  logicalBSShift : UInt8
  physicalBSShift : UInt8
  ioOptShift : UInt8
  ioMinShift : UInt8
  maxSectors : UInt32
  chunkSectors : UInt32
  devSectors : UInt64
  virtBoundaryMask : UInt64
  deriving DecidableEq

/-- `paramDiscard`. -/
structure ParamDiscard where
  discardAlignment : UInt32
  discardGranularity : UInt32
  maxDiscardSectors : UInt32
  maxWriteZeroesSectors : UInt32
  maxDiscardSegments : UInt16
  reserved0 : UInt16
  deriving DecidableEq

/-- `ublkParams` without the `Devt` and `Zoned` parts, which stay zero. -/
structure UblkParams where
  len : UInt32
  types : UInt32
  basic : ParamBasic
  discard : ParamDiscard
  deriving DecidableEq

/-- `unsafe.Sizeof(ublkParams{})`. -/
def sizeofUblkParams : UInt32 := 112

/-- The optional capabilities of a backend, as `openDevice` finds them. -/
structure Capabilities where
  discarder : Bool
  zeroer : Bool
  deriving DecidableEq

/-- One GiB in sectors. -/
def maxSect : UInt32 := 0x200000

/-- The parameters `setParams` sends to the kernel. -/
def setParams (caps : Capabilities) (size : UInt64) (cfg : Config) (maxSectors : UInt32) :
    UblkParams :=
  let bsShift := UInt8.ofNat (trailingZeros32 cfg.blockSize)
  let basic : ParamBasic :=
    { attrs := 0
      logicalBSShift := bsShift
      physicalBSShift := bsShift
      ioOptShift := bsShift
      ioMinShift := bsShift
      maxSectors := maxSectors
      chunkSectors := 0
      devSectors := size / 512
      virtBoundaryMask := 0 }
  if caps.discarder ∨ caps.zeroer then
    { len := sizeofUblkParams
      types := paramTypeBasic ||| paramTypeDiscard
      basic := basic
      discard :=
        { discardAlignment := 0
          discardGranularity := cfg.blockSize
          maxDiscardSectors := if caps.discarder then maxSect else 0
          maxWriteZeroesSectors := if caps.zeroer then maxSect else 0
          maxDiscardSegments := 1
          reserved0 := 0 } }
  else
    { len := sizeofUblkParams
      types := paramTypeBasic
      basic := basic
      discard := ⟨0, 0, 0, 0, 0, 0⟩ }

section
variable (caps : Capabilities) (size : UInt64) (cfg : Config) (maxSectors : UInt32)

theorem setParams_maxSectors :
    (setParams caps size cfg maxSectors).basic.maxSectors = maxSectors := by
  unfold setParams
  split_ifs <;> rfl

theorem setParams_devSectors :
    (setParams caps size cfg maxSectors).basic.devSectors = size / 512 := by
  unfold setParams
  split_ifs <;> rfl

/-- **A limit is advertised exactly for the capabilities the backend has.** -/
theorem setParams_maxDiscardSectors :
    (setParams caps size cfg maxSectors).discard.maxDiscardSectors =
      if caps.discarder then maxSect else 0 := by
  unfold setParams
  split_ifs with h <;> simp_all

theorem setParams_maxWriteZeroesSectors :
    (setParams caps size cfg maxSectors).discard.maxWriteZeroesSectors =
      if caps.zeroer then maxSect else 0 := by
  unfold setParams
  split_ifs with h <;> simp_all

end

/-- A whole number of advertised sectors fits the buffer. -/
theorem maxSectorsOf_mul_le (bufSize : Nat) (h : bufSize < 2 ^ 32) :
    (maxSectorsOf bufSize).toNat * 512 ≤ bufSize := by
  rw [maxSectorsOf, UInt32.toNat_div, UInt32.toNat_ofNat', Nat.mod_eq_of_lt h]
  exact Nat.div_mul_le_self bufSize 512

end Ublk
