import UblkProof.HandleIO

/-! # The geometry of an accepted configuration

`validate` bounds the block size, the queue depth and the largest request, but not the size of
the device.  The first half of this module is what follows from its checks for the parameters
`setParams` sends: block size, sectors, limits and buffers fit each other for every accepted
configuration.

The second half is what does not follow.  `handleIO` computes its offset in an `int64`, and a
device of `2 ^ 63` bytes or more has sectors whose offset is not one: every call stays inside
the device exactly when the size is below that.
-/
namespace Ublk

/-! ## Powers of two -/

/-- A number with one bit set is a power of two, and the bit is its first. -/
theorem onesCount32_eq_one {v : UInt32} (h : onesCount32 v = 1) :
    ∃ k < 32, v.toNat = 2 ^ k ∧ trailingZeros32 v = k := by
  rw [onesCount32, List.countP_eq_length_filter] at h
  obtain ⟨k, hk⟩ := List.length_eq_one_iff.mp h
  have hmem : ∀ j, (j < 32 ∧ v.toNat.testBit j = true) ↔ j = k := by
    intro j
    rw [← List.mem_range, ← List.mem_filter (p := fun i => v.toNat.testBit i), hk,
      List.mem_singleton]
  obtain ⟨hlt, hbit⟩ := (hmem k).mpr rfl
  refine ⟨k, hlt, ?_, ?_⟩
  · refine Nat.eq_of_testBit_eq fun j => ?_
    rw [Nat.testBit_two_pow]
    by_cases hj : k = j
    · rw [← hj, hbit, decide_eq_true rfl]
    · rw [decide_eq_false hj, ← Bool.not_eq_true]
      intro hbit'
      -- a set bit below 32 would be `k`, and there is none from 32 on
      by_cases hj32 : j < 32
      · exact hj ((hmem j).mp ⟨hj32, hbit'⟩).symm
      · have hv : v.toNat < 2 ^ j :=
          Nat.lt_of_lt_of_le v.toNat_lt (Nat.pow_le_pow_right (by decide) (Nat.not_lt.mp hj32))
        rw [Nat.testBit_lt_two_pow hv] at hbit'
        cases hbit'
  · rw [trailingZeros32, ← List.head?_filter, hk]
    rfl

namespace Config.Valid
variable {c : Config} {size : UInt64}

theorem block_dvd_io (h : c.Valid size) : c.blockSize.toNat ∣ c.maxIOSize.toNat := by
  refine Nat.dvd_of_mod_eq_zero ?_
  rw [← UInt32.toNat_mod, h.io_mod]
  rfl

theorem block_dvd_size (h : c.Valid size) : c.blockSize.toNat ∣ size.toNat := by
  refine Nat.dvd_of_mod_eq_zero ?_
  rw [← UInt32.toNat_toUInt64, ← UInt64.toNat_mod, h.size_mod]
  rfl

theorem io_pos (h : c.Valid size) : 0 < c.maxIOSize.toNat :=
  Nat.pos_of_ne_zero fun he => h.io_ne (UInt32.toNat_inj.mp he)

/-- The block size is `2 ^ k` for some `k` between 9 and 20. -/
theorem block_eq (h : c.Valid size) :
    ∃ k, 9 ≤ k ∧ k ≤ 20 ∧ c.blockSize.toNat = 2 ^ k ∧ trailingZeros32 c.blockSize = k := by
  obtain ⟨k, -, hk, htz⟩ := onesCount32_eq_one h.block_pow
  have hge : 2 ^ 9 ≤ c.blockSize.toNat := by
    have := UInt32.not_lt.mp h.block_ge
    rwa [UInt32.le_iff_toNat_le] at this
  have hle : c.blockSize.toNat ≤ 2 ^ 20 :=
    Nat.le_trans (Nat.le_of_dvd h.io_pos h.block_dvd_io) h.io_toNat_le
  rw [hk] at hge hle
  exact ⟨k, (Nat.pow_le_pow_iff_right (by decide)).mp hge,
    (Nat.pow_le_pow_iff_right (by decide)).mp hle, hk, htz⟩

theorem sector_dvd_block (h : c.Valid size) : 512 ∣ c.blockSize.toNat := by
  obtain ⟨k, hk, -, hblock, -⟩ := h.block_eq
  rw [hblock]
  exact Nat.pow_dvd_pow 2 hk

end Config.Valid

/-! ## The sizes that are computed -/

/-- What the kernel hands back in `MaxIOBufBytes`: whole pages. -/
def pageRound (maxIOSize : UInt32) : UInt32 := maxIOSize / 4096 * 4096

/-- `unsafe.Sizeof(ioDesc{})`. -/
def sizeofIODesc : Nat := 24

/-- `mmapSize` in `mmapDescs`. -/
def descsSize (depth : UInt16) : Int64 := Int64.ofNat depth.toNat * Int64.ofNat sizeofIODesc

/-- `total` in `allocBuffers`. -/
def poolSize (depth : UInt16) (bufSize : Nat) : Int64 :=
  Int64.ofNat depth.toNat * Int64.ofNat bufSize

theorem toNat_pageRound (m : UInt32) : (pageRound m).toNat = m.toNat / 4096 * 4096 := by
  have hlt := m.toNat_lt
  have hle := Nat.div_mul_le_self m.toNat 4096
  rw [pageRound, UInt32.toNat_mul, UInt32.toNat_div]
  exact Nat.mod_eq_of_lt (Nat.lt_of_le_of_lt hle hlt)

/-- A product below `2 ^ 63` is computed exactly. -/
theorem toInt_ofNat_mul {a b : Nat} (ha : a < 2 ^ 63) (hb : b < 2 ^ 63) (h : a * b < 2 ^ 63) :
    (Int64.ofNat a * Int64.ofNat b).toInt = (a * b : Nat) := by
  rw [Int64.toInt_mul, Int64.toInt_ofNat_of_lt ha, Int64.toInt_ofNat_of_lt hb, ← Int.natCast_mul]
  exact Int.bmod_eq_of_le (by omega) (by omega)

/-- The buffer is a whole number of blocks: page rounding keeps small blocks whole, and does
nothing to a multiple of a large one. -/
theorem bufSizeOf_pageRound {c : Config} {size : UInt64} (h : c.Valid size) :
    0 < bufSizeOf c (pageRound c.maxIOSize) ∧
      c.blockSize.toNat ∣ bufSizeOf c (pageRound c.maxIOSize) ∧
      bufSizeOf c (pageRound c.maxIOSize) ≤ 2 ^ 20 := by
  obtain ⟨k, -, -, hblock, -⟩ := h.block_eq
  have hdvd := h.block_dvd_io
  have hio := h.io_toNat_le
  have hpos := h.io_pos
  have hle := Nat.div_mul_le_self c.maxIOSize.toNat 4096
  rw [bufSizeOf, toNat_pageRound]
  split_ifs with h0
  · exact ⟨hpos, hdvd, hio⟩
  · refine ⟨Nat.pos_of_ne_zero h0, ?_, Nat.le_trans hle hio⟩
    rw [hblock] at hdvd ⊢
    rcases Nat.le_total k 12 with hk | hk
    · exact Nat.dvd_mul_left_of_dvd (Nat.pow_dvd_pow 2 hk) _
    · have hpage : 4096 ∣ c.maxIOSize.toNat := Nat.dvd_trans (Nat.pow_dvd_pow 2 hk) hdvd
      rwa [Nat.div_mul_cancel hpage]

/-! ## Accepted configurations -/

/-- A limit on the operations without a buffer, in sectors: not advertised, or a whole number
of granules that fits an `int32` in bytes. -/
def LimitFits (granularity sectors : UInt32) : Prop :=
  sectors ≠ 0 → 0 < sectors.toNat * 512 ∧ granularity.toNat ∣ sectors.toNat * 512 ∧
    sectors.toNat * 512 ≤ 2 ^ 31 - 1

/-- The parameters `p`, a buffer size and the options fit each other. -/
structure Coherent (c : Config) (size : UInt64) (bufSize : Nat) (p : UblkParams) : Prop where
  block : 2 ^ p.basic.logicalBSShift.toNat = c.blockSize.toNat
  sectors : p.basic.devSectors.toNat * 512 = size.toNat
  sectors_pos : 0 < p.basic.devSectors.toNat
  sectors_blocks : c.blockSize.toNat / 512 ∣ p.basic.devSectors.toNat
  request_pos : 0 < p.basic.maxSectors.toNat * 512
  request_blocks : c.blockSize.toNat ∣ p.basic.maxSectors.toNat * 512
  request_le : p.basic.maxSectors.toNat * 512 ≤ bufSize
  buffer_le : bufSize ≤ 2 ^ 20
  discard : LimitFits p.discard.discardGranularity p.discard.maxDiscardSectors
  writeZeroes : LimitFits p.discard.discardGranularity p.discard.maxWriteZeroesSectors
  pool : (poolSize c.queueDepth bufSize).toInt = c.queueDepth.toNat * bufSize
  descs : (descsSize c.queueDepth).toInt = c.queueDepth.toNat * 24

section
variable {c : Config} {size : UInt64} (caps : Capabilities) (maxSectors : UInt32)

theorem setParams_shift (h : c.Valid size) :
    2 ^ (setParams caps size c maxSectors).basic.logicalBSShift.toNat = c.blockSize.toNat := by
  obtain ⟨k, -, hk, hblock, htz⟩ := h.block_eq
  have hshift : (setParams caps size c maxSectors).basic.logicalBSShift = UInt8.ofNat k := by
    unfold setParams
    rw [htz]
    split_ifs <;> rfl
  have hmod : k % 256 = k := Nat.mod_eq_of_lt (by omega)
  rw [hshift, hblock, UInt8.toNat_ofNat', hmod]

theorem toNat_devSectors : (setParams caps size c maxSectors).basic.devSectors.toNat =
    size.toNat / 512 := by
  rw [setParams_devSectors]
  exact UInt64.toNat_div _ _

/-- One GiB is a whole number of blocks. -/
theorem limitFits_maxSect (h : c.Valid size) : LimitFits c.blockSize maxSect := by
  obtain ⟨k, -, hk, hblock, -⟩ := h.block_eq
  have hbytes : maxSect.toNat * 512 = 2 ^ 30 := by decide
  intro _
  rw [hbytes, hblock]
  exact ⟨by decide, Nat.pow_dvd_pow 2 (by omega), by decide⟩

theorem limitFits_zero (g : UInt32) : LimitFits g 0 := fun h => absurd rfl h

/-- A limit that is advertised is one GiB, with the block size as granularity. -/
theorem setParams_limits (h : c.Valid size) :
    LimitFits (setParams caps size c maxSectors).discard.discardGranularity
        (setParams caps size c maxSectors).discard.maxDiscardSectors ∧
      LimitFits (setParams caps size c maxSectors).discard.discardGranularity
        (setParams caps size c maxSectors).discard.maxWriteZeroesSectors := by
  have hmax := limitFits_maxSect h
  unfold setParams
  split_ifs with hany hd hz hz
  · exact ⟨hmax, hmax⟩
  · exact ⟨hmax, limitFits_zero _⟩
  · exact ⟨limitFits_zero _, hmax⟩
  · exact ⟨limitFits_zero _, limitFits_zero _⟩
  · exact ⟨limitFits_zero _, limitFits_zero _⟩

end

/-- **Accepted configurations give a coherent geometry**, for every size and whatever the
backend can do. -/
theorem geometry_coherent (c : Config) (size : UInt64) (hv : c.validate size = .ok ())
    (caps : Capabilities) :
    Coherent c size (bufSizeOf c (pageRound c.maxIOSize))
      (setParams caps size c (maxSectorsOf (bufSizeOf c (pageRound c.maxIOSize)))) := by
  have h := Config.valid_of_validate hv
  obtain ⟨hpos, hdvd, hle⟩ := bufSizeOf_pageRound h
  have hsect := Nat.dvd_trans h.sector_dvd_block h.block_dvd_size
  have hsize : size.toNat / 512 * 512 = size.toNat := Nat.div_mul_cancel hsect
  have hne : 0 < size.toNat := Nat.pos_of_ne_zero fun he => h.size_ne (UInt64.toNat_inj.mp he)
  have hmax : (maxSectorsOf (bufSizeOf c (pageRound c.maxIOSize))).toNat * 512 =
      bufSizeOf c (pageRound c.maxIOSize) := by
    rw [maxSectorsOf, UInt32.toNat_div, UInt32.toNat_ofNat',
      Nat.mod_eq_of_lt (Nat.lt_of_le_of_lt hle (by decide))]
    exact Nat.div_mul_cancel (Nat.dvd_trans h.sector_dvd_block hdvd)
  have hdepth : c.queueDepth.toNat ≤ 2 ^ 12 := h.depth_le
  have hpool : c.queueDepth.toNat * bufSizeOf c (pageRound c.maxIOSize) ≤ 2 ^ 12 * 2 ^ 20 :=
    Nat.mul_le_mul hdepth hle
  obtain ⟨hd, hz⟩ := setParams_limits caps (maxSectorsOf (bufSizeOf c (pageRound c.maxIOSize))) h
  refine ⟨setParams_shift _ _ h, ?_, ?_, ?_, ?_, ?_, ?_, hle, hd, hz, ?_, ?_⟩
  · rw [toNat_devSectors, hsize]
  · rw [toNat_devSectors]
    omega
  · rw [toNat_devSectors]
    exact Nat.div_dvd_div h.sector_dvd_block h.block_dvd_size
  · rw [setParams_maxSectors, hmax]
    exact hpos
  · rw [setParams_maxSectors, hmax]
    exact hdvd
  · rw [setParams_maxSectors, hmax]
  · rw [poolSize, toInt_ofNat_mul (by omega) (by omega) (by omega), Int.natCast_mul]
  · rw [descsSize, toInt_ofNat_mul (by omega) (by decide) (by unfold sizeofIODesc; omega),
      Int.natCast_mul]
    rfl

/-- Blocks of 8 KiB, requests of 24 KiB, and a device of an odd number of blocks. -/
theorem geometry_coherent_blocks :
    Coherent ⟨8192, 4096, 24576⟩ 24576 24576
      (setParams ⟨true, false⟩ 24576 ⟨8192, 4096, 24576⟩ 48) :=
  geometry_coherent ⟨8192, 4096, 24576⟩ 24576 (by decide +kernel) ⟨true, false⟩

/-! ## Offsets -/

/-- The offset and the length a backend method is called with. -/
def BackendCall.off : BackendCall → Int64
  | .readAt _ off => off
  | .writeAt _ off => off
  | .discardAt off _ => off
  | .writeZeroesAt off _ _ => off

/-- How many bytes the backend is asked for. -/
def BackendCall.length : BackendCall → Int
  | .readAt p _ => p.length
  | .writeAt p _ => p.length
  | .discardAt _ length => length.toInt
  | .writeZeroesAt _ length _ => length.toInt

/-- The call is for the descriptor's range, which lies in the device, and its end is an
`int64`. -/
structure BackendCall.Inside (size : UInt64) (d : IODesc) (call : BackendCall) : Prop where
  offset : call.off.toInt = d.startSector.toNat * 512
  no_overflow : call.off.toInt + call.length < 2 ^ 63
  within : call.off.toInt + call.length ≤ size.toNat

theorem IODesc.offset_toInt {d : IODesc} (h : d.startSector.toNat * 512 < 2 ^ 63) :
    d.offset.toInt = (d.startSector.toNat * 512 : Nat) := by
  have hs : d.startSector.toInt64.toInt = d.startSector.toNat := by
    have hval : d.startSector.toInt64.toBitVec.toNat = d.startSector.toNat := rfl
    exact BitVec.toInt_eq_toNat_of_lt (by omega)
  rw [IODesc.offset, Int64.toInt_mul, hs]
  show Int.bmod ((d.startSector.toNat : Int) * 512) (2 ^ 64) = _
  rw [Int.bmod_eq_of_le (by omega) (by omega)]
  omega

section
variable {β : Type} {bk : Backend β} {bufSize : Nat} {d : IODesc} {buf : List UInt8} {b : β}
  {out : Handled β}

/-- Whatever the operation, a backend call is for the descriptor's offset and length. -/
theorem handleIO_call_range (h : handleIO bk bufSize d buf b = some out) {call : BackendCall}
    {reply : Reply} (hc : (call, reply) ∈ out.calls) :
    call.off = d.offset ∧ call.length = d.length := by
  have hlen : (Int64.ofNat d.length).toInt = d.length := by
    refine Int64.toInt_ofNat_of_lt ?_
    have := d.nrSectors.toNat_lt
    unfold IODesc.length
    omega
  have hslice : ∀ p, sliceTo buf d.length = some p → p.length = d.length := by
    intro p hp
    unfold sliceTo at hp
    split_ifs at hp with hle
    cases hp
    rw [List.length_take, Nat.min_eq_left hle]
  unfold handleIO at h
  split_ifs at h with hr h0 hle hw h0 hle hd h0 hz h0
  · cases h; cases hc
  · cases h; cases hc
  · obtain ⟨p, hp, rfl⟩ := Option.map_eq_some_iff.mp h
    cases List.mem_singleton.mp hc
    exact ⟨rfl, congrArg Nat.cast (hslice p hp)⟩
  · cases h; cases hc
  · cases h; cases hc
  · obtain ⟨p, hp, rfl⟩ := Option.map_eq_some_iff.mp h
    cases List.mem_singleton.mp hc
    exact ⟨rfl, congrArg Nat.cast (hslice p hp)⟩
  · cases hf : bk.discardAt <;> rw [hf] at h <;> cases h <;> cases hc
  · cases hf : bk.discardAt <;> rw [hf] at h <;> cases h
    · cases hc
    · cases List.mem_singleton.mp hc
      exact ⟨rfl, hlen⟩
  · cases hf : bk.writeZeroesAt <;> rw [hf] at h <;> cases h <;> cases hc
  · cases hf : bk.writeZeroesAt <;> rw [hf] at h <;> cases h
    · cases hc
    · cases List.mem_singleton.mp hc
      exact ⟨rfl, hlen⟩
  · cases h; cases hc

end

/-- Every backend call for a descriptor that lies in the advertised device stays inside it. -/
def CallsInside (c : Config) (size : UInt64) : Prop :=
  ∀ {β : Type} (bk : Backend β) (maxSectors : UInt32) (bufSize : Nat) (d : IODesc)
    (buf : List UInt8) (b : β) (out : Handled β),
    d.startSector.toNat + d.nrSectors.toNat ≤
      (setParams bk.caps size c maxSectors).basic.devSectors.toNat →
    handleIO bk bufSize d buf b = some out →
    ∀ call reply, (call, reply) ∈ out.calls → call.Inside size d

/-- **Backend calls stay inside the device exactly for sizes below `2 ^ 63`.**  `validate` does
not check this. -/
theorem calls_inside_iff (c : Config) (size : UInt64) (hv : c.validate size = .ok ()) :
    CallsInside c size ↔ size.toNat < 2 ^ 63 := by
  have h := Config.valid_of_validate hv
  have hsize : size.toNat / 512 * 512 = size.toNat :=
    Nat.div_mul_cancel (Nat.dvd_trans h.sector_dvd_block h.block_dvd_size)
  have hne : 0 < size.toNat := Nat.pos_of_ne_zero fun he => h.size_ne (UInt64.toNat_inj.mp he)
  constructor
  · -- the last sector of the device
    intro hall
    have hlast : size.toNat / 512 - 1 < 2 ^ 64 := by
      have := size.toNat_lt
      omega
    obtain ⟨d, hop, hstart, hnr⟩ : ∃ d : IODesc, d.op = opRead ∧
        d.startSector.toNat = size.toNat / 512 - 1 ∧ d.nrSectors = 1 :=
      ⟨⟨0, 1, UInt64.ofNat (size.toNat / 512 - 1), 0⟩, (by decide : (0 : UInt32) &&& 0xFF = opRead),
        UInt64.toNat_ofNat_of_lt' hlast, rfl⟩
    have hlen : d.length = 512 := by rw [IODesc.length, hnr]; rfl
    have hbuf : (List.replicate 512 (0 : UInt8)).length = 512 := List.length_replicate
    have hdev : d.startSector.toNat + d.nrSectors.toNat ≤
        (setParams fullBackend.caps size c 1).basic.devSectors.toNat := by
      have hone : (1 : UInt32).toNat = 1 := rfl
      rw [toNat_devSectors, hstart, hnr, hone]
      omega
    have hread : handleIO fullBackend 512 d _ () = _ :=
      handleIO_read hop (by omega) (Nat.le_of_eq hlen) hbuf
    have hin := hall fullBackend 1 512 d _ () _ hdev hread _ _ (List.mem_singleton.mpr rfl)
    have hoff := hin.offset
    have hfit := hin.no_overflow
    have hcall : (BackendCall.readAt ((List.replicate 512 (0 : UInt8)).take d.length)
        d.offset).length = 512 := by
      rw [BackendCall.length, List.length_take, hbuf, hlen]
      rfl
    rw [hoff, hcall, hstart] at hfit
    omega
  · intro hlt β bk maxSectors bufSize d buf b out hd hout call reply hc
    rw [toNat_devSectors] at hd
    obtain ⟨hoff, hlen⟩ := handleIO_call_range hout hc
    have hend : d.startSector.toNat * 512 + d.length ≤ size.toNat := by
      rw [IODesc.length, ← Nat.add_mul, ← hsize]
      exact Nat.mul_le_mul_right 512 hd
    have hstart := IODesc.offset_toInt (d := d) (by omega)
    refine ⟨?_, ?_, ?_⟩ <;> rw [hoff, hstart]
    · rfl
    · rw [hlen]
      omega
    · rw [hlen]
      omega

/-- A device of ten thousand blocks, and one of the largest size that is still fine. -/
theorem calls_inside_small :
    CallsInside Config.default 5120000 ∧ CallsInside Config.default 0x7FFFFFFFFFFFFE00 :=
  ⟨(calls_inside_iff Config.default 5120000 (by decide +kernel)).mpr (by decide),
    (calls_inside_iff Config.default 0x7FFFFFFFFFFFFE00 (by decide +kernel)).mpr (by decide)⟩

/-- **The offset of a sector at `2 ^ 63` bytes is negative.**  The size is accepted, and the
descriptor lies in the device. -/
theorem offset_negative :
    Config.default.validate 0x8000000000000200 = .ok () ∧
      (setParams fullBackend.caps 0x8000000000000200 Config.default 256).basic.devSectors.toNat =
        2 ^ 54 + 1 ∧
      ∃ out, handleIO fullBackend 512 ⟨0, 1, 0x40000000000000, 0⟩ (List.replicate 512 0) () =
          some out ∧ out.calls.map (fun c => c.1.off.toInt) = [-2 ^ 63] := by
  refine ⟨by decide +kernel, by decide +kernel, _,
    handleIO_read (by decide) (by decide) (by decide) List.length_replicate, ?_⟩
  decide +kernel

end Ublk
