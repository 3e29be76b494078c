import UblkProof.ByteMemory
import UblkProof.DeviceGeometry

/-! # Reading from a backend that keeps its contract

The package asks of a backend that it satisfies `io.ReaderAt`.  Of a range that lies inside its
data, that contract promises all bytes; but where the range ends exactly at the end of the
data, the reader may return `io.EOF` together with the full count.  `handleIO` takes every
error for a failure, so a conforming backend of exactly the device's size can make the last
sector unreadable.
-/
namespace Ublk
open ByteMemory

/-- `io.EOF`. -/
def ioEOF : String := "EOF"

/-- The `io.ReaderAt` contract of a backend in state `b` that holds `len` bytes of `data`, for
ranges inside the data.  Offsets are `int64`s, so no byte lies at `2 ^ 63` or beyond. -/
structure ReaderAt {β : Type} (bk : Backend β) (b : β) (data : Nat → UInt8) (len : Nat) : Prop where
  addressable : len ≤ 2 ^ 63
  full : ∀ (p : List UInt8) (off : Int64), 0 ≤ off.toInt → off.toInt + p.length ≤ len →
    (bk.readAt b p off).1.n = p.length
  bytes : ∀ (p : List UInt8) (off : Int64), 0 ≤ off.toInt → off.toInt + p.length ≤ len →
    (bk.readAt b p off).2.1 = readBytes data off.toInt.toNat p.length
  eof : ∀ (p : List UInt8) (off : Int64), 0 ≤ off.toInt → off.toInt + p.length ≤ len →
    (bk.readAt b p off).1.err = none ∨
      ((bk.readAt b p off).1.err = some ioEOF ∧ off.toInt + p.length = len)

section
variable {β : Type} {bk : Backend β} {b : β} {data : Nat → UInt8} {len : Nat} {d : IODesc}
  {buf : List UInt8} {bufSize : Nat}

/-- The request got its length, and the buffer holds the backend's bytes for its range. -/
def ReadServed (data : Nat → UInt8) (d : IODesc) (out : Handled β) : Prop :=
  out.result.toInt = d.nrSectors.toNat * 512 ∧
    out.buf.take (d.nrSectors.toNat * 512) =
      readBytes data (d.startSector.toNat * 512) (d.nrSectors.toNat * 512)

/-- What a conforming backend leaves of the caller's slice: its own bytes. -/
theorem overwrite_eq {old new : List UInt8} (h : new.length = old.length) :
    overwrite old new = new := by
  rw [overwrite, ← h, List.take_length, h, List.drop_length, List.append_nil]

/-- One read of a range inside the data. -/
theorem handleIO_read_contract (h : ReaderAt bk b data len) (hop : d.op = opRead)
    (h0 : d.length ≠ 0) (hle : d.length ≤ bufSize) (hbuf : buf.length = bufSize)
    (hin : d.startSector.toNat * 512 + d.length ≤ len) :
    ∃ out, handleIO bk bufSize d buf b = some out ∧
      out.result = ioResult d.length (bk.readAt b (buf.take d.length) d.offset).1 ∧
      (bk.readAt b (buf.take d.length) d.offset).1.n = d.length ∧
      out.buf.take d.length = readBytes data (d.startSector.toNat * 512) d.length := by
  have haddr := h.addressable
  have hoff : d.offset.toInt = (d.startSector.toNat * 512 : Nat) :=
    IODesc.offset_toInt (by omega)
  have hlen : (buf.take d.length).length = d.length := by
    rw [List.length_take, hbuf, Nat.min_eq_left hle]
  have hlo : 0 ≤ d.offset.toInt := by rw [hoff]; omega
  have hhi : d.offset.toInt + (buf.take d.length).length ≤ len := by rw [hoff, hlen]; omega
  have hbytes := h.bytes _ d.offset hlo hhi
  have hfull := h.full _ d.offset hlo hhi
  rw [hoff, hlen, Int.toNat_natCast] at hbytes
  rw [hlen] at hfull
  refine ⟨_, handleIO_read hop h0 hle hbuf, rfl, hfull, ?_⟩
  rw [hbytes, overwrite_eq (by rw [length_readBytes, hlen]),
    List.take_left' (length_readBytes _ _ _)]

end

/-- **A read inside the device is served exactly when the backend reports no error for it**, by
every backend that keeps the contract.  The only error it may report is an `io.EOF` for a range
that ends where its data end. -/
theorem read_served_iff {β : Type} (bk : Backend β) (b : β) (data : Nat → UInt8) (len : Nat)
    (h : ReaderAt bk b data len) (c : Config) (size : UInt64) (hv : c.validate size = .ok ())
    (hsize : size.toNat ≤ len) (m : UInt32) (hm : m = 0 ∨ m ≤ c.maxIOSize) (d : IODesc)
    (hop : d.op = opRead) (hpos : 0 < d.nrSectors)
    (hmax : d.nrSectors ≤
      (setParams bk.caps size c (maxSectorsOf (bufSizeOf c m))).basic.maxSectors)
    (hin : d.startSector.toNat + d.nrSectors.toNat ≤ size.toNat / 512) (buf : List UInt8)
    (hbuf : buf.length = bufSizeOf c m) :
    ∃ out, handleIO bk (bufSizeOf c m) d buf b = some out ∧
      (ReadServed data d out ↔
        (bk.readAt b (buf.take (d.nrSectors.toNat * 512)) d.offset).1.err = none) := by
  have hvalid := Config.valid_of_validate hv
  have hinv : Invited (setParams bk.caps size c (maxSectorsOf (bufSizeOf c m))) d :=
    .inl ⟨.inl hop, hpos, hmax⟩
  obtain ⟨hgib, hle⟩ := hinv.length_le hvalid hm
  have h0 : d.length ≠ 0 := by
    have := UInt32.lt_iff_toNat_lt.mp hpos
    have hzero : (0 : UInt32).toNat = 0 := rfl
    unfold IODesc.length
    omega
  have hend : d.startSector.toNat * 512 + d.length ≤ len := by
    rw [IODesc.length, ← Nat.add_mul]
    omega
  obtain ⟨out, hout, hres, hn, hbytes⟩ :=
    handleIO_read_contract h hop h0 (hle (.inl hop)) hbuf hend
  refine ⟨out, hout, ?_⟩
  have hiff := (ioResult_iff hgib (bk.readAt b (buf.take d.length) d.offset).1).1
  have hcast : ((d.length : Nat) : Int) = d.nrSectors.toNat * 512 := by
    rw [IODesc.length]
    push_cast
    rfl
  rw [← hres, hcast] at hiff
  constructor
  · intro hs
    have hreply := hiff.mp hs.1
    exact congrArg Reply.err hreply
  · intro herr
    refine ⟨hiff.mpr ?_, hbytes⟩
    rw [← hcast, ← hn, ← herr]
    rfl

/-- A backend whose data end after `len` zero bytes, and which reports the end eagerly. -/
def eagerBackend (len : Nat) : Backend Unit where
  readAt _ p off :=
    (⟨p.length, if off.toInt + p.length = len then some ioEOF else none⟩,
      List.replicate p.length 0, ())
  writeAt _ p _ := (⟨p.length, none⟩, ())
  discardAt := none
  writeZeroesAt := none

theorem eagerBackend_reply (len : Nat) (p : List UInt8) (off : Int64) :
    ((eagerBackend len).readAt () p off).1 =
      ⟨p.length, if off.toInt + p.length = len then some ioEOF else none⟩ :=
  rfl

theorem eagerBackend_readerAt {len : Nat} (h : len ≤ 2 ^ 63) :
    ReaderAt (eagerBackend len) () (fun _ => 0) len where
  addressable := h
  full _ _ _ _ := rfl
  bytes p off _ _ := by
    simp only [eagerBackend, readBytes, List.map_const', List.length_range]
  eof p off _ _ := by
    rw [eagerBackend_reply]
    split_ifs with he
    · exact .inr ⟨rfl, he⟩
    · exact .inl rfl

/-- The first sector of a device of two sectors, through the eager backend. -/
theorem read_served_first :
    ∃ out, handleIO (eagerBackend 1024) (bufSizeOf Config.default 0) ⟨0, 1, 0, 0⟩
        (List.replicate (bufSizeOf Config.default 0) 0) () = some out ∧
      ReadServed (fun _ => 0) ⟨0, 1, 0, 0⟩ out := by
  obtain ⟨out, hout, hiff⟩ := read_served_iff (eagerBackend 1024) () (fun _ => 0) 1024
    (eagerBackend_readerAt (by decide)) Config.default 1024 (by decide +kernel) (by decide) 0
    (.inl rfl) ⟨0, 1, 0, 0⟩ (by decide) (by decide) (by decide +kernel) (by decide)
    (List.replicate (bufSizeOf Config.default 0) 0) List.length_replicate
  refine ⟨out, hout, hiff.mpr ?_⟩
  rw [eagerBackend_reply, List.length_take, List.length_replicate]
  decide

/-- **A conforming backend of one sector, and its only sector cannot be read.** -/
theorem eager_eof_read_fails :
    ReaderAt (eagerBackend 512) () (fun _ => 0) 512 ∧ Config.default.validate 512 = .ok () ∧
      ∃ out, handleIO (eagerBackend 512) (bufSizeOf Config.default 0) ⟨0, 1, 0, 0⟩
        (List.replicate (bufSizeOf Config.default 0) 0) () = some out ∧ out.result = -eio := by
  refine ⟨eagerBackend_readerAt (by decide), by decide +kernel, _,
    handleIO_read (by decide) (by decide) (by decide) List.length_replicate, ?_⟩
  rw [eagerBackend_reply, List.length_take, List.length_replicate]
  decide

end Ublk
