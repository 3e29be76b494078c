import UblkProof.DeviceGeometry
import UblkProof.Slices
import UblkProof.WorkerMachine

/-! # The buffer pool

`alignedAlloc` takes a page more than it needs and returns a window of it that starts on a page;
`allocBuffers` cuts that window into one buffer for each tag.  The kernel gets the buffers as bare
addresses, so that they do not meet rests on this arithmetic alone.  Go's own check does not help:
the capacity of the pool is what is left of the allocation, and a last buffer that reached into
the spare page would pass.
-/
namespace Ublk
open Slices

/-- `alignedAlloc`, where `make` finds room at `addr`. -/
def alignedAlloc (size align : Int64) (addr : UInt64) : Option Slice := do
  let raw ← Slice.make (size + align) addr
  -- `&raw[0]` of nothing and a remainder by zero panic
  if raw.len = 0 ∨ align = 0 then none
  else
    let offset := ((align.toUInt64 - addr % align.toUInt64) % align.toUInt64).toInt64
    raw.reslice offset (offset + size)

/-- `allocBuffers`: the worker's `bufPool` and `bufs`. -/
def allocBuffers (depth : UInt16) (bufSize : Nat) (addr : UInt64) :
    Option (Slice × List Slice) := do
  let bufPool ← alignedAlloc (poolSize depth bufSize) 4096 addr
  let bufs ← (List.range depth.toNat).mapM fun i =>
    let off := Int64.ofNat i * Int64.ofNat bufSize
    bufPool.reslice off (off + Int64.ofNat bufSize)
  return (bufPool, bufs)

/-! ## The aligned window -/

/-- The window of `size` bytes that starts at the first multiple of `align`. -/
def alignedAt (size align : Nat) (addr : UInt64) : Slice :=
  (Slice.whole addr.toNat (size + align)).window (padding addr.toNat align) size

section
variable (size : Nat) {align : Nat} (addr : UInt64)

theorem padding_add_le (h : 0 < align) :
    padding addr.toNat align + size ≤ (Slice.whole addr.toNat (size + align)).len := by
  have hlt := padding_lt addr.toNat h
  change _ ≤ size + align
  omega

theorem len_alignedAt (h : 0 < align) : (alignedAt size align addr).len = size :=
  Slice.len_window (padding_add_le size addr h)

theorem alignedAt_subset (h : 0 < align) :
    (alignedAt size align addr).bytes ⊆ (Slice.whole addr.toNat (size + align)).bytes :=
  Slice.window_subset (padding_add_le size addr h)

theorem dvd_addr_alignedAt (h : 0 < align) : align ∣ (alignedAt size align addr).addr :=
  dvd_add_padding addr.toNat h

/-- The double remainder is the padding, and none of the sums leaves its word. -/
theorem alignedAlloc_eq (h : 0 < align) (hlt : size + align < 2 ^ 63) :
    alignedAlloc (Int64.ofNat size) (Int64.ofNat align) addr =
      some (alignedAt size align addr) := by
  have hpad := padding_lt addr.toNat h
  have halign : (UInt64.ofNat align).toNat = align :=
    UInt64.toNat_ofNat_of_lt' (show align < 2 ^ 64 by omega)
  have hoff : (UInt64.ofNat align - addr % UInt64.ofNat align) % UInt64.ofNat align =
      UInt64.ofNat (padding addr.toNat align) := by
    apply UInt64.toNat_inj.mp
    rw [toNat_padding addr (by rwa [halign]), halign]
    exact (UInt64.toNat_ofNat_of_lt' (show padding addr.toNat align < 2 ^ 64 by omega)).symm
  have hne : ¬((Slice.whole addr.toNat (size + align)).len = 0 ∨ Int64.ofNat align = 0) := by
    rintro (h0 | h0)
    · change size + align = 0 at h0
      omega
    · have hzero := congrArg Int64.toInt h0
      rw [Int64.toInt_ofNat_of_lt (by omega)] at hzero
      change (align : Int) = 0 at hzero
      omega
  rw [alignedAlloc, ← Int64.ofNat_add, Slice.make_ofNat hlt]
  change (if _ then none else _) = _
  rw [if_neg hne, Int64.toUInt64_ofNat', hoff, UInt64.toInt64_ofNat', ← Int64.ofNat_add]
  exact Slice.reslice_ofNat (padding_add_le size addr h) (by omega)

end

/-! ## One buffer for each tag -/

section
variable (depth : UInt16) (bufSize : Nat) (addr : UInt64)

/-- What `allocBuffers` keeps as `bufPool`. -/
def poolAt : Slice := alignedAt (depth.toNat * bufSize) 4096 addr

theorem len_poolAt : (poolAt depth bufSize addr).len = depth.toNat * bufSize :=
  len_alignedAt _ addr (by decide)

theorem poolSize_eq : poolSize depth bufSize = Int64.ofNat (depth.toNat * bufSize) :=
  (Int64.ofNat_mul _ _).symm

theorem alignedAlloc_poolSize (hlt : depth.toNat * bufSize + 4096 < 2 ^ 63) :
    alignedAlloc (poolSize depth bufSize) 4096 addr = some (poolAt depth bufSize addr) := by
  rw [poolSize_eq]
  exact alignedAlloc_eq _ addr (by decide) hlt

/-- The bounds of every round are inside the pool, so no round panics. -/
theorem allocBuffers_eq (hlt : depth.toNat * bufSize + 4096 < 2 ^ 63) :
    allocBuffers depth bufSize addr = some (poolAt depth bufSize addr,
      (poolAt depth bufSize addr).cut bufSize depth.toNat) := by
  have hlen := len_poolAt depth bufSize addr
  have hround : ∀ i ∈ List.range depth.toNat,
      (poolAt depth bufSize addr).reslice (Int64.ofNat i * Int64.ofNat bufSize)
          (Int64.ofNat i * Int64.ofNat bufSize + Int64.ofNat bufSize) =
        some ((poolAt depth bufSize addr).window (i * bufSize) bufSize) := by
    intro i hi
    have hfit := Slice.cut_fits hlen (List.mem_range.mp hi)
    rw [← Int64.ofNat_mul, ← Int64.ofNat_add]
    exact Slice.reslice_ofNat (Nat.le_trans hfit (poolAt depth bufSize addr).len_le) (by omega)
  rw [allocBuffers, alignedAlloc_poolSize depth bufSize addr hlt]
  change Option.bind (List.mapM _ _) _ = _
  rw [mapM_eq_some hround]
  rfl

/-- **The buffers partition an aligned pool.** -/
theorem allocBuffers_partition (hdepth : depth.toNat ≤ 4096) (hbuf : bufSize ≤ 2 ^ 20) :
    ∃ raw pool bufs, Slice.make (poolSize depth bufSize + 4096) addr = some raw ∧
      raw.addr = addr.toNat ∧ raw.len = depth.toNat * bufSize + 4096 ∧
      alignedAlloc (poolSize depth bufSize) 4096 addr = some pool ∧
      pool.len = depth.toNat * bufSize ∧ pool.bytes ⊆ raw.bytes ∧ 4096 ∣ pool.addr ∧
      allocBuffers depth bufSize addr = some (pool, bufs) ∧
      bufs.length = depth.toNat ∧ (∀ b ∈ bufs, b.len = bufSize) ∧ pool.Partition bufs ∧
      (4096 ∣ bufSize → ∀ b ∈ bufs, 4096 ∣ b.addr) := by
  have hpool := Nat.mul_le_mul hdepth hbuf
  have hlt : depth.toNat * bufSize + 4096 < 2 ^ 63 := by omega
  have hlen := len_poolAt depth bufSize addr
  have hdvd := dvd_addr_alignedAt (depth.toNat * bufSize) addr (show 0 < 4096 by decide)
  refine ⟨Slice.whole addr.toNat (depth.toNat * bufSize + 4096), poolAt depth bufSize addr,
    (poolAt depth bufSize addr).cut bufSize depth.toNat, ?_, rfl, rfl,
    alignedAlloc_poolSize depth bufSize addr hlt, hlen, alignedAt_subset _ addr (by decide), hdvd,
    allocBuffers_eq depth bufSize addr hlt, ?_, ?_, Slice.partition_cut hlen, ?_⟩
  · have hsum : poolSize depth bufSize + 4096 = Int64.ofNat (depth.toNat * bufSize + 4096) := by
      rw [poolSize_eq, Int64.ofNat_add]
      rfl
    rw [hsum, Slice.make_ofNat hlt]
  · rw [Slice.cut, List.length_map, List.length_range]
  · intro b hb
    obtain ⟨i, hi, rfl⟩ := Slice.mem_cut.mp hb
    exact Slice.len_window (Nat.le_trans (Slice.cut_fits hlen hi) (Slice.len_le _))
  · intro hpage b hb
    obtain ⟨i, hi, rfl⟩ := Slice.mem_cut.mp hb
    exact Nat.dvd_add hdvd (Nat.dvd_mul_left_of_dvd hpage i)

end

/-- Three buffers of a page, in an allocation that starts one byte into a page. -/
theorem allocBuffers_partition_pages :
    ∃ pool bufs, allocBuffers 3 4096 0xc000000001 = some (pool, bufs) ∧
      bufs.map Slice.addr = [0xc000001000, 0xc000002000, 0xc000003000] ∧
      pool.Partition bufs ∧ ∀ b ∈ bufs, 4096 ∣ b.addr := by
  obtain ⟨raw, pool, bufs, -, -, -, -, -, -, -, halloc, -, -, hpart, hpages⟩ :=
    allocBuffers_partition 3 4096 0xc000000001 (by decide) (by decide)
  have haddr : (allocBuffers 3 4096 0xc000000001).map (fun r => r.2.map Slice.addr) =
      some [0xc000001000, 0xc000002000, 0xc000003000] := by decide +kernel
  rw [halloc] at haddr
  exact ⟨pool, bufs, halloc, Option.some.inj haddr, hpart, hpages (by decide)⟩

/-! ## The worker's buffers -/

namespace Worker
variable {addr : UInt64} {pool : Slice} {bufs : List Slice}

/-- `bufAddr` is where `allocBuffers` puts the buffers, for every worker that keeps the pool. -/
theorem map_addr_bufs (w : Worker) (hbuf : w.bufSize ≤ 2 ^ 20)
    (h : allocBuffers w.depth w.bufSize addr = some (pool, bufs)) (hpool : w.pool = pool.addr) :
    bufs.map Slice.addr = (List.range w.depth.toNat).map w.bufAddr := by
  have hle := Nat.mul_le_mul w.depth_le hbuf
  rw [maxQueueDepth] at hle
  rw [allocBuffers_eq _ _ addr (by omega)] at h
  cases h
  rw [Slice.cut, List.map_map]
  refine List.map_congr_left fun i _ => ?_
  rw [bufAddr, hpool]
  rfl

/-- The worker of an accepted configuration has its buffers where `allocBuffers` puts them, if
the allocation ends within the address space. -/
theorem exists_of_allocBuffers {c : Config} {size : UInt64} (hv : c.Valid size) {bufSize : Nat}
    (hsize : bufSize = bufSizeOf c (pageRound c.maxIOSize)) (qid : UInt16) (charFD : Int32)
    (hroom : addr.toNat + (c.queueDepth.toNat * bufSize + 4096) ≤ 2 ^ 64) :
    ∃ w : Worker, w.qid = qid ∧ w.charFD = charFD ∧ w.depth = c.queueDepth ∧ w.bufSize = bufSize ∧
      ∃ pool bufs, allocBuffers w.depth w.bufSize addr = some (pool, bufs) ∧
        pool.Partition bufs ∧ bufs.map Slice.addr = (List.range w.depth.toNat).map w.bufAddr := by
  obtain ⟨hpos, -, hle⟩ := bufSizeOf_pageRound hv
  rw [← hsize] at hpos hle
  have hdepth : 0 < c.queueDepth.toNat := UInt16.le_iff_toNat_le.mp (UInt16.not_lt.mp hv.depth_ge)
  have hpad := padding_lt addr.toNat (show 0 < 4096 by decide)
  have hprod := Nat.mul_le_mul hv.depth_le hle
  rw [maxQueueDepth] at hprod
  have hfit : (poolAt c.queueDepth bufSize addr).addr + c.queueDepth.toNat * bufSize ≤ 2 ^ 64 := by
    change addr.toNat + padding addr.toNat 4096 + _ ≤ _
    omega
  let w : Worker := ⟨qid, c.queueDepth, bufSize, charFD, (poolAt c.queueDepth bufSize addr).addr,
    hdepth, hv.depth_le, hpos, hfit⟩
  have halloc := allocBuffers_eq c.queueDepth bufSize addr (by omega)
  exact ⟨w, rfl, rfl, rfl, rfl, _, _, halloc, Slice.partition_cut (len_poolAt _ _ _),
    map_addr_bufs w hle halloc rfl⟩

end Worker
end Ublk
