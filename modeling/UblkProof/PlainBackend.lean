import UblkProof.AnyBackend

/-! # Backends without the optional capabilities

A backend that only reads and writes: what the kernel sends to its device, and what each request
does, said in terms of the one call of `ReadAt` or `WriteAt` it leads to.
-/
namespace Ublk

/-- What `New` advertises for a backend without the optional capabilities. -/
def ArrayDevice.plainParams (dev : ArrayDevice) : UblkParams :=
  setParams ⟨false, false⟩ dev.size dev.cfg (maxSectorsOf dev.bufSize)

section
variable {dev : ArrayDevice} {req : Request}

/-- The kernel sends reads and writes only, as to any device of this geometry. -/
theorem ArrayDevice.plain_admissible (h : req.Admissible dev.plainParams) :
    req.Admissible dev.params ∧ (req.desc.op = opRead ∨ req.desc.op = opWrite) := by
  rcases h.invited with ⟨hop, hpos, hle⟩ | ⟨-, hne, -⟩ | ⟨-, hne, -⟩
  · refine ⟨⟨.inl ⟨hop, hpos, ?_⟩, ?_, h.payload⟩, hop⟩
    · rw [plainParams, setParams_maxSectors] at hle
      rwa [params, setParams_maxSectors]
    · have hw := h.within
      rw [plainParams, setParams_devSectors] at hw
      rwa [params, setParams_devSectors]
  · rw [plainParams, setParams_maxDiscardSectors] at hne
    exact absurd rfl hne
  · rw [plainParams, setParams_maxWriteZeroesSectors] at hne
    exact absurd rfl hne

theorem ArrayDevice.fits_of_admissible (h : req.Admissible dev.params) :
    req.Fits dev.bufSize := fun hop => ⟨h.payload hop, (length_le h).2 (.inr hop)⟩

/-- A backend's reply that is not a full one. -/
theorem ioResult_failed {length : Nat} {r : Reply} (hr : r ≠ ⟨length, none⟩) :
    ioResult length r = -eio := by
  refine if_pos (or_iff_not_imp_left.mpr fun herr hn => hr ?_)
  cases r with | mk n err =>
    cases err with
    | none => exact congrArg (Reply.mk · none) hn
    | some e => exact absurd rfl herr

theorem Request.take_freshBuf_read {bufSize : Nat} (hop : req.desc.op = opRead)
    (hle : req.desc.length ≤ bufSize) :
    (req.freshBuf bufSize).take req.desc.length = List.replicate req.desc.length 0 := by
  rw [freshBuf, if_neg (by rw [hop]; decide), List.take_replicate, Nat.min_eq_left hle]

/-! ## Counters -/

/-- An `atomic.Int64` after `n` times `Add(1)`; it wraps around. -/
def counted (c : Int64) (n : Nat) : Int64 := c + Int64.ofNat n

theorem counted_zero (c : Int64) : counted c 0 = c := Int64.add_zero c

theorem counted_counted (c : Int64) (i j : Nat) : counted (counted c i) j = counted c (i + j) := by
  rw [counted, counted, counted, Int64.ofNat_add, Int64.add_assoc]

/-- `c'` is `c` after `Add(1)` has been called `n` times or more. -/
def Grown (c : Int64) (n : Nat) (c' : Int64) : Prop := ∃ m, n ≤ m ∧ c' = counted c m

theorem grown_counted (c : Int64) {m n : Nat} (h : n ≤ m) : Grown c n (counted c m) := ⟨m, h, rfl⟩

theorem Grown.refl (c : Int64) : Grown c 0 c := ⟨0, Nat.le_refl _, (counted_zero c).symm⟩

theorem Grown.trans {c c' c'' : Int64} {m n : Nat} (h : Grown c m c') (h' : Grown c' n c'') :
    Grown c (m + n) c'' := by
  obtain ⟨i, hi, rfl⟩ := h
  obtain ⟨j, hj, rfl⟩ := h'
  exact ⟨i + j, Nat.add_le_add hi hj, counted_counted c i j⟩

/-! ## One request -/

/-- A callee that returns as many bytes as it was given has replaced them all. -/
theorem overwrite_full {old new : List UInt8} (h : new.length = old.length) :
    overwrite old new = new := by
  rw [overwrite, List.take_of_length_le (Nat.le_of_eq h),
    List.drop_eq_nil_of_le (Nat.le_of_eq h.symm), List.append_nil]

section
variable {β : Type} {bk : Backend β} {init b b' : β} {r : Reply} {data : List UInt8}

/-- A plain backend serves what it invites. -/
theorem serves_plain (hbk : bk.IgnoresBuffer) (init : β) :
    Serves bk dev.bufSize (Request.Admissible dev.plainParams)
      (requestObject bk dev.bufSize init) where
  fits _ h := ArrayDevice.fits_of_admissible (ArrayDevice.plain_admissible h).1
  serve b req buf h := (serves_requestObject hbk init).serve b req buf
    (ArrayDevice.fits_of_admissible (ArrayDevice.plain_admissible h).1)

/-- A read for which `ReadAt` fills the buffer. -/
theorem requestObject_read (h : req.Admissible dev.params) (hop : req.desc.op = opRead)
    (hread : bk.readAt b (List.replicate req.desc.length 0) req.desc.offset =
      (⟨req.desc.length, none⟩, data, b')) (hdata : data.length = req.desc.length) :
    (requestObject bk dev.bufSize init).apply b req =
      (b', ⟨Int32.ofNat req.desc.length, data⟩) := by
  have hle := (ArrayDevice.length_le h).2 (.inl hop)
  have hfull : (Int32.ofNat req.desc.length).toInt = req.desc.length :=
    Int32.toInt_ofNat_of_lt (Nat.lt_of_le_of_lt (ArrayDevice.length_le h).1 (by decide))
  simp only [requestObject, handleIO_read hop (ArrayDevice.length_ne_zero h (.inl hop)) hle
    (Request.length_freshBuf (ArrayDevice.fits_of_admissible h)),
    Request.take_freshBuf_read hop hle, hread, ioResult_full, IODesc.answer, hop, hfull, and_self,
    if_true]
  rw [overwrite_full (by rw [hdata, List.length_replicate]), List.take_left' hdata]

/-- A read for which it does not. -/
theorem requestObject_read_failed (h : req.Admissible dev.params) (hop : req.desc.op = opRead)
    (hread : bk.readAt b (List.replicate req.desc.length 0) req.desc.offset = (r, data, b'))
    (hr : r ≠ ⟨req.desc.length, none⟩) :
    (requestObject bk dev.bufSize init).apply b req = (b', ⟨-eio, []⟩) := by
  have hle := (ArrayDevice.length_le h).2 (.inl hop)
  have hneg : ¬ (-eio : Int32).toInt = req.desc.length := by
    have : (-eio : Int32).toInt = -5 := by decide
    omega
  simp only [requestObject, handleIO_read hop (ArrayDevice.length_ne_zero h (.inl hop)) hle
    (Request.length_freshBuf (ArrayDevice.fits_of_admissible h)),
    Request.take_freshBuf_read hop hle, hread, ioResult_failed hr, IODesc.answer, hneg, and_false,
    if_false]

theorem requestObject_write (h : req.Admissible dev.params) (hop : req.desc.op = opWrite)
    (hwrite : bk.writeAt b req.payload req.desc.offset = (r, b')) :
    (requestObject bk dev.bufSize init).apply b req =
      (b', ⟨ioResult req.desc.length r, []⟩) := by
  have hle := (ArrayDevice.length_le h).2 (.inr hop)
  have hne : req.desc.op ≠ opRead := by rw [hop]; decide
  have hpay : (req.freshBuf dev.bufSize).take req.desc.length = req.payload := by
    rw [Request.freshBuf, if_pos hop, List.take_left' (h.payload hop)]
  simp only [requestObject, handleIO_write hop (ArrayDevice.length_ne_zero h (.inr hop)) hle
    (Request.length_freshBuf (ArrayDevice.fits_of_admissible h)), hpay, hwrite, IODesc.answer, hne,
    false_and, if_false]

end
end
end Ublk
