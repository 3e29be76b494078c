import Mathlib.Data.Nat.Bitwise
import UblkProof.DeviceConfig

/-! # Serving one request

`worker.handleIO` decodes a descriptor, checks its length against the buffer where data
passes through one, makes at most one backend call and turns the reply into the result
that is committed to the kernel.

A backend is any implementation of the Go interfaces over some state; the optional
capabilities may be missing.  Indexing and slicing panic in Go when out of range, so the
model returns `none` there.  `handleIO_serves` is the agreement between the limits
`setParams` advertises and the requests `handleIO` accepts.
-/
namespace Ublk

/-! ## Backends -/

/-- What a backend method returns: a count and an error. -/
structure Reply where
  n : Int
  err : Option String
  deriving DecidableEq

/-- `ZeroFlags`. -/
abbrev ZeroFlags := UInt8

/-- `ZeroNoUnmap`: the range has to stay allocated. -/
def zeroNoUnmap : ZeroFlags := 1

/-- A backend over states `β`.  `readAt` receives the buffer as it is and returns it as
it leaves it. -/
structure Backend (β : Type) where
  readAt : β → List UInt8 → Int64 → Reply × List UInt8 × β
  writeAt : β → List UInt8 → Int64 → Reply × β
  discardAt : Option (β → Int64 → Int64 → Reply × β)
  writeZeroesAt : Option (β → Int64 → Int64 → ZeroFlags → Reply × β)

/-- A call of a backend method with its arguments. -/
inductive BackendCall
  | readAt (p : List UInt8) (off : Int64)
  | writeAt (p : List UInt8) (off : Int64)
  | discardAt (off length : Int64)
  | writeZeroesAt (off length : Int64) (flags : ZeroFlags)
  deriving DecidableEq

namespace Backend
variable {β : Type} (bk : Backend β)

/-- Which optional interfaces the backend implements. -/
def caps : Capabilities := ⟨bk.discardAt.isSome, bk.writeZeroesAt.isSome⟩

/-- The backend's reply to a call in state `b`, if it has the method. -/
def answer (b : β) : BackendCall → Option Reply
  | .readAt p off => some (bk.readAt b p off).1
  | .writeAt p off => some (bk.writeAt b p off).1
  | .discardAt off length => bk.discardAt.map fun f => (f b off length).1
  | .writeZeroesAt off length flags => bk.writeZeroesAt.map fun f => (f b off length flags).1

end Backend

/-! ## The request handler -/

/-- The outcome of `handleIO`: the result, the tag's buffer and the backend afterwards,
and the calls made with their replies. -/
structure Handled (β : Type) where
  result : Int32
  buf : List UInt8
  backend : β
  calls : List (BackendCall × Reply)

/-- `err != nil || n != length`, then `int32(n)`. -/
def ioResult (length : Nat) (r : Reply) : Int32 :=
  if r.err.isSome ∨ r.n ≠ length then -eio else Int32.ofInt r.n

/-- `buf[:length]`, within the tag's own buffer. -/
def sliceTo (buf : List UInt8) (length : Nat) : Option (List UInt8) :=
  if length ≤ buf.length then some (buf.take length) else none

/-- The memory of a slice after a callee that was given `old` left `new` in it. -/
def overwrite (old new : List UInt8) : List UInt8 := new.take old.length ++ old.drop new.length

namespace IODesc

/-- The low byte of `opFlags`. -/
def op (d : IODesc) : UInt32 := d.opFlags &&& 0xFF

/-- `int64(StartSector) * 512`, which wraps. -/
def offset (d : IODesc) : Int64 := d.startSector.toInt64 * 512

/-- `int(NrSectors) * 512`, which fits a 64-bit `int`. -/
def length (d : IODesc) : Nat := d.nrSectors.toNat * 512

/-- What `WriteZeroesAt` is told. -/
def zeroFlags (d : IODesc) : ZeroFlags :=
  if d.opFlags &&& ioFlagNoUnmap ≠ 0 then 0 ||| zeroNoUnmap else 0

end IODesc

section
variable {β : Type}

/-- `none` is a slice out of range. -/
def handleIO (bk : Backend β) (bufSize : Nat) (desc : IODesc) (buf : List UInt8) (b : β) :
    Option (Handled β) :=
  if desc.op = opRead then
    if desc.length = 0 then
      some ⟨0, buf, b, []⟩
    else if desc.length > bufSize then
      some ⟨-eio, buf, b, []⟩
    else
      (sliceTo buf desc.length).map fun p =>
        let (reply, p', b') := bk.readAt b p desc.offset
        ⟨ioResult desc.length reply, overwrite p p' ++ buf.drop desc.length, b',
          [(.readAt p desc.offset, reply)]⟩
  else if desc.op = opWrite then
    if desc.length = 0 then
      some ⟨0, buf, b, []⟩
    else if desc.length > bufSize then
      some ⟨-eio, buf, b, []⟩
    else
      (sliceTo buf desc.length).map fun p =>
        let (reply, b') := bk.writeAt b p desc.offset
        ⟨ioResult desc.length reply, buf, b', [(.writeAt p desc.offset, reply)]⟩
  else if desc.op = opDiscard then
    match bk.discardAt with
    | none => some ⟨-eopnotsupp, buf, b, []⟩
    | some discardAt =>
        if desc.length = 0 then
          some ⟨0, buf, b, []⟩
        else
          let len := Int64.ofNat desc.length
          let (reply, b') := discardAt b desc.offset len
          some ⟨ioResult desc.length reply, buf, b', [(.discardAt desc.offset len, reply)]⟩
  else if desc.op = opWriteZeroes then
    match bk.writeZeroesAt with
    | none => some ⟨-eopnotsupp, buf, b, []⟩
    | some writeZeroesAt =>
        if desc.length = 0 then
          some ⟨0, buf, b, []⟩
        else
          let len := Int64.ofNat desc.length
          let (reply, b') := writeZeroesAt b desc.offset len desc.zeroFlags
          some ⟨ioResult desc.length reply, buf, b',
            [(.writeZeroesAt desc.offset len desc.zeroFlags, reply)]⟩
  else
    some ⟨-eopnotsupp, buf, b, []⟩

/-! ## One equation for each operation that reaches the backend -/

variable {bk : Backend β} {bufSize : Nat} {d : IODesc} {buf : List UInt8} {b : β}

theorem sliceTo_of_le (h : d.length ≤ bufSize) (hbuf : buf.length = bufSize) :
    sliceTo buf d.length = some (buf.take d.length) := by
  rw [sliceTo, if_pos (hbuf ▸ h)]

theorem handleIO_read (hop : d.op = opRead) (h0 : d.length ≠ 0) (hle : d.length ≤ bufSize)
    (hbuf : buf.length = bufSize) :
    handleIO bk bufSize d buf b =
      some ⟨ioResult d.length (bk.readAt b (buf.take d.length) d.offset).1,
        overwrite (buf.take d.length) (bk.readAt b (buf.take d.length) d.offset).2.1 ++
          buf.drop d.length,
        (bk.readAt b (buf.take d.length) d.offset).2.2,
        [(.readAt (buf.take d.length) d.offset,
          (bk.readAt b (buf.take d.length) d.offset).1)]⟩ := by
  unfold handleIO
  rw [if_pos hop, if_neg h0, if_neg (Nat.not_lt.mpr hle), sliceTo_of_le hle hbuf]
  rfl

theorem handleIO_write (hop : d.op = opWrite) (h0 : d.length ≠ 0) (hle : d.length ≤ bufSize)
    (hbuf : buf.length = bufSize) :
    handleIO bk bufSize d buf b =
      some ⟨ioResult d.length (bk.writeAt b (buf.take d.length) d.offset).1, buf,
        (bk.writeAt b (buf.take d.length) d.offset).2,
        [(.writeAt (buf.take d.length) d.offset,
          (bk.writeAt b (buf.take d.length) d.offset).1)]⟩ := by
  unfold handleIO
  rw [if_neg (by rw [hop]; decide), if_pos hop, if_neg h0, if_neg (Nat.not_lt.mpr hle),
    sliceTo_of_le hle hbuf]
  rfl

theorem handleIO_discard (hop : d.op = opDiscard) (h0 : d.length ≠ 0)
    {f : β → Int64 → Int64 → Reply × β} (hf : bk.discardAt = some f) :
    handleIO bk bufSize d buf b =
      some ⟨ioResult d.length (f b d.offset (Int64.ofNat d.length)).1, buf,
        (f b d.offset (Int64.ofNat d.length)).2,
        [(.discardAt d.offset (Int64.ofNat d.length),
          (f b d.offset (Int64.ofNat d.length)).1)]⟩ := by
  unfold handleIO
  rw [if_neg (by rw [hop]; decide), if_neg (by rw [hop]; decide), if_pos hop, hf]
  simp only [if_neg h0]

theorem handleIO_writeZeroes (hop : d.op = opWriteZeroes) (h0 : d.length ≠ 0)
    {f : β → Int64 → Int64 → ZeroFlags → Reply × β} (hf : bk.writeZeroesAt = some f) :
    handleIO bk bufSize d buf b =
      some ⟨ioResult d.length (f b d.offset (Int64.ofNat d.length) d.zeroFlags).1, buf,
        (f b d.offset (Int64.ofNat d.length) d.zeroFlags).2,
        [(.writeZeroesAt d.offset (Int64.ofNat d.length) d.zeroFlags,
          (f b d.offset (Int64.ofNat d.length) d.zeroFlags).1)]⟩ := by
  unfold handleIO
  rw [if_neg (by rw [hop]; decide), if_neg (by rw [hop]; decide),
    if_neg (by rw [hop]; decide), if_pos hop, hf]
  simp only [if_neg h0]

/-! ## The result, from the request and the replies to it -/

/-- The result of a request for which no backend method is called: an empty one, one that
is longer than the buffer, or one the backend has no method for. -/
def unserved (caps : Capabilities) (bufSize : Nat) (d : IODesc) : Option Int32 :=
  if d.op = opRead ∨ d.op = opWrite then
    if d.length = 0 then some 0 else if d.length > bufSize then some (-eio) else none
  else if (d.op = opDiscard ∧ caps.discarder) ∨ (d.op = opWriteZeroes ∧ caps.zeroer) then
    if d.length = 0 then some 0 else none
  else
    some (-eopnotsupp)

theorem unserved_of_other {caps : Capabilities} (hr : ¬ d.op = opRead) (hw : ¬ d.op = opWrite) :
    unserved caps bufSize d =
      if (d.op = opDiscard ∧ caps.discarder) ∨ (d.op = opWriteZeroes ∧ caps.zeroer) then
        if d.length = 0 then some 0 else none
      else some (-eopnotsupp) :=
  if_neg (not_or.mpr ⟨hr, hw⟩)

theorem handleIO_calls {out : Handled β} (h : handleIO bk bufSize d buf b = some out) :
    (out.calls = [] ∧ unserved bk.caps bufSize d = some out.result) ∨
      (unserved bk.caps bufSize d = none ∧
        ∃ c r, out.calls = [(c, r)] ∧ out.result = ioResult d.length r) := by
  have hdz : opDiscard ≠ opWriteZeroes := by decide
  unfold handleIO at h
  split_ifs at h with hr h0 hle hw h0 hle hd h0 hz h0
  · cases h; exact Or.inl ⟨rfl, by simp [unserved, hr, h0]⟩
  · cases h; exact Or.inl ⟨rfl, by simp [unserved, hr, h0, hle]⟩
  · obtain ⟨p, -, rfl⟩ := Option.map_eq_some_iff.mp h
    exact Or.inr ⟨by simp [unserved, hr, h0, hle], _, _, rfl, rfl⟩
  · cases h; exact Or.inl ⟨rfl, by simp [unserved, hw, h0]⟩
  · cases h; exact Or.inl ⟨rfl, by simp [unserved, hw, h0, hle]⟩
  · obtain ⟨p, -, rfl⟩ := Option.map_eq_some_iff.mp h
    exact Or.inr ⟨by simp [unserved, hw, h0, hle], _, _, rfl, rfl⟩
  all_goals rw [unserved_of_other hr hw]
  · cases hf : bk.discardAt <;> rw [hf] at h <;> cases h <;>
      exact Or.inl ⟨rfl, by simp [hd, h0, hdz, Backend.caps, hf]⟩
  · cases hf : bk.discardAt <;> rw [hf] at h <;> cases h
    · exact Or.inl ⟨rfl, by simp [hd, hdz, Backend.caps, hf]⟩
    · exact Or.inr ⟨by simp [hd, h0, Backend.caps, hf], _, _, rfl, rfl⟩
  · cases hf : bk.writeZeroesAt <;> rw [hf] at h <;> cases h <;>
      exact Or.inl ⟨rfl, by simp [hz, h0, hdz.symm, Backend.caps, hf]⟩
  · cases hf : bk.writeZeroesAt <;> rw [hf] at h <;> cases h
    · exact Or.inl ⟨rfl, by simp [hz, hdz.symm, Backend.caps, hf]⟩
    · exact Or.inr ⟨by simp [hz, h0, Backend.caps, hf], _, _, rfl, rfl⟩
  · cases h; exact Or.inl ⟨rfl, by simp [hd, hz]⟩

/-- **Equal requests and equal replies give equal results**, whatever else the two backends
do, and whatever the buffers hold. -/
theorem handleIO_result_congr {β' : Type} {bk' : Backend β'} (hcaps : bk'.caps = bk.caps)
    {out : Handled β} (h : handleIO bk bufSize d buf b = some out) {buf' : List UInt8} {b' : β'}
    {out' : Handled β'} (h' : handleIO bk' bufSize d buf' b' = some out')
    (hr : out.calls.map Prod.snd = out'.calls.map Prod.snd) : out.result = out'.result := by
  rcases handleIO_calls h with ⟨-, hu⟩ | ⟨hu, c, r, hc, hres⟩ <;>
    rcases handleIO_calls h' with ⟨-, hu'⟩ | ⟨hu', c', r', hc', hres'⟩ <;>
    rw [hcaps, hu] at hu'
  · exact Option.some.inj hu'
  · cases hu'
  · cases hu'
  · rw [hc, hc'] at hr
    obtain rfl : r = r' := by simpa using hr
    rw [hres, hres']

/-! ## Requests the library invited -/

/-- A descriptor that is legal under the advertised parameters.  The flag bits above the
low eight are arbitrary. -/
def Invited (p : UblkParams) (d : IODesc) : Prop :=
  ((d.op = opRead ∨ d.op = opWrite) ∧ 0 < d.nrSectors ∧ d.nrSectors ≤ p.basic.maxSectors) ∨
  (d.op = opDiscard ∧ p.discard.maxDiscardSectors ≠ 0 ∧
    d.nrSectors ≤ p.discard.maxDiscardSectors) ∨
  (d.op = opWriteZeroes ∧ p.discard.maxWriteZeroesSectors ≠ 0 ∧
    d.nrSectors ≤ p.discard.maxWriteZeroesSectors)

instance (p : UblkParams) : DecidablePred (Invited p) :=
  fun _ => inferInstanceAs (Decidable (_ ∨ _ ∨ _))

/-- The call is the one for the descriptor's operation, over `nrSectors * 512` bytes. -/
def BackendCall.Serves (d : IODesc) : BackendCall → Prop
  | .readAt p off => d.op = opRead ∧ p.length = d.nrSectors.toNat * 512 ∧ off = d.offset
  | .writeAt p off => d.op = opWrite ∧ p.length = d.nrSectors.toNat * 512 ∧ off = d.offset
  | .discardAt off length =>
      d.op = opDiscard ∧ length.toInt = d.nrSectors.toNat * 512 ∧ off = d.offset
  | .writeZeroesAt off length flags =>
      d.op = opWriteZeroes ∧ length.toInt = d.nrSectors.toNat * 512 ∧ off = d.offset ∧
        flags = if d.opFlags.toNat.testBit 15 then zeroNoUnmap else 0

/-- Bit 15 of the descriptor's flags, and nothing else, sets `ZeroNoUnmap`. -/
theorem IODesc.zeroFlags_eq (d : IODesc) :
    d.zeroFlags = if d.opFlags.toNat.testBit 15 then zeroNoUnmap else 0 := by
  have hbit : d.opFlags &&& ioFlagNoUnmap ≠ 0 ↔ d.opFlags.toNat.testBit 15 = true := by
    have hval : (d.opFlags &&& ioFlagNoUnmap).toNat = d.opFlags.toNat &&& 2 ^ 15 := by
      rw [UInt32.toNat_and]; rfl
    rw [ne_eq, ← UInt32.toNat_inj, hval, Nat.and_two_pow]
    cases d.opFlags.toNat.testBit 15 <;> decide
  unfold IODesc.zeroFlags
  split_ifs with h1 h2 h2
  · rfl
  · exact absurd (hbit.mp h1) h2
  · exact absurd (hbit.mpr h2) h1
  · rfl

/-- No advertised request is longer than a gibibyte: the buffer is at most one mebibyte,
the other operations have their own limit. -/
theorem Invited.length_le {cfg : Config} {size : UInt64} (hv : cfg.Valid size) {m : UInt32}
    (hm : m = 0 ∨ m ≤ cfg.maxIOSize) {caps : Capabilities}
    (hd : Invited (setParams caps size cfg (maxSectorsOf (bufSizeOf cfg m))) d) :
    d.length ≤ 2 ^ 30 ∧ (d.op = opRead ∨ d.op = opWrite → d.length ≤ bufSizeOf cfg m) := by
  have hbs := bufSizeOf_le hv hm
  have hsect : maxSect.toNat = 2 ^ 21 := rfl
  unfold IODesc.length
  rcases hd with ⟨-, -, hle⟩ | ⟨hop, hne, hle⟩ | ⟨hop, hne, hle⟩
  · rw [setParams_maxSectors, UInt32.le_iff_toNat_le] at hle
    have hfit := maxSectorsOf_mul_le (bufSizeOf cfg m) (Nat.lt_of_le_of_lt hbs (by decide))
    have h := Nat.le_trans (Nat.mul_le_mul_right 512 hle) hfit
    exact ⟨Nat.le_trans h (Nat.le_trans hbs (by decide)), fun _ => h⟩
  · rw [setParams_maxDiscardSectors] at hne hle
    split_ifs at hne hle
    · rw [UInt32.le_iff_toNat_le, hsect] at hle
      refine ⟨by omega, ?_⟩
      rw [hop]
      exact fun h => absurd h (by decide)
    · exact absurd rfl hne
  · rw [setParams_maxWriteZeroesSectors] at hne hle
    split_ifs at hne hle
    · rw [UInt32.le_iff_toNat_le, hsect] at hle
      refine ⟨by omega, ?_⟩
      rw [hop]
      exact fun h => absurd h (by decide)
    · exact absurd rfl hne

/-- The result of a call: the length for a full reply, `-EIO` for any other. -/
theorem ioResult_iff {length : Nat} (hle : length ≤ 2 ^ 30) (r : Reply) :
    ((ioResult length r).toInt = length ↔ r = ⟨length, none⟩) ∧
      (r ≠ ⟨length, none⟩ → ioResult length r = -eio) := by
  have hok : (Int32.ofInt length).toInt = length :=
    Int32.toInt_ofInt_of_le (by omega) (by omega)
  have hneg : ((-eio : Int32)).toInt = -5 := by decide
  by_cases h : r.err.isSome ∨ r.n ≠ length
  · have hr : r ≠ ⟨length, none⟩ := by
      rintro rfl
      simp at h
    rw [ioResult, if_pos h, hneg]
    refine ⟨⟨fun he => by omega, fun he => absurd he hr⟩, fun _ => rfl⟩
  · obtain ⟨herr, hn⟩ := not_or.mp h
    have hr : r = ⟨length, none⟩ := by
      cases r with | mk n err =>
        cases err with
        | none => exact congrArg (Reply.mk · none) (not_not.mp hn)
        | some e => exact absurd rfl herr
    subst hr
    rw [ioResult, if_neg h]
    exact ⟨⟨fun _ => rfl, fun _ => hok⟩, fun hne => absurd rfl hne⟩

theorem ioResult_ne {length : Nat} (hle : length ≤ 2 ^ 30) (r : Reply) :
    ioResult length r ≠ -eopnotsupp := by
  intro he
  obtain ⟨hfull, hother⟩ := ioResult_iff hle r
  by_cases hr : r = ⟨length, none⟩
  · have h := hfull.mpr hr
    rw [he, show ((-eopnotsupp : Int32)).toInt = -95 from by decide] at h
    omega
  · rw [hother hr] at he
    exact absurd he (by decide)

theorem IODesc.length_eq_zero_iff (d : IODesc) : d.length = 0 ↔ d.nrSectors = 0 := by
  rw [IODesc.length, ← UInt32.toNat_inj]
  constructor
  · intro h
    exact (Nat.mul_eq_zero.mp h).resolve_right (by decide)
  · intro h
    rw [h]
    rfl

/-- A zero-length request of the two operations without a buffer. -/
theorem handleIO_zero (h0 : d.length = 0)
    (hop : (d.op = opDiscard ∧ bk.discardAt.isSome) ∨
      (d.op = opWriteZeroes ∧ bk.writeZeroesAt.isSome)) :
    handleIO bk bufSize d buf b = some ⟨0, buf, b, []⟩ := by
  rcases hop with ⟨hop, hf⟩ | ⟨hop, hf⟩
  · obtain ⟨f, hf⟩ := Option.isSome_iff_exists.mp hf
    unfold handleIO
    rw [if_neg (by rw [hop]; decide), if_neg (by rw [hop]; decide), if_pos hop, hf]
    simp only [if_pos h0]
  · obtain ⟨f, hf⟩ := Option.isSome_iff_exists.mp hf
    unfold handleIO
    rw [if_neg (by rw [hop]; decide), if_neg (by rw [hop]; decide),
      if_neg (by rw [hop]; decide), if_pos hop, hf]
    simp only [if_pos h0]

/-- An advertised limit means the capability is there. -/
theorem Invited.hasMethod {cfg : Config} {size : UInt64} {maxSectors : UInt32}
    (hd : Invited (setParams bk.caps size cfg maxSectors) d) :
    (d.op = opDiscard → bk.discardAt.isSome) ∧
      (d.op = opWriteZeroes → bk.writeZeroesAt.isSome) := by
  rcases hd with ⟨hop, -⟩ | ⟨hop, hne, -⟩ | ⟨hop, hne, -⟩
  · constructor <;> intro h <;> rw [h] at hop <;> exact absurd hop (by decide)
  · rw [setParams_maxDiscardSectors] at hne
    refine ⟨fun _ => ?_, fun h => by rw [h] at hop; exact absurd hop (by decide)⟩
    split_ifs at hne with hc
    · exact hc
    · exact absurd rfl hne
  · rw [setParams_maxWriteZeroesSectors] at hne
    refine ⟨fun h => by rw [h] at hop; exact absurd hop (by decide), fun _ => ?_⟩
    split_ifs at hne with hc
    · exact hc
    · exact absurd rfl hne

/-- **Every invited request that asks for data makes the one call for its operation.** -/
theorem handleIO_one_call {cfg : Config} {size : UInt64} (hv : cfg.Valid size) {m : UInt32}
    (hm : m = 0 ∨ m ≤ cfg.maxIOSize)
    (hd : Invited (setParams bk.caps size cfg (maxSectorsOf (bufSizeOf cfg m))) d)
    (hbuf : buf.length = bufSizeOf cfg m) (h0 : d.length ≠ 0) :
    ∃ out call reply, handleIO bk (bufSizeOf cfg m) d buf b = some out ∧
      out.calls = [(call, reply)] ∧ call.Serves d ∧ bk.answer b call = some reply ∧
      out.result = ioResult d.length reply := by
  obtain ⟨hle, hbufle⟩ := Invited.length_le hv hm hd
  obtain ⟨hdisc, hzero⟩ := hd.hasMethod
  have hlen64 : (Int64.ofNat d.length).toInt = d.nrSectors.toNat * 512 := by
    rw [Int64.toInt_ofNat_of_lt (Nat.lt_of_le_of_lt hle (by decide)), IODesc.length]
    push_cast
    rfl
  have htake : d.length ≤ bufSizeOf cfg m →
      (buf.take d.length).length = d.nrSectors.toNat * 512 := by
    intro h
    rw [List.length_take, hbuf, Nat.min_eq_left h]
    rfl
  rcases hd with ⟨hop | hop, -, -⟩ | ⟨hop, -, -⟩ | ⟨hop, -, -⟩
  · have h := hbufle (Or.inl hop)
    exact ⟨_, _, _, handleIO_read hop h0 h hbuf, rfl, ⟨hop, htake h, rfl⟩, rfl, rfl⟩
  · have h := hbufle (Or.inr hop)
    exact ⟨_, _, _, handleIO_write hop h0 h hbuf, rfl, ⟨hop, htake h, rfl⟩, rfl, rfl⟩
  · obtain ⟨f, hf⟩ := Option.isSome_iff_exists.mp (hdisc hop)
    refine ⟨_, _, _, handleIO_discard hop h0 hf, rfl, ⟨hop, hlen64, rfl⟩, ?_, rfl⟩
    rw [Backend.answer, hf]
    rfl
  · obtain ⟨f, hf⟩ := Option.isSome_iff_exists.mp (hzero hop)
    refine ⟨_, _, _, handleIO_writeZeroes hop h0 hf, rfl,
      ⟨hop, hlen64, rfl, d.zeroFlags_eq⟩, ?_, rfl⟩
    rw [Backend.answer, hf]
    rfl

/-- **A request the library invited is served by one call of the method for its
operation**, and never refused; a request for no sectors at all, which only `DISCARD` and
`WRITE_ZEROES` can be, succeeds without a call. -/
theorem handleIO_serves (bk : Backend β) (cfg : Config) (size : UInt64)
    (hv : cfg.validate size = .ok ()) (m : UInt32) (hm : m = 0 ∨ m ≤ cfg.maxIOSize) (d : IODesc)
    (hd : Invited (setParams bk.caps size cfg (maxSectorsOf (bufSizeOf cfg m))) d)
    (buf : List UInt8) (hbuf : buf.length = bufSizeOf cfg m) (b : β) :
    ∃ out, handleIO bk (bufSizeOf cfg m) d buf b = some out ∧ out.result ≠ -eopnotsupp ∧
      (d.nrSectors = 0 → out.calls = [] ∧ out.result = 0) ∧
      (d.nrSectors ≠ 0 → ∃ call reply, out.calls = [(call, reply)] ∧ call.Serves d ∧
        bk.answer b call = some reply ∧
        (out.result.toInt = d.nrSectors.toNat * 512 ↔
          reply = ⟨d.nrSectors.toNat * 512, none⟩) ∧
        (reply ≠ ⟨d.nrSectors.toNat * 512, none⟩ → out.result = -eio)) := by
  have hvalid := Config.valid_of_validate hv
  have hle := (Invited.length_le hvalid hm hd).1
  by_cases h0 : d.length = 0
  · have hz := d.length_eq_zero_iff.mp h0
    have hop : (d.op = opDiscard ∧ bk.discardAt.isSome) ∨
        (d.op = opWriteZeroes ∧ bk.writeZeroesAt.isSome) := by
      obtain ⟨hdisc, hzero⟩ := hd.hasMethod
      rcases hd with ⟨-, hpos, -⟩ | ⟨hop, -⟩ | ⟨hop, -⟩
      · rw [hz] at hpos; exact absurd hpos (by decide)
      · exact Or.inl ⟨hop, hdisc hop⟩
      · exact Or.inr ⟨hop, hzero hop⟩
    exact ⟨_, handleIO_zero h0 hop, show (0 : Int32) ≠ -eopnotsupp by decide,
      fun _ => ⟨rfl, rfl⟩, fun h => absurd hz h⟩
  · obtain ⟨out, call, reply, hout, hcalls, hserves, hans, hres⟩ :=
      handleIO_one_call (b := b) hvalid hm hd hbuf h0
    refine ⟨out, hout, hres ▸ ioResult_ne hle reply,
      fun h => absurd (d.length_eq_zero_iff.mpr h) h0,
      fun _ => ⟨call, reply, hcalls, hserves, hans, ?_⟩⟩
    have hcast : ((d.length : Nat) : Int) = d.nrSectors.toNat * 512 := by
      rw [IODesc.length]; push_cast; rfl
    rw [hres, ← hcast]
    exact ioResult_iff hle reply

/-- A backend that answers every call in full and implements every capability. -/
def fullBackend : Backend Unit where
  readAt _ p _ := (⟨p.length, none⟩, p.map fun _ => 7, ())
  writeAt _ p _ := (⟨p.length, none⟩, ())
  discardAt := some fun _ _ length => (⟨length.toInt, none⟩, ())
  writeZeroesAt := some fun _ _ length _ => (⟨length.toInt, none⟩, ())

/-- A write of zeroes over one GiB, with bit 15 and some other flag bits set. -/
theorem handleIO_serves_gib :
    ∃ out, handleIO fullBackend (bufSizeOf Config.default 0) ⟨0xFF8005, 0x200000, 0, 0⟩
        (List.replicate 131072 0) () = some out ∧ out.result ≠ -eopnotsupp := by
  obtain ⟨out, hout, hne, -⟩ := handleIO_serves fullBackend Config.default 0x80000000
    (by decide +kernel) 0 (Or.inl rfl) ⟨0xFF8005, 0x200000, 0, 0⟩ (by decide +kernel)
    (List.replicate 131072 0) (by rw [List.length_replicate]; decide +kernel) ()
  exact ⟨out, hout, hne⟩

/-- **A `DISCARD` of no sectors is within the advertised limit, and no backend method is
called for it.** -/
theorem handleIO_zero_sectors_no_call :
    Config.default.validate 0x80000000 = .ok () ∧
    Invited (setParams fullBackend.caps 0x80000000 Config.default
      (maxSectorsOf (bufSizeOf Config.default 0))) ⟨3, 0, 0, 0⟩ ∧
    ∃ out, handleIO fullBackend (bufSizeOf Config.default 0) ⟨3, 0, 0, 0⟩
      (List.replicate 131072 0) () = some out ∧ out.calls = [] := by
  refine ⟨by decide +kernel, by decide +kernel, _,
    handleIO_zero (by decide) (Or.inl ⟨by decide, rfl⟩), rfl⟩

end
end Ublk
