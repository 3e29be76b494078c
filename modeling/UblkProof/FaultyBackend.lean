import UblkProof.PlainBackend

/-! # A backend that fails

`example/fault` runs a device over a backend that fails a fraction of its calls.  What the
block layer sees of such a device: each request that failed in the backend fails, with `EIO` and
no other, and no other request fails; the requests that succeeded behave as if the failed ones
had never been sent.  The random numbers and the rates, which other goroutines may change, are
arbitrary.
-/
namespace Ublk
open Runs
open Linearization (SeqObject Linearizes history)

/-! ## The backend -/

/-- `faultyBackend`.  `draws` counts the random numbers it has drawn. -/
structure Faulty (size : Nat) where
  data : Bytes size
  draws : Nat
  reads : Int64
  writes : Int64
  readErrs : Int64
  writeErrs : Int64

/-- The results of `rand.Uint64N`, and the two rates as they are loaded next to each. -/
structure Odds where
  rand : Nat → Nat
  readFail : Nat → Nat
  writeFail : Nat → Nat

/-- `newFaulty`. -/
def newFaulty (size : Nat) : Faulty size := ⟨fun _ => 0, 0, 0, 0, 0, 0⟩

/-- The slices `b.data[off:off+len]` are in range for the requests of a device of this size. -/
def faultyBackend (size : Nat) (o : Odds) : Backend (Faulty size) where
  readAt b p off :=
    let drawn := { b with reads := b.reads + 1, draws := b.draws + 1 }
    if o.rand b.draws < o.readFail b.draws then
      (⟨0, some "input/output error"⟩, p, { drawn with readErrs := b.readErrs + 1 })
    else
      (⟨p.length, none⟩, b.data.read off.toInt.toNat p.length, drawn)
  writeAt b p off :=
    let drawn := { b with writes := b.writes + 1, draws := b.draws + 1 }
    if o.rand b.draws < o.writeFail b.draws then
      (⟨0, some "input/output error"⟩, { drawn with writeErrs := b.writeErrs + 1 })
    else
      (⟨p.length, none⟩, { drawn with data := b.data.write off.toInt.toNat p })
  discardAt := none
  writeZeroesAt := none

section
variable {dev : ArrayDevice} {o : Odds} {req : Request}

theorem faultyBackend_ignoresBuffer (size : Nat) (o : Odds) :
    (faultyBackend size o).IgnoresBuffer where
  reply b p p' off h := by
    simp only [faultyBackend, h]
    split_ifs <;> rfl
  state b p p' off _ := by
    simp only [faultyBackend]
    split_ifs <;> rfl
  data b p p' off h hfull := by
    simp only [faultyBackend] at hfull ⊢
    split_ifs at hfull ⊢
    · exact absurd (congrArg Reply.err hfull) (by simp)
    · rw [overwrite_full (Bytes.length_read ..), overwrite_full (Bytes.length_read ..), h]

/-! ## One request -/

/-- What the block layer gets for a request that failed. -/
def Response.failed (r : Response) : Bool := r = ⟨-eio, []⟩

theorem not_failed_of_full {length : Nat} (h : length ≤ 2 ^ 30) (data : List UInt8) :
    Response.failed ⟨Int32.ofNat length, data⟩ = false := by
  have hlen : (Int32.ofNat length).toInt = length :=
    Int32.toInt_ofNat_of_lt (Nat.lt_of_le_of_lt h (by decide))
  have hneg : ((-eio : Int32)).toInt = -5 := by decide
  refine decide_eq_false fun he => ?_
  have := congrArg (fun r => r.result.toInt) he
  simp only [hlen, hneg] at this
  omega

namespace Faulty
variable {init b : Faulty dev.size.toNat}

/-- The sequential object of the device. -/
abbrev object (dev : ArrayDevice) (o : Odds) (init : Faulty dev.size.toNat) :
    SeqObject (Faulty dev.size.toNat) Request Response :=
  requestObject (faultyBackend dev.size.toNat o) dev.bufSize init

theorem apply_read (h : req.Admissible dev.params) (hop : req.desc.op = opRead) :
    (object dev o init).apply b req =
      if o.rand b.draws < o.readFail b.draws then
        ({ b with reads := b.reads + 1, draws := b.draws + 1, readErrs := b.readErrs + 1 },
          ⟨-eio, []⟩)
      else
        ({ b with reads := b.reads + 1, draws := b.draws + 1 },
          ⟨Int32.ofNat req.desc.length, b.data.read req.start req.desc.length⟩) := by
  have hoff := (ArrayDevice.offset_toInt h).1
  split_ifs with hfail
  · refine requestObject_read_failed h hop (if_pos hfail) ?_
    exact fun he => nomatch congrArg Reply.err he
  · refine requestObject_read h hop ((if_neg hfail).trans ?_) (Bytes.length_read ..)
    rw [List.length_replicate, hoff, Int.toNat_natCast]

theorem apply_write (h : req.Admissible dev.params) (hop : req.desc.op = opWrite) :
    (object dev o init).apply b req =
      if o.rand b.draws < o.writeFail b.draws then
        ({ b with writes := b.writes + 1, draws := b.draws + 1, writeErrs := b.writeErrs + 1 },
          ⟨-eio, []⟩)
      else
        ({ b with
            writes := b.writes + 1
            draws := b.draws + 1
            data := b.data.write req.start req.payload },
          ⟨Int32.ofNat req.desc.length, []⟩) := by
  have hoff := (ArrayDevice.offset_toInt h).1
  split_ifs with hfail
  · rw [requestObject_write h hop (if_pos hfail)]
    rfl
  · rw [requestObject_write h hop (if_neg hfail), h.payload hop, ioResult_full, hoff,
      Int.toNat_natCast]

/-- **A failed request leaves the data alone; any other is an operation of the array.** -/
theorem apply_cases (h : req.Admissible dev.plainParams) (a : Bytes dev.size.toNat) :
    (((object dev o init).apply b req).2.failed = true →
      ((object dev o init).apply b req).1.data = b.data) ∧
    (((object dev o init).apply b req).2.failed = false →
      (blockArray a).apply b.data req =
        (((object dev o init).apply b req).1.data, ((object dev o init).apply b req).2)) := by
  obtain ⟨hadm, hop⟩ := ArrayDevice.plain_admissible h
  have hle := (ArrayDevice.length_le hadm).1
  have hfailed : Response.failed ⟨-eio, []⟩ = true := rfl
  rcases hop with hop | hop
  · rw [apply_read hadm hop]
    split_ifs
    · exact ⟨fun _ => rfl, fun hf => absurd (hfailed.symm.trans hf) (by decide)⟩
    · refine ⟨fun hf => absurd (hf.symm.trans (not_failed_of_full hle _)) (by decide), fun _ => ?_⟩
      simp only [blockArray, if_pos hop]
  · have hne : req.desc.op ≠ opRead := by rw [hop]; decide
    rw [apply_write hadm hop]
    split_ifs
    · exact ⟨fun _ => rfl, fun hf => absurd (hfailed.symm.trans hf) (by decide)⟩
    · refine ⟨fun hf => absurd (hf.symm.trans (not_failed_of_full hle _)) (by decide), fun _ => ?_⟩
      simp only [blockArray, if_neg hne, if_pos hop]

/-- The counters of the backend count what the block layer sees. -/
theorem apply_counts (h : req.Admissible dev.plainParams) :
    ((object dev o init).apply b req).1.readErrs = counted b.readErrs
      (req.desc.op = opRead ∧ ((object dev o init).apply b req).2.failed : Bool).toNat ∧
    ((object dev o init).apply b req).1.writeErrs = counted b.writeErrs
      (req.desc.op = opWrite ∧ ((object dev o init).apply b req).2.failed : Bool).toNat := by
  obtain ⟨hadm, hop⟩ := ArrayDevice.plain_admissible h
  have hle := (ArrayDevice.length_le hadm).1
  have hfailed : Response.failed ⟨-eio, []⟩ = true := rfl
  rcases hop with hop | hop
  · have hne : ¬ opRead = opWrite := by decide
    rw [apply_read hadm hop]
    split_ifs
    · simp [hop, hne, hfailed, counted]
    · simp [hop, not_failed_of_full hle, counted]
  · have hne : ¬ opWrite = opRead := by decide
    rw [apply_write hadm hop]
    split_ifs
    · simp [hop, hne, hfailed, counted]
    · simp [hop, not_failed_of_full hle, counted]

end Faulty

/-! ## The result -/

/-- `S` linearizes what the block layer saw.  Without the failed requests it is a legal sequence
of the byte array and leads to the data; the requests that failed are the calls that failed. -/
structure FaultsIsolated (dev : ArrayDevice) (o : Odds) (init : Faulty dev.size.toNat)
    (s : World (Faulty dev.size.toNat)) (S : List (Nat × Request × Response)) : Prop where
  linearizes : Linearizes (Faulty.object dev o init) (history (points s.log)) S
  legal : (blockArray init.data).Legal init.data (S.filter fun e => !e.2.2.failed)
  state : (blockArray init.data).final init.data (S.filter fun e => !e.2.2.failed) =
    s.backend.data
  readErrs : s.backend.readErrs =
    counted init.readErrs (S.countP fun e => e.2.1.desc.op = opRead ∧ e.2.2.failed)
  writeErrs : s.backend.writeErrs =
    counted init.writeErrs (S.countP fun e => e.2.1.desc.op = opWrite ∧ e.2.2.failed)
  deadReads : (∀ n, o.rand n < o.readFail n) → ∀ e ∈ S, e.2.1.desc.op = opRead → e.2.2.failed
  deadWrites : (∀ n, o.rand n < o.writeFail n) → ∀ e ∈ S, e.2.1.desc.op = opWrite → e.2.2.failed

/-- **Failures stay where they are**: whatever fails and when, in every run. -/
theorem faults_isolated (dev : ArrayDevice) (o : Odds) (w : Worker) (hbs : w.bufSize = dev.bufSize)
    (b : Worker.Boot (Faulty dev.size.toNat)) (hb : b.Fits w) (as : List Action)
    (s : World (Faulty dev.size.toNat))
    (h : w.Run (faultyBackend dev.size.toNat o) (Sends (Request.Admissible dev.plainParams)) b as
      s) : ∃ S, FaultsIsolated dev o b.backend s S := by
  have hO : Serves (faultyBackend dev.size.toNat o) w.bufSize (Request.Admissible dev.plainParams)
      (Faulty.object dev o b.backend) :=
    hbs ▸ serves_plain (faultyBackend_ignoresBuffer dev.size.toNat o) b.backend
  obtain ⟨S, hS⟩ := hO.refines hb rfl h
  have hlegal := hS.linearizes.legal
  have hdata := SeqObject.legal_filter (Faulty.object dev o b.backend)
    (blockArray b.backend.data) Faulty.data Response.failed
    (R := Request.Admissible dev.plainParams)
    (fun s req hreq => (Faulty.apply_cases (b := s) hreq b.backend.data).1)
    (fun s req hreq => (Faulty.apply_cases (b := s) hreq b.backend.data).2) S _ hS.sent hlegal
  have hreads := SeqObject.final_count (Faulty.object dev o b.backend) (n := Faulty.readErrs)
    (p := fun e => e.1.desc.op = opRead ∧ e.2.failed) (R := Request.Admissible dev.plainParams)
    counted_zero counted_counted
    (fun s req hreq => (Faulty.apply_counts (b := s) hreq).1) S _ hS.sent hlegal
  have hwrites := SeqObject.final_count (Faulty.object dev o b.backend) (n := Faulty.writeErrs)
    (p := fun e => e.1.desc.op = opWrite ∧ e.2.failed) (R := Request.Admissible dev.plainParams)
    counted_zero counted_counted
    (fun s req hreq => (Faulty.apply_counts (b := s) hreq).2) S _ hS.sent hlegal
  rw [hS.state] at hdata hreads hwrites
  refine ⟨S, hS.linearizes, hdata.1, hdata.2, hreads, hwrites, fun hall e he hop => ?_,
    fun hall e he hop => ?_⟩
  · obtain ⟨b', hret⟩ := SeqObject.legal_mem _ S _ hlegal e he
    rw [Faulty.apply_read (ArrayDevice.plain_admissible (hS.sent e he)).1 hop, if_pos (hall _)]
      at hret
    rw [← hret]
    rfl
  · obtain ⟨b', hret⟩ := SeqObject.legal_mem _ S _ hlegal e he
    rw [Faulty.apply_write (ArrayDevice.plain_admissible (hS.sent e he)).1 hop, if_pos (hall _)]
      at hret
    rw [← hret]
    rfl

/-- The first call fails. -/
def Odds.first : Odds := ⟨id, fun _ => 0, fun n => if n = 0 then 1 else 0⟩

/-- A small device over a new backend. -/
def Faulty.smallBoot : Worker.Boot (Faulty ArrayDevice.small.size.toNat) :=
  ⟨⟨4, 8, 64, 64⟩, 0xFFFFFFFE, 0xFFFFFFFF, fun _ => 9, fun _ => SQE.zero 16, fun _ => ⟨9, -1, 0⟩,
    fun _ => 0, fun _ => ⟨0, 1, 0, 0⟩, newFaulty _⟩

/-- Two writes to a sector, of which the first fails, and a read. -/
def Faulty.smallRun : List Action :=
  Worker.smallStart (.consumed 3) ++
    ((Request.sector opWrite 1 (List.replicate 512 7)).roundTrip ++
      (Request.sector opWrite 1 (List.replicate 512 5)).roundTrip ++
      (Request.sector opRead 1 []).roundTrip)

theorem faults_isolated_small : ∃ (s : World (Faulty ArrayDevice.small.size.toNat))
      (S : List (Nat × Request × Response)),
    Worker.small.Run (faultyBackend _ Odds.first)
      (Sends (Request.Admissible ArrayDevice.small.plainParams)) Faulty.smallBoot Faulty.smallRun
      s ∧
    s.backend.writeErrs = 1 ∧ s.backend.data.read 512 1 = [5] ∧
    FaultsIsolated ArrayDevice.small Odds.first Faulty.smallBoot.backend s S := by
  have hex : ∃ s : World (Faulty ArrayDevice.small.size.toNat),
      Worker.small.Run (faultyBackend _ Odds.first)
        (Sends (Request.Admissible ArrayDevice.small.plainParams)) Faulty.smallBoot
        Faulty.smallRun s ∧ (s.backend.writeErrs = 1 ∧ s.backend.data.read 512 1 = [5]) :=
    exists_run_of_exec (fun s : World (Faulty ArrayDevice.small.size.toNat) =>
      s.backend.writeErrs = 1 ∧ s.backend.data.read 512 1 = [5]) (by decide +kernel)
  obtain ⟨s, hr, herrs, hdata⟩ := hex
  obtain ⟨S, hS⟩ := faults_isolated ArrayDevice.small Odds.first Worker.small
    ArrayDevice.small_bufSize Faulty.smallBoot ⟨by decide +kernel, by decide, ⟨3, rfl⟩⟩ _ s hr
  exact ⟨s, S, hr, herrs, hdata, hS⟩

end
end Ublk
