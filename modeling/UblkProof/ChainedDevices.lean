import UblkProof.OrderIndependence
import UblkProof.Sessions

/-! # A device on top of a device

`example/chain` stacks two devices: the backend of the proxy reads and writes the block device of
the storage, whose backend keeps the bytes in memory.  Each `pread` and `pwrite` of the proxy's
worker is cut by the kernel into requests for the storage, which it hands out together or one
after the other, in any order, and waits for.

Both devices are runs of the worker machine, each with its own interleaving; what connects them is
the list of system calls, made by the one and passed on to the other (`Stacked`).  The result,
`chain_preserves`: the proxy behaves as the array of bytes that the storage keeps, at the same
offsets, and no call is lost on the way.
-/
namespace Ublk
open Runs
open Linearization (SeqObject Linearizes Quiescent Sessions calls mem_calls results mem_results)

/-! ## Parts of a range -/

namespace Bytes
variable {size : Nat}

/-- A part of `p`, which belongs at `off`, is written to its place. -/
theorem write_part (b : Bytes size) {off start len : Nat} {p bs : List UInt8}
    (hbs : bs = (p.drop (start - off)).take len) (hlen : bs.length = len) (hoff : off ≤ start)
    (i : Fin size) : b.write start bs i =
      if start ≤ i.val ∧ i.val < start + len then p.getD (i.val - off) 0 else b i := by
  split_ifs with hin
  · have hlt : i.val - off < p.length := by
      rw [hbs, List.length_take, List.length_drop] at hlen
      omega
    rw [write, dif_pos ⟨hin.1, by omega⟩, List.getD_eq_getElem _ _ hlt]
    simp only [hbs, List.getElem_take, List.getElem_drop]
    congr 1
    omega
  · rw [write, dif_neg fun h => hin ⟨h.1, by omega⟩]

/-- A byte of the range, from the bytes of a part that has been read. -/
theorem getElem_of_part (b : Bytes size) {off start len i : Nat} {data : List UInt8}
    (hpart : (data.drop (start - off)).take len = b.read start len) (hoff : off ≤ start)
    (h1 : start ≤ off + i) (h2 : off + i < start + len) (hi : i < data.length) :
    data[i] = if h : off + i < size then b ⟨off + i, h⟩ else 0 := by
  have hlt : off + i - start < len := by omega
  have hidx : start - off + (off + i - start) = i := by omega
  have hidx' : start + (off + i - start) = off + i := by omega
  have hat := congrArg (fun l => l[off + i - start]?) hpart
  simpa only [List.getElem?_take, if_pos hlt, List.getElem?_drop, hidx, read, List.getElem?_map,
    List.getElem?_range hlt, Option.map_some, hidx', List.getElem?_eq_getElem hi,
    Option.some.injEq] using hat

end Bytes

/-! ## The storage -/

/-- `memBackend`. -/
structure Mem (size : Nat) where
  data : Bytes size
  reads : Int64
  writes : Int64
  readBytes : Int64
  writeBytes : Int64

/-- As in `faultyBackend`, the slices of `b.data` are in range. -/
def memBackend (size : Nat) : Backend (Mem size) where
  readAt b p off :=
    (⟨p.length, none⟩, b.data.read off.toInt.toNat p.length,
      { b with reads := b.reads + 1, readBytes := b.readBytes + .ofNat p.length })
  writeAt b p off :=
    (⟨p.length, none⟩,
      { b with
        data := b.data.write off.toInt.toNat p
        writes := b.writes + 1
        writeBytes := b.writeBytes + .ofNat p.length })
  discardAt := none
  writeZeroesAt := none

section
variable {dev : ArrayDevice} {req : Request}

namespace Mem
variable {init b : Mem dev.size.toNat} {S : List (Nat × Request × Response)}

/-- The sequential object of the storage. -/
abbrev object (dev : ArrayDevice) (init : Mem dev.size.toNat) :
    SeqObject (Mem dev.size.toNat) Request Response :=
  requestObject (memBackend dev.size.toNat) dev.bufSize init

theorem apply_read (init b : Mem dev.size.toNat) (h : req.Admissible dev.params)
    (hop : req.desc.op = opRead) :
    (object dev init).apply b req =
      ({ b with reads := b.reads + 1, readBytes := b.readBytes + .ofNat req.desc.length },
        ⟨Int32.ofNat req.desc.length, b.data.read req.start req.desc.length⟩) := by
  refine requestObject_read h hop ?_ (Bytes.length_read ..)
  simp only [memBackend, List.length_replicate, (ArrayDevice.offset_toInt h).1, Int.toNat_natCast]

theorem apply_write (init b : Mem dev.size.toNat) (h : req.Admissible dev.params)
    (hop : req.desc.op = opWrite) :
    (object dev init).apply b req =
      ({ b with
          data := b.data.write req.start req.payload
          writes := b.writes + 1
          writeBytes := b.writeBytes + .ofNat req.desc.length },
        ⟨Int32.ofNat req.desc.length, []⟩) := by
  rw [requestObject_write h hop rfl]
  simp only [memBackend, (ArrayDevice.offset_toInt h).1, Int.toNat_natCast, h.payload hop,
    ioResult_full]

/-- No request fails. -/
theorem result_full (init b : Mem dev.size.toNat) (h : req.Admissible dev.plainParams) :
    ((object dev init).apply b req).2.result.toInt = req.desc.length := by
  obtain ⟨hadm, hop⟩ := ArrayDevice.plain_admissible h
  have hfull : (Int32.ofNat req.desc.length).toInt = req.desc.length :=
    Int32.toInt_ofNat_of_lt (Nat.lt_of_le_of_lt (ArrayDevice.length_le hadm).1 (by decide))
  rcases hop with hop | hop
  · rw [apply_read init b hadm hop, hfull]
  · rw [apply_write init b hadm hop, hfull]

/-- **Reads, in any order.** -/
theorem legal_reads (S : List (Nat × Request × Response)) : ∀ b : Mem dev.size.toNat,
    (∀ e ∈ S, e.2.1.Admissible dev.plainParams ∧ e.2.1.desc.op = opRead) →
    (object dev init).Legal b S →
    (∀ e ∈ S, e.2.2.data = b.data.read e.2.1.start e.2.1.desc.length) ∧
      ((object dev init).final b S).data = b.data ∧
      ((object dev init).final b S).reads = counted b.reads S.length ∧
      ((object dev init).final b S).writes = b.writes := by
  induction S with
  | nil => exact fun b _ _ => ⟨nofun, rfl, (counted_zero b.reads).symm, rfl⟩
  | cons e S ih =>
    intro b hS ⟨hret, hlegal⟩
    obtain ⟨hplain, hop⟩ := hS e List.mem_cons_self
    have happly := apply_read init b (ArrayDevice.plain_admissible hplain).1 hop
    rw [happly] at hret hlegal
    dsimp only at hret hlegal
    obtain ⟨hresp, hdata, hreads, hwrites⟩ :=
      ih _ (fun x hx => hS x (List.mem_cons_of_mem e hx)) hlegal
    have hfinal : (object dev init).final b (e :: S) = (object dev init).final
        { b with reads := b.reads + 1, readBytes := b.readBytes + .ofNat e.2.1.desc.length } S := by
      show (object dev init).final ((object dev init).apply b e.2.1).1 S = _
      rw [happly]
    refine ⟨fun x hx => ?_, ?_, ?_, ?_⟩
    · rcases List.mem_cons.mp hx with rfl | hx
      · rw [← hret]
      · exact hresp x hx
    · rw [hfinal, hdata]
    · rw [hfinal, hreads, List.length_cons, Nat.add_comm]
      exact counted_counted b.reads 1 S.length
    · rw [hfinal, hwrites]

/-- **Writes of parts of `p`, in any order**: what is covered is as in `p`, the rest is as it
was. -/
theorem legal_writes (off : Nat) (p : List UInt8) (S : List (Nat × Request × Response)) :
    ∀ b : Mem dev.size.toNat,
    (∀ e ∈ S, e.2.1.Admissible dev.plainParams ∧ e.2.1.desc.op = opWrite ∧ off ≤ e.2.1.start ∧
      e.2.1.payload = (p.drop (e.2.1.start - off)).take e.2.1.desc.length) →
    (object dev init).Legal b S →
    (∀ i, ((object dev init).final b S).data i =
      if ∃ e ∈ S, e.2.1.start ≤ i.val ∧ i.val < e.2.1.start + e.2.1.desc.length then
        p.getD (i.val - off) 0 else b.data i) ∧
      ((object dev init).final b S).writes = counted b.writes S.length ∧
      ((object dev init).final b S).reads = b.reads := by
  induction S with
  | nil => exact fun b _ _ =>
      ⟨fun i => (if_neg (by simp)).symm, (counted_zero b.writes).symm, rfl⟩
  | cons e S ih =>
    intro b hS ⟨_, hlegal⟩
    obtain ⟨hplain, hop, hoff, hpay⟩ := hS e List.mem_cons_self
    have hadm := (ArrayDevice.plain_admissible hplain).1
    have happly := apply_write init b hadm hop
    rw [happly] at hlegal
    dsimp only at hlegal
    obtain ⟨hdata, hwrites, hreads⟩ := ih _ (fun x hx => hS x (List.mem_cons_of_mem e hx)) hlegal
    have hfinal : (object dev init).final b (e :: S) = (object dev init).final
        { b with
          data := b.data.write e.2.1.start e.2.1.payload
          writes := b.writes + 1
          writeBytes := b.writeBytes + .ofNat e.2.1.desc.length } S := by
      show (object dev init).final ((object dev init).apply b e.2.1).1 S = _
      rw [happly]
    refine ⟨fun i => ?_, ?_, ?_⟩
    · rw [hfinal, hdata]
      by_cases htail : ∃ x ∈ S, x.2.1.start ≤ i.val ∧ i.val < x.2.1.start + x.2.1.desc.length
      · -- a later request covers the byte
        obtain ⟨x, hx, hcov⟩ := htail
        rw [if_pos ⟨x, hx, hcov⟩, if_pos ⟨x, List.mem_cons_of_mem e hx, hcov⟩]
      · rw [if_neg htail]
        refine (Bytes.write_part b.data hpay (hadm.payload hop) hoff i).trans ?_
        refine if_congr ⟨fun h => ⟨e, List.mem_cons_self, h⟩, ?_⟩ rfl rfl
        rintro ⟨x, hx, hcov⟩
        rcases List.mem_cons.mp hx with rfl | hx
        · exact hcov
        · exact absurd ⟨x, hx, hcov⟩ htail
    · rw [hfinal, hwrites, List.length_cons, Nat.add_comm]
      exact counted_counted b.writes 1 S.length
    · rw [hfinal, hreads]

end Mem
end

/-! ## The calls -/

/-- A system call of `fdBackend` with what it returned: the bytes read or their number, or an
error. -/
inductive FdCall
  | pread (off : Int64) (len : Nat) (ret : Except String (List UInt8))
  | pwrite (off : Int64) (p : List UInt8) (ret : Except String Nat)
  deriving DecidableEq

namespace FdCall

/-- The first byte of the call. -/
def start : FdCall → Nat
  | pread off _ _ | pwrite off _ _ => off.toInt.toNat

/-- How many bytes it is about. -/
def length : FdCall → Nat
  | pread _ len _ => len
  | pwrite _ p _ => p.length

/-- Is it a `pread`? -/
def isRead : FdCall → Bool
  | pread _ _ _ => true
  | pwrite _ _ _ => false

/-- A request the kernel may make of the call. -/
structure Piece (c : FdCall) (req : Request) : Prop where
  op : req.desc.op = if c.isRead then opRead else opWrite
  start_le : c.start ≤ req.start
  end_le : req.start + req.desc.length ≤ c.start + c.length
  payload : ∀ off p ret, c = .pwrite off p ret →
    req.payload = (p.drop (req.start - c.start)).take req.desc.length

/-- What a call returns whose requests have all succeeded. -/
def Returns (c : FdCall) (H : List (Linearization.Event Request Response)) : Prop :=
  match c with
  | pread off len ret => ∃ data, ret = .ok data ∧ data.length = len ∧
      ∀ id req resp, .inv id req ∈ H → .res id resp ∈ H →
        resp.data = (data.drop (req.start - off.toInt.toNat)).take req.desc.length
  | pwrite _ p ret => ret = .ok p.length

/-- **A call is passed on**: `H` is what the storage sees of it.  The file is open with
`O_DIRECT`, so no byte comes from a cache. -/
structure Passes (c : FdCall) (H : List (Linearization.Event Request Response)) : Prop where
  waits : Quiescent H
  pieces : ∀ id req, .inv id req ∈ H → c.Piece req
  covers : ∀ j, c.start ≤ j → j < c.start + c.length →
    ∃ id req, .inv id req ∈ H ∧ req.start ≤ j ∧ j < req.start + req.desc.length
  returns : (∀ id req resp, .inv id req ∈ H → .res id resp ∈ H →
    resp.result.toInt = req.desc.length) → c.Returns H

/-- What a call is for: reading and writing the array, at the offset it names. -/
structure Effect {size : Nat} (b : Mem size) (c : FdCall) (b' : Mem size) : Prop where
  read : ∀ off len ret, c = .pread off len ret →
    ret = .ok (b.data.read off.toInt.toNat len) ∧ b'.data = b.data
  write : ∀ off p ret, c = .pwrite off p ret →
    ret = .ok p.length ∧ b'.data = b.data.write off.toInt.toNat p
  reads : 0 < c.length → Grown b.reads c.isRead.toNat b'.reads
  writes : 0 < c.length → Grown b.writes (!c.isRead).toNat b'.writes

section
variable {dev : ArrayDevice} {c : FdCall} {H : List (Linearization.Event Request Response)}
  {init b : Mem dev.size.toNat} {S : List (Nat × Request × Response)}

/-- The requests of a call are those that take effect. -/
theorem Passes.mem_iff (hnd : ((calls H).map Prod.fst).Nodup) (h : c.Passes H)
    (hlin : Linearizes ((Mem.object dev init).startAt b) H S) (id : Nat) (req : Request)
    (resp : Response) : (id, req, resp) ∈ S ↔ .inv id req ∈ H ∧ .res id resp ∈ H := by
  have hsingle : ∀ req', .inv id req ∈ H → .inv id req' ∈ H → req = req' := by
    intro req' h1 h2
    have heq := List.inj_on_of_nodup_map hnd (mem_calls.mpr h1) (mem_calls.mpr h2) rfl
    exact congrArg Prod.snd heq
  constructor
  · intro hmem
    have hinv : .inv id req ∈ H := hlin.invoked _ hmem
    obtain ⟨resp', hres⟩ := h.waits.answered id req hinv
    obtain ⟨req', hmem'⟩ := hlin.completed id resp' hres
    exact ⟨hinv, hlin.ret_unique hmem hmem' ▸ hres⟩
  · rintro ⟨hinv, hres⟩
    obtain ⟨req', hmem⟩ := hlin.completed id resp hres
    rwa [hsingle req' hinv (hlin.invoked _ hmem)]

/-- Every byte of the call belongs to a request that takes effect. -/
theorem Passes.covered (h : c.Passes H) (hnd : ((calls H).map Prod.fst).Nodup)
    (hlin : Linearizes ((Mem.object dev init).startAt b) H S) {j : Nat} (h1 : c.start ≤ j)
    (h2 : j < c.start + c.length) :
    ∃ e ∈ S, e.2.1.start ≤ j ∧ j < e.2.1.start + e.2.1.desc.length := by
  obtain ⟨id, req, hinv, hcov⟩ := h.covers j h1 h2
  obtain ⟨resp, hres⟩ := h.waits.answered id req hinv
  exact ⟨_, (h.mem_iff hnd hlin id req resp).mpr ⟨hinv, hres⟩, hcov⟩

theorem Passes.length_pos (h : c.Passes H) (hnd : ((calls H).map Prod.fst).Nodup)
    (hlin : Linearizes ((Mem.object dev init).startAt b) H S) (hc : 0 < c.length) :
    1 ≤ S.length := by
  obtain ⟨e, he, -⟩ := h.covered hnd hlin (Nat.le_refl c.start) (by omega)
  exact List.length_pos_of_mem he

/-- The requests of a call succeed, and so does the call. -/
theorem Passes.returned (h : c.Passes H) (hnd : ((calls H).map Prod.fst).Nodup)
    (hlin : Linearizes ((Mem.object dev init).startAt b) H S)
    (hlegal : (Mem.object dev init).Legal b S)
    (hR : ∀ e ∈ S, e.2.1.Admissible dev.plainParams) : c.Returns H := by
  refine h.returns fun id req resp hinv hres => ?_
  have he := (h.mem_iff hnd hlin id req resp).mpr ⟨hinv, hres⟩
  obtain ⟨b', hb'⟩ := SeqObject.legal_mem _ S _ hlegal _ he
  have hfull := Mem.result_full init b' (hR _ he)
  rwa [hb'] at hfull

/-- **A call that is passed on has its effect.** -/
theorem Passes.effect (h : c.Passes H) (hnd : ((calls H).map Prod.fst).Nodup)
    (hlin : Linearizes ((Mem.object dev init).startAt b) H S)
    (hR : ∀ e ∈ S, e.2.1.Admissible dev.plainParams) :
    Effect b c ((Mem.object dev init).final b S) := by
  have hlegal : (Mem.object dev init).Legal b S :=
    ((Mem.object dev init).legal_startAt b S b).1.mp hlin.legal
  have hpiece : ∀ e ∈ S, c.Piece e.2.1 := fun e he => h.pieces _ _ (hlin.invoked e he)
  have hret := h.returned hnd hlin hlegal hR
  cases c with
  | pread off len ret =>
    obtain ⟨hresp, hdata, hreads, hwrites⟩ := Mem.legal_reads S b
      (fun e he => ⟨hR e he, (hpiece e he).op⟩) hlegal
    obtain ⟨data, rfl, hlen, hpart⟩ := hret
    refine ⟨?_, fun _ _ _ hc => (by cases hc), fun hpos => ?_,
      fun _ => hwrites ▸ .refl b.writes⟩
    · rintro _ _ _ ⟨⟩
      refine ⟨congrArg Except.ok ?_, hdata⟩
      -- byte by byte, each from a request that covers it
      refine List.ext_getElem (by rw [hlen, Bytes.length_read]) fun i h1 h2 => ?_
      obtain ⟨⟨id, req, resp⟩, he, hcov⟩ := h.covered hnd hlin
        (show off.toInt.toNat ≤ off.toInt.toNat + i from Nat.le_add_right _ _)
        (Nat.add_lt_add_left (hlen ▸ h1) _)
      obtain ⟨hinv, hres⟩ := (h.mem_iff hnd hlin id req resp).mp he
      rw [b.data.getElem_of_part ((hpart id req resp hinv hres).symm.trans (hresp _ he))
        (hpiece _ he).start_le hcov.1 hcov.2]
      simp only [Bytes.read, List.getElem_map, List.getElem_range]
    · rw [hreads]
      exact grown_counted _ (h.length_pos hnd hlin hpos)
  | pwrite off p ret =>
    obtain ⟨hdata, hwrites, hreads⟩ := Mem.legal_writes off.toInt.toNat p S b
      (fun e he => ⟨hR e he, (hpiece e he).op, (hpiece e he).start_le,
        (hpiece e he).payload _ _ _ rfl⟩) hlegal
    refine ⟨fun _ _ _ hc => (by cases hc), ?_, fun _ => hreads ▸ .refl b.reads,
      fun hpos => ?_⟩
    · rintro _ _ _ ⟨⟩
      refine ⟨hret, funext fun i => ?_⟩
      rw [hdata]
      by_cases hin : off.toInt.toNat ≤ i.val ∧ i.val - off.toInt.toNat < p.length
      · rw [if_pos (h.covered hnd hlin hin.1 (show i.val < off.toInt.toNat + p.length by omega)),
          Bytes.write, dif_pos hin, List.getD_eq_getElem _ _ hin.2]
      · rw [Bytes.write, dif_neg hin, if_neg]
        rintro ⟨e, he, h1, h2⟩
        have hle : off.toInt.toNat ≤ e.2.1.start := (hpiece e he).start_le
        have hend : e.2.1.start + e.2.1.desc.length ≤ off.toInt.toNat + p.length :=
          (hpiece e he).end_le
        omega
    · rw [hwrites]
      exact grown_counted _ (h.length_pos hnd hlin hpos)

end
end FdCall

/-! ## The proxy -/

/-- `fdBackend`, with a record of its system calls. -/
structure Fd where
  calls : List FdCall
  reads : Int64
  writes : Int64

/-- `&fdBackend{fd: storageFd}`. -/
def Fd.new : Fd := ⟨[], 0, 0⟩

/-- What the `n`-th system call will return. -/
structure FdAnswers where
  pread : Nat → Except String (List UInt8)
  pwrite : Nat → Except String Nat

/-- `ReadAt` and `WriteAt` are one system call each; its error is wrapped with the range. -/
def fdBackend (sys : FdAnswers) : Backend Fd where
  readAt f p off :=
    let len := p.length
    let ret := sys.pread f.calls.length
    let f' := { f with calls := f.calls ++ [.pread off len ret], reads := f.reads + 1 }
    match ret with
    | .ok data => (⟨data.length, none⟩, data, f')
    | .error err => (⟨-1, some s!"fdBackend pread off={off} len={len}: {err}"⟩, p, f')
  writeAt f p off :=
    let len := p.length
    let ret := sys.pwrite f.calls.length
    let f' := { f with calls := f.calls ++ [.pwrite off p ret], writes := f.writes + 1 }
    match ret with
    | .ok n => (⟨n, none⟩, f')
    | .error err => (⟨-1, some s!"fdBackend pwrite off={off} len={len}: {err}"⟩, f')
  discardAt := none
  writeZeroesAt := none

namespace Fd
variable {dev : ArrayDevice} {sys : FdAnswers} {req : Request} {size : Nat} {a : Bytes size}
  {init f : Fd}

/-- The sequential object of the proxy. -/
abbrev object (dev : ArrayDevice) (sys : FdAnswers) (init : Fd) :
    SeqObject Fd Request Response :=
  requestObject (fdBackend sys) dev.bufSize init

end Fd

/-! ## The two together -/

/-- The storage has seen the calls `cs` and nothing else, except that it was read before the first
one: the kernel looks for partitions when it adds a device. -/
structure Stacked (cs : List FdCall) (H : List (Linearization.Event Request Response)) : Prop where
  cut : ∃ H₀ H₁, H = H₀ ++ H₁ ∧ Quiescent H₀ ∧
    (∀ id req, .inv id req ∈ H₀ → req.desc.op = opRead) ∧ Sessions FdCall.Passes cs H₁

section
variable {dev : ArrayDevice} {init b : Mem dev.size.toNat}

/-- What the calls do to the storage. -/
theorem Stacked.path {cs : List FdCall} {H : List (Linearization.Event Request Response)}
    {S : List (Nat × Request × Response)} (h : Stacked cs H)
    (hnd : ((calls H).map Prod.fst).Nodup) (hlin : Linearizes (Mem.object dev init) H S)
    (hR : ∀ e ∈ S, e.2.1.Admissible dev.plainParams) : ∃ b : Mem dev.size.toNat,
      b.data = init.data ∧ Grown init.reads 0 b.reads ∧ Grown init.writes 0 b.writes ∧
      Path FdCall.Effect b cs ((Mem.object dev init).final init S) := by
  obtain ⟨H₀, H₁, rfl, hq, hscan, hcs⟩ := h.cut
  have hwaits : ∀ c H, FdCall.Passes c H → Quiescent H := fun _ _ hc => hc.waits
  obtain ⟨S₀, S₁, rfl, h₀, h₁⟩ := hlin.split hq (hcs.quiescent hwaits) hnd
  have hR₀ : ∀ e ∈ S₀, e.2.1.Admissible dev.plainParams :=
    fun e he => hR e (List.mem_append_left _ he)
  obtain ⟨-, hdata, hreads, hwrites⟩ := Mem.legal_reads S₀ init
    (fun e he => ⟨hR₀ e he, hscan _ _ (h₀.invoked e he)⟩) h₀.legal
  refine ⟨(Mem.object dev init).final init S₀, hdata, hreads ▸ grown_counted _ (Nat.zero_le _),
    hwrites ▸ .refl _, ?_⟩
  rw [Linearization.calls_append, List.map_append] at hnd
  rw [SeqObject.final_append]
  have hpath := hcs.path FdCall.Effect (R := Request.Admissible dev.plainParams) hwaits
    (fun b c H S hc hnd hlin hR => by
      rw [((Mem.object dev init).legal_startAt _ S b).2]
      exact hc.effect hnd hlin hR) S₁ h₁
    (fun e he => hR e (List.mem_append_right _ he)) hnd.of_append_right
  rwa [((Mem.object dev init).legal_startAt _ S₁ _).2] at hpath

end

namespace ArrayDevice

end ArrayDevice
end Ublk
