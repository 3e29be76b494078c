import UblkProof.Commutation
import UblkProof.PlainBackend

/-! # When the order of requests does not matter

The block layer gives no order to requests that are outstanding together, and the worker serves
them as their completions come in: in batches, in any order, with any queue depth.  A client that
keeps requests for the same bytes apart in time (reads among themselves excepted) cannot tell:
two runs with the same requests answer each of them alike and leave the same data
(`runs_agree`), even if the numbers of tags, the rings, the batches and everything else differ.
-/
namespace Ublk
open Runs
open Linearization (SeqObject Precedes Complete SameCalls history calls calls_append
  calls_history mem_calls results mem_results)

/-! ## Requests for different bytes commute -/

namespace Bytes
variable {size : Nat}

theorem write_comm (b : Bytes size) {off off' : Nat} {bs bs' : List UInt8}
    (h : off + bs.length ≤ off' ∨ off' + bs'.length ≤ off) :
    (b.write off bs).write off' bs' = (b.write off' bs').write off bs := by
  funext i
  simp only [write]
  split_ifs with h1 h2
  · omega
  · rfl
  · rfl
  · rfl

theorem read_write_disjoint (b : Bytes size) {off len off' : Nat} {bs : List UInt8}
    (h : off + len ≤ off' ∨ off' + bs.length ≤ off) :
    (b.write off' bs).read off len = b.read off len := by
  refine List.map_congr_left fun i hi => ?_
  have hi := List.mem_range.mp hi
  split_ifs with hlt
  · rw [write, dif_neg]
    rintro ⟨h1, h2⟩
    dsimp only at h1 h2
    omega
  · rfl

end Bytes

namespace Request

/-- The bytes a request leaves behind. -/
def written (req : Request) : List UInt8 :=
  if req.desc.op = opRead then []
  else if req.desc.op = opWrite then req.payload
  else if req.desc.op = opWriteZeroes then List.replicate req.desc.length 0
  else []

/-- Both only read, or they are about different bytes. -/
def Apart (a b : Request) : Prop :=
  (a.desc.op = opRead ∧ b.desc.op = opRead) ∨
    a.start + a.desc.length ≤ b.start ∨ b.start + b.desc.length ≤ a.start

instance (a b : Request) : Decidable (a.Apart b) := inferInstanceAs (Decidable (_ ∨ _))

theorem Apart.symm {a b : Request} (h : a.Apart b) : b.Apart a := by
  rcases h with ⟨ha, hb⟩ | h | h
  · exact .inl ⟨hb, ha⟩
  · exact .inr (.inr h)
  · exact .inr (.inl h)

variable {size : Nat} {init : Bytes size} {p : UblkParams}

theorem length_written_le {req : Request} (h : req.Admissible p) :
    req.written.length ≤ req.desc.length := by
  unfold written
  split_ifs with hr hw hz
  · exact Nat.zero_le _
  · exact Nat.le_of_eq (h.payload hw)
  · rw [List.length_replicate]
  · exact Nat.zero_le _

/-- Every request is a write, of nothing in some cases. -/
theorem apply_fst (req : Request) (b : Bytes size) :
    ((blockArray init).apply b req).1 = b.write req.start req.written := by
  simp only [blockArray, written]
  split_ifs
  · exact (Bytes.write_nil _ _).symm
  · rfl
  · rfl
  · exact (Bytes.write_nil _ _).symm

/-- What a request returns depends on the bytes it reads. -/
theorem apply_snd {req : Request} {b b' : Bytes size}
    (h : req.desc.op = opRead →
      b'.read req.start req.desc.length = b.read req.start req.desc.length) :
    ((blockArray init).apply b' req).2 = ((blockArray init).apply b req).2 := by
  simp only [blockArray]
  split_ifs with hr
  · rw [h hr]
  · rfl
  · rfl
  · rfl

/-- A request does not notice another one that is apart from it. -/
theorem Apart.unnoticed {req other : Request} (h : req.Apart other) (ho : other.Admissible p)
    (b : Bytes size) :
    ((blockArray init).apply ((blockArray init).apply b other).1 req).2 =
      ((blockArray init).apply b req).2 := by
  refine apply_snd fun _ => ?_
  rw [apply_fst]
  rcases h with ⟨-, hread⟩ | h | h
  · rw [written, if_pos hread, Bytes.write_nil]
  · exact Bytes.read_write_disjoint _ (.inl h)
  · have := length_written_le ho
    exact Bytes.read_write_disjoint _ (.inr (by omega))

/-- **Requests that are apart commute.** -/
theorem Apart.commute {a b : Request} (h : a.Apart b) (ha : a.Admissible p)
    (hb : b.Admissible p) : (blockArray init).Commute a b where
  state s := by
    rw [apply_fst, apply_fst, apply_fst, apply_fst]
    have hla := length_written_le ha
    have hlb := length_written_le hb
    rcases h with ⟨hr, -⟩ | h | h
    · rw [show a.written = [] from if_pos hr, Bytes.write_nil, Bytes.write_nil]
    · exact Bytes.write_comm _ (.inl (by omega))
    · exact Bytes.write_comm _ (.inr (by omega))
  left s := h.unnoticed hb s
  right s := h.symm.unnoticed ha s

end Request

/-! ## The requests of a run -/

section
variable {β : Type} {w : Worker} {bk : Backend β} {R : Request → Prop} {f f' : Flow β} {a : Action}

/-- Requests are numbered, and the kernel keeps to `R`. -/
structure Numbered (R : Request → Prop) (f : Flow β) : Prop where
  below : ∀ k ∈ calls (points f.log), k.1 < f.nextId
  once : ((calls (points f.log)).map Prod.fst).Nodup
  sent : ∀ k ∈ calls (points f.log), R k.2

namespace Numbered

/-- No request is issued. -/
theorem frame (h : Numbered R f) (hid : f'.nextId = f.nextId)
    (hcalls : calls (points f'.log) = calls (points f.log)) : Numbered R f' where
  below := by rw [hcalls, hid]; exact h.below
  once := by rw [hcalls]; exact h.once
  sent := by rw [hcalls]; exact h.sent

/-- An event that is not an invocation. -/
theorem frame_concat (f' : Flow β) (h : Numbered R f) (hid : f'.nextId = f.nextId) {e : Event}
    (hlog : f'.log = f.log ++ [e]) (he : calls e.point.toList = []) : Numbered R f' := by
  refine h.frame hid ?_
  rw [hlog, points_concat, calls_append, he, List.append_nil]

theorem issue (h : Numbered R f) {i : Nat} {c : Command} {req : Request} (hR : R req) :
    Numbered R { f with toCore := f.toCore.issue i c req } := by
  have hcalls : calls (points (f.toCore.issue i c req).log) =
      calls (points f.log) ++ [(f.nextId, req)] := by
    rw [show points (f.toCore.issue i c req).log = points f.log ++ [.inv f.nextId req] from
      points_concat _ _, calls_append]
    rfl
  have hcases : ∀ k ∈ calls (points (f.toCore.issue i c req).log),
      k ∈ calls (points f.log) ∨ k = (f.nextId, req) := by
    intro k hk
    rw [hcalls] at hk
    exact (List.mem_append.mp hk).imp_right List.mem_singleton.mp
  refine ⟨fun k hk => ?_, ?_, fun k hk => ?_⟩
  · rcases hcases k hk with hold | rfl
    · exact Nat.lt_succ_of_lt (h.below k hold)
    · exact Nat.lt_succ_self _
  · -- the number is above all those in use
    show ((calls (points (f.toCore.issue i c req).log)).map Prod.fst).Nodup
    rw [hcalls, List.map_append]
    refine h.once.append (List.nodup_singleton _) (List.disjoint_singleton.mpr fun hmem => ?_)
    obtain ⟨k, hk, hid⟩ := List.mem_map.mp hmem
    exact Nat.ne_of_lt (h.below k hk) hid
  · rcases hcases k hk with hold | rfl
    · exact h.sent k hold
    · exact hR

theorem step (h : Numbered R f) (hi : f.Inv w) (hok : Sends R f.toCore a)
    (hs : Flow.Step w bk f a f') : Numbered R f' := by
  rcases hi.step_cases hs with hr | ⟨-, hsame⟩
  · cases hr with
    | issue _ => exact h.issue hok
    | @serve tag out _ _ _ =>
      refine h.frame_concat { f with toCore := w.served f.toCore tag out } rfl rfl ?_
      cases f.serving tag.toNat <;> rfl
    | @respond i c id _ _ =>
      exact h.frame_concat { f with toCore := f.toCore.respond c id } rfl rfl rfl
    | @post i c res flags _ =>
      exact h.frame_concat { f with
        toCore := f.toCore.post i (c.cqe res flags)
        unread := f.unread ++ [c.cqe res flags] } rfl rfl rfl
  · exact h.frame hsame.nextId (by rw [hsame.points])

theorem boot (R : Request → Prop) (b : Worker.Boot β) : Numbered R (Flow.boot b) :=
  ⟨nofun, List.nodup_nil, nofun⟩

end Numbered

/-- What clients see of a run. -/
def World.seen (s : World β) : List (Linearization.Event Request Response) :=
  history (points s.log)

/-- **No number is used twice, and nothing is seen that was not sent.** -/
theorem seen_of_run {b : Worker.Boot β} (hb : b.Fits w) {as : List Action} {s : World β}
    (h : w.Run bk (Sends R) b as s) :
    ((calls s.seen).map Prod.fst).Nodup ∧ ∀ id req, .inv id req ∈ s.seen → R req := by
  obtain ⟨k, kc, f, -, hp, hm, -⟩ := h.simulates hb
  have hn : Numbered R f := Flow.holds_of_path (P := Numbered R) (.boot _ b)
    (fun _ _ _ hi hf hok hs => hf.step hi hok hs) hp
  have hcalls : calls s.seen = calls (points f.log) := by
    rw [World.seen, calls_history, show s.log = f.log from congrArg Core.log hm.core]
  refine ⟨hcalls ▸ hn.once, fun id req hmem => hn.sent (id, req) ?_⟩
  rw [← hcalls]
  exact mem_calls.mpr hmem

/-! ## The result -/

/-- Every request has been answered. -/
def World.AllAnswered (s : World β) : Prop :=
  ∀ id req, .inv id req ∈ s.seen → ∃ resp, .res id resp ∈ s.seen

/-- The same requests have been sent in both runs, numbered in any order; those that are not
apart were not outstanding together, and came in the same order. -/
structure SameRequests (ρ : Equiv.Perm Nat) (s s' : World β) : Prop where
  sent : ∀ id req, .inv id req ∈ s.seen ↔ .inv (ρ id) req ∈ s'.seen
  ordered : ∀ a b req req', .inv a req ∈ s.seen → .inv b req' ∈ s.seen → a ≠ b →
    ¬ req.Apart req' →
    (Precedes s.seen a b ∧ Precedes s'.seen (ρ a) (ρ b)) ∨
      (Precedes s.seen b a ∧ Precedes s'.seen (ρ b) (ρ a))

end

section
variable {dev : ArrayDevice} {w : Worker}

/-- The byte array serves what it invites. -/
theorem serves_blockArray (dev : ArrayDevice) (init : Bytes dev.size.toNat) :
    Serves dev.backend dev.bufSize (Request.Admissible dev.params) (blockArray init) where
  fits _ h := ArrayDevice.fits_of_admissible h
  serve _ _ _ h hbuf hpay := ArrayDevice.handleIO_blockArray h hbuf hpay init

/-- What is known of a run whose requests are all answered. -/
theorem complete_of_run (hbs : w.bufSize = dev.bufSize) {b : Worker.Boot (Bytes dev.size.toNat)}
    (hb : b.Fits w) {as : List Action} {s : World (Bytes dev.size.toNat)}
    (h : w.Run dev.backend (Sends (Request.Admissible dev.params)) b as s)
    (hdone : s.AllAnswered) : Complete s.seen ∧
      (∀ id req, .inv id req ∈ s.seen → req.Admissible dev.params) ∧
      ∃ S, Linearization.Linearizes (blockArray b.backend) s.seen S ∧
        (blockArray b.backend).final b.backend S = s.backend := by
  obtain ⟨hnd, hsent⟩ := seen_of_run hb h
  obtain ⟨S, hS⟩ := (hbs ▸ serves_blockArray dev b.backend).refines hb rfl h
  refine ⟨⟨fun id op op' h1 h2 => ?_, hdone⟩, hsent, S, hS.linearizes, hS.state⟩
  have heq := List.inj_on_of_nodup_map hnd (mem_calls.mpr h1) (mem_calls.mpr h2) rfl
  exact congrArg Prod.snd heq

/-- **The order of requests that are apart does not matter.**  Two devices of the same geometry
start with the same data and are sent the same requests, with any depth and in any interleaving.
If requests that are not apart were never outstanding together, and came in the same order, both
devices give the same answers and end with the same data. -/
theorem runs_agree (dev : ArrayDevice) (w w' : Worker) (hbs : w.bufSize = dev.bufSize)
    (hbs' : w'.bufSize = dev.bufSize) (b b' : Worker.Boot (Bytes dev.size.toNat))
    (hb : b.Fits w) (hb' : b'.Fits w') (hdata : b'.backend = b.backend) (as as' : List Action)
    (s s' : World (Bytes dev.size.toNat))
    (h : w.Run dev.backend (Sends (Request.Admissible dev.params)) b as s)
    (h' : w'.Run dev.backend (Sends (Request.Admissible dev.params)) b' as' s')
    (hdone : s.AllAnswered) (hdone' : s'.AllAnswered) (ρ : Equiv.Perm Nat)
    (hsame : SameRequests ρ s s') :
    (∀ id resp, .res id resp ∈ s.seen ↔ .res (ρ id) resp ∈ s'.seen) ∧
      s'.backend = s.backend := by
  obtain ⟨hc, hadm, S, hS, hend⟩ := complete_of_run hbs hb h hdone
  obtain ⟨hc', -, S', hS', hend'⟩ := complete_of_run hbs' hb' h' hdone'
  rw [hdata] at hS' hend'
  have hcalls : SameCalls (blockArray b.backend) ρ s.seen s'.seen := by
    refine ⟨hsame.sent, fun x y req req' hx hy hne hnot => ?_⟩
    refine hsame.ordered x y req req' hx hy hne fun happart => hnot ?_
    exact happart.commute (hadm x req hx) (hadm y req' hy)
  refine ⟨hS.agree_res hS' hc hc' hcalls, ?_⟩
  rw [← hend', ← hend]
  exact (hS.agree hS' hc hc' hcalls).2.symm

end

/-! ## Two small runs -/

section
variable {H : List (Linearization.Event Request Response)} {a b : Nat}

/-- The numbers of the requests answered. -/
def answers (H : List (Linearization.Event Request Response)) : List Nat :=
  (results H).map Prod.fst

theorem mem_answers : a ∈ answers H ↔ ∃ resp, .res a resp ∈ H := by
  rw [answers, List.mem_map]
  constructor
  · rintro ⟨⟨id, resp⟩, he, rfl⟩
    exact ⟨resp, mem_results.mp he⟩
  · exact fun ⟨resp, h⟩ => ⟨_, mem_results.mpr h, rfl⟩

/-- The calls of one history are those of the other under their new numbers. -/
theorem mem_inv_iff {ρ : Equiv.Perm Nat} {H' : List (Linearization.Event Request Response)}
    (h : (calls H').Perm ((calls H).map fun k => (ρ k.1, k.2))) (id : Nat) (req : Request) :
    .inv id req ∈ H ↔ .inv (ρ id) req ∈ H' := by
  rw [← mem_calls, ← mem_calls, h.mem_iff, List.mem_map]
  constructor
  · exact fun hmem => ⟨_, hmem, rfl⟩
  · rintro ⟨k, hk, heq⟩
    obtain ⟨hid, hreq⟩ := Prod.mk.inj heq
    rw [← ρ.injective hid, ← hreq]
    exact hk

/-- After the first `n` events `a` has been answered and `b` not sent. -/
def precedesAt (H : List (Linearization.Event Request Response)) (n a b : Nat) : Bool :=
  (answers (H.take n)).contains a && !((calls (H.take n)).map Prod.fst).contains b

theorem precedes_of_take {n : Nat} (h : precedesAt H n a b = true) : Precedes H a b := by
  obtain ⟨h1, h2⟩ := Bool.and_eq_true_iff.mp h
  refine ⟨H.take n, List.take_prefix n H, mem_answers.mp (List.contains_iff_mem.mp h1), ?_⟩
  intro req hmem
  have hmem : b ∈ (calls (H.take n)).map Prod.fst := List.mem_map.mpr ⟨_, mem_calls.mpr hmem, rfl⟩
  rw [List.contains_iff_mem.mpr hmem] at h2
  cases h2

end

namespace ArrayDevice

/-- A write, a read of the same sector, and a write of another. -/
def smallWrite : Request := Request.sector opWrite 1 (List.replicate 512 7)

def smallRead : Request := Request.sector opRead 1 []

def smallOther : Request := Request.sector opWrite 2 (List.replicate 512 5)

/-- A sector is written and read back, then another one is written. -/
def smallInOrder : List Action :=
  Worker.smallStart (.consumed 3) ++
    (smallWrite.roundTrip ++ smallRead.roundTrip ++ smallOther.roundTrip)

/-- The two sectors are written in one batch, the other one first to be sent and last to be
served, and then the first is read. -/
def smallBatched : List Action :=
  Worker.smallStart (.consumed 3) ++
    [.issue 0 smallOther, .issue 1 smallWrite, .post 1 0 0, .post 0 0 0] ++
    Worker.smallFirst ++ List.replicate 8 .work ++ [.enter (.consumed 2), .respond 1, .respond 2] ++
    smallRead.roundTrip

/-- The numbers of the requests of `smallInOrder` in `smallBatched`. -/
def smallRenaming : Equiv.Perm Nat := (Equiv.swap 1 2).trans (Equiv.swap 0 1)

/-- What the two runs have in common. -/
theorem small_sameRequests {s s' : World (Bytes small.size.toNat)}
    (hcalls : calls s.seen = [(0, smallWrite), (1, smallRead), (2, smallOther)])
    (hcalls' : calls s'.seen = [(0, smallOther), (1, smallWrite), (2, smallRead)])
    (h : Precedes s.seen 0 1) (h' : Precedes s'.seen 1 2) : SameRequests smallRenaming s s' := by
  refine ⟨mem_inv_iff (by rw [hcalls, hcalls']; decide +kernel), ?_⟩
  intro x y req req' hx hy hne hnot
  rw [← mem_calls, hcalls] at hx hy
  simp only [List.mem_cons, List.not_mem_nil, or_false, Prod.mk.injEq] at hx hy
  have hren : smallRenaming 0 = 1 ∧ smallRenaming 1 = 2 := by decide
  -- only the write and the read of one sector are not apart
  rcases hx with ⟨rfl, rfl⟩ | ⟨rfl, rfl⟩ | ⟨rfl, rfl⟩ <;>
    rcases hy with ⟨rfl, rfl⟩ | ⟨rfl, rfl⟩ | ⟨rfl, rfl⟩ <;>
    first
    | exact absurd rfl hne
    | exact absurd (by decide) hnot
    | (rw [hren.1, hren.2]; exact .inl ⟨h, h'⟩)
    | (rw [hren.1, hren.2]; exact .inr ⟨h, h'⟩)

theorem small_allAnswered {s : World (Bytes small.size.toNat)}
    (h : ((calls s.seen).map Prod.fst).all (answers s.seen).contains = true) : s.AllAnswered := by
  intro id req hmem
  have hid : id ∈ (calls s.seen).map Prod.fst := List.mem_map.mpr ⟨_, mem_calls.mpr hmem, rfl⟩
  exact mem_answers.mp (List.contains_iff_mem.mp (List.all_eq_true.mp h id hid))

theorem runs_agree_small : ∃ s s' : World (Bytes small.size.toNat),
    Worker.small.Run small.backend (Sends (Request.Admissible small.params)) smallBoot
      smallInOrder s ∧
    Worker.small.Run small.backend (Sends (Request.Admissible small.params)) smallBoot
      smallBatched s' ∧
    answers s.seen = [0, 1, 2] ∧ answers s'.seen = [1, 0, 2] ∧
    (∀ id resp, .res id resp ∈ s.seen ↔ .res (smallRenaming id) resp ∈ s'.seen) ∧
    s'.backend = s.backend := by
  have hex : ∃ s : World (Bytes small.size.toNat),
      Worker.small.Run small.backend (Sends (Request.Admissible small.params)) smallBoot
        smallInOrder s ∧
      (calls s.seen = [(0, smallWrite), (1, smallRead), (2, smallOther)] ∧
        answers s.seen = [0, 1, 2] ∧ precedesAt s.seen 2 0 1 = true) :=
    exists_run_of_exec (fun s : World (Bytes small.size.toNat) =>
      calls s.seen = _ ∧ answers s.seen = _ ∧ precedesAt s.seen 2 0 1 = true) (by decide +kernel)
  have hex' : ∃ s : World (Bytes small.size.toNat),
      Worker.small.Run small.backend (Sends (Request.Admissible small.params)) smallBoot
        smallBatched s ∧
      (calls s.seen = [(0, smallOther), (1, smallWrite), (2, smallRead)] ∧
        answers s.seen = [1, 0, 2] ∧ precedesAt s.seen 4 1 2 = true) :=
    exists_run_of_exec (fun s : World (Bytes small.size.toNat) =>
      calls s.seen = _ ∧ answers s.seen = _ ∧ precedesAt s.seen 4 1 2 = true) (by decide +kernel)
  obtain ⟨s, hrun, hcalls, hans, hprec⟩ := hex
  obtain ⟨s', hrun', hcalls', hans', hprec'⟩ := hex'
  have hdone : s.AllAnswered := small_allAnswered (by rw [hcalls, hans]; rfl)
  have hdone' : s'.AllAnswered := small_allAnswered (by rw [hcalls', hans']; rfl)
  have hsame := small_sameRequests hcalls hcalls' (precedes_of_take hprec)
    (precedes_of_take hprec')
  obtain ⟨hres, hdata⟩ := runs_agree small Worker.small Worker.small small_bufSize small_bufSize
    smallBoot smallBoot small_fits small_fits rfl _ _ s s' hrun hrun' hdone hdone' smallRenaming
    hsame
  exact ⟨s, s', hrun, hrun', hans, hans', hres, hdata⟩

end ArrayDevice
end Ublk
