import UblkProof.TagConservation
import UblkProof.WorkerLog

/-! # Requests and their answers

For each tag, the entries the worker prepares after the initial `FETCH` answer the tag's
completions one by one: the `i`-th is a `COMMIT_AND_FETCH` that carries the result of the
one `handleIO` call made for the `i`-th completion.  This is `Script`, projected to a tag.

The result itself depends on the request's own descriptor and on the backend's replies to
it, not on the other requests of the batch (`handleIO_result_congr`).
-/
namespace Ublk
open LittleEndian Runs
open Ublk.Ring (EnterReply)

/-! ## The entries, as the kernel reads them -/

/-- The kernel reads `sqe` as command `op` for a tag of this worker's queue, with the tag's
own buffer. -/
structure Reads (w : Worker) (op : UInt32) (tag : UInt16) (result : Int32) (sqe : SQE64) :
    Prop where
  opcode : sqe.opcode = opUringCmd
  fd : sqe.fd = w.charFD
  off : sqe.off = op.toUInt64
  userData : sqe.userData = tag.toUInt64
  addr : (IOCmd.decode sqe.cmd).addr.toNat = w.bufAddr tag.toNat
  qid : (IOCmd.decode sqe.cmd).qid = w.qid
  tag : (IOCmd.decode sqe.cmd).tag = tag
  result : (IOCmd.decode sqe.cmd).result = result

namespace Worker
variable (w : Worker)

/-- Buffers of tags below the depth end before the end of the address space. -/
theorem bufAddr_add_le {tag : Nat} (h : tag < w.depth.toNat) :
    w.bufAddr tag + w.bufSize ≤ 2 ^ 64 := by
  have hmul : (tag + 1) * w.bufSize ≤ w.depth.toNat * w.bufSize := Nat.mul_le_mul_right _ h
  have := w.pool_le
  rw [Nat.succ_mul] at hmul
  unfold bufAddr
  omega

theorem bufAddr_toNat {tag : Nat} (h : tag < w.depth.toNat) :
    (UInt64.ofNat (w.bufAddr tag)).toNat = w.bufAddr tag := by
  have := w.bufAddr_add_le h
  have := w.bufSize_pos
  exact UInt64.toNat_ofNat_of_lt' (show w.bufAddr tag < 2 ^ 64 by omega)

theorem decode_fill (op : UInt32) (tag : UInt16) (result : Int32) (sqe : SQE64) :
    IOCmd.decode (w.fill op tag result sqe).cmd = w.ioCmd tag result :=
  IOCmd.decode_copyInto (by decide) _ _

theorem reads_fill {tag : UInt16} (h : tag < w.depth) (op : UInt32) (result : Int32) (sqe : SQE64) :
    Reads w op tag result (w.fill op tag result sqe) where
  opcode := rfl
  fd := rfl
  off := rfl
  userData := rfl
  qid := by rw [decode_fill]; rfl
  tag := by rw [decode_fill]; rfl
  result := by rw [decode_fill]; rfl
  addr := by
    rw [decode_fill]
    exact w.bufAddr_toNat (UInt16.lt_iff_toNat_lt.mp h)

end Worker

/-! ## One tag's part of the log -/

namespace Event

/-- The entry prepared for a tag. -/
def preparedFor (tag : UInt16) : Event → Option SQE64
  | .prepared sqe => if sqe.tag = tag.toNat then some sqe else none
  | _ => none

/-- The result of the completion taken for a tag. -/
def takenFor (tag : UInt16) : Event → Option Int32
  | .taken t res => if t = tag then some res else none
  | _ => none

/-- What `handleIO` was given, asked of the backend and returned. -/
def handledFor (tag : UInt16) : Event → Option (IODesc × List (BackendCall × Reply) × Int32)
  | .handled t _ desc calls result => if t = tag then some (desc, calls, result) else none
  | _ => none

end Event

/-- The entries prepared for `tag` answer its completions, in order. -/
structure Answered (w : Worker) (tag : UInt16) (log : List Event) : Prop where
  first : ∀ sqe, (log.filterMap (Event.preparedFor tag))[0]? = some sqe →
    Reads w uIOFetchReq tag 0 sqe
  later : ∀ i sqe, (log.filterMap (Event.preparedFor tag))[i + 1]? = some sqe →
    ∃ res desc calls result, (log.filterMap (Event.takenFor tag))[i]? = some res ∧
      (log.filterMap (Event.handledFor tag))[i]? = some (desc, calls, result) ∧
      Reads w uIOCommitAndFetchReq tag result sqe

section
variable {β : Type} {w : Worker} {bk : Backend β} {tag : UInt16}

theorem toNat_ofNat_lt {t : Nat} (h : t < w.depth.toNat) : (UInt16.ofNat t).toNat = t :=
  UInt16.toNat_ofNat_of_lt' (Nat.lt_trans h w.depth.toNat_lt)

theorem preparedFor_fetches {n : Nat} (h : n ≤ w.depth.toNat) :
    (w.fetches n).filterMap (Event.preparedFor tag) =
      if tag.toNat < n then [w.fetchSQE tag] else [] := by
  rw [Worker.fetches, List.filterMap_map]
  refine filterMap_range _ _ _ fun t ht => ?_
  show (if (w.fetchSQE (UInt16.ofNat t)).tag = tag.toNat then _ else _) = _
  rw [Worker.fetchSQE, Flow.tag_fill, toNat_ofNat_lt (Nat.lt_of_lt_of_le ht h)]
  split_ifs with he
  · rw [he, UInt16.ofNat_toNat]; rfl
  · rfl

theorem fetches_none {δ : Type} (g : Event → Option δ) (hg : ∀ sqe, g (.prepared sqe) = none)
    (n : Nat) : (w.fetches n).filterMap g = [] :=
  filterMap_map_none g _ (fun _ => hg _) _

/-- A projection of whole cycles. -/
theorem filterMap_cycles {δ : Type} (g : Event → Option δ) (p : Cycle → δ)
    (hg : ∀ c : Cycle, (c.events w).filterMap g = if c.tag = tag then [p c] else [])
    (cycles : List Cycle) :
    (cycles.flatMap (Cycle.events w)).filterMap g =
      (cycles.filter fun c => c.tag = tag).map p := by
  induction cycles with
  | nil => rfl
  | cons c cs ih =>
    rw [List.flatMap_cons, List.filterMap_append, ih, hg]
    by_cases hc : c.tag = tag
    · rw [if_pos hc, List.filter_cons_of_pos (by simpa using hc), List.map_cons]
      rfl
    · rw [if_neg hc, List.filter_cons_of_neg (by simpa using hc)]
      rfl

theorem cycle_prepared (c : Cycle) : (c.events w).filterMap (Event.preparedFor tag) =
    if c.tag = tag then [w.commitSQE tag c.result] else [] := by
  have hiff : (w.commitSQE c.tag c.result).tag = tag.toNat ↔ c.tag = tag := by
    rw [Worker.commitSQE, Flow.tag_fill, UInt16.toNat_inj]
  show ([c.taken] ++ [c.handled] ++ [Event.prepared (w.commitSQE c.tag c.result)]).filterMap _ = _
  simp only [List.filterMap_append, filterMap_one, Cycle.taken, Cycle.handled, Event.preparedFor]
  split_ifs with h1 h2 h2
  · rw [h2]; rfl
  · exact absurd (hiff.mp h1) h2
  · exact absurd (hiff.mpr h2) h1
  · rfl

theorem cycle_taken (c : Cycle) : (c.events w).filterMap (Event.takenFor tag) =
    if c.tag = tag then [c.res] else [] := by
  show ([c.taken] ++ [c.handled] ++ [Event.prepared (w.commitSQE c.tag c.result)]).filterMap _ = _
  simp only [List.filterMap_append, filterMap_one, Cycle.taken, Cycle.handled, Event.takenFor]
  split_ifs <;> rfl

theorem cycle_handled (c : Cycle) : (c.events w).filterMap (Event.handledFor tag) =
    if c.tag = tag then [(c.desc, c.calls, c.result)] else [] := by
  show ([c.taken] ++ [c.handled] ++ [Event.prepared (w.commitSQE c.tag c.result)]).filterMap _ = _
  simp only [List.filterMap_append, filterMap_one, Cycle.taken, Cycle.handled, Event.handledFor]
  split_ifs <;> rfl

/-- **The script, projected to a tag.** -/
theorem Script.answered {log : List Event} {pc : PC} (h : Script w bk log pc)
    (htag : tag < w.depth) : Answered w tag log := by
  obtain ⟨n, cycles, tail, hlog, hn, hv, hu⟩ := h
  have htail : tail.filterMap (Event.preparedFor tag) = [] := by
    rcases hu.tail_cases with rfl | ⟨t, res, rfl⟩ | ⟨c, -, rfl⟩ <;> rfl
  have hlt := UInt16.lt_iff_toNat_lt.mp htag
  have hprep : log.filterMap (Event.preparedFor tag) =
      (if tag.toNat < n then [w.fetchSQE tag] else []) ++
        (cycles.filter fun c => c.tag = tag).map fun c => w.commitSQE tag c.result := by
    rw [filterMap_parts (fun e he => by cases e <;> first | rfl | cases he) hlog, htail,
      preparedFor_fetches hn,
      filterMap_cycles _ (fun c => w.commitSQE tag c.result) cycle_prepared, List.append_nil]
  have htaken : log.filterMap (Event.takenFor tag) =
      ((cycles.filter fun c => c.tag = tag).map fun c => c.res) ++
        tail.filterMap (Event.takenFor tag) := by
    rw [filterMap_parts (fun e he => by cases e <;> first | rfl | cases he) hlog,
      fetches_none _ (fun _ => rfl),
      filterMap_cycles _ (fun c => c.res) cycle_taken, List.nil_append]
  have hhandled : log.filterMap (Event.handledFor tag) =
      ((cycles.filter fun c => c.tag = tag).map fun c => (c.desc, c.calls, c.result)) ++
        tail.filterMap (Event.handledFor tag) := by
    rw [filterMap_parts (fun e he => by cases e <;> first | rfl | cases he) hlog,
      fetches_none _ (fun _ => rfl),
      filterMap_cycles _ (fun c => (c.desc, c.calls, c.result)) cycle_handled, List.nil_append]
  rcases hu.fetched with rfl | rfl
  · rw [if_pos hlt] at hprep
    constructor
    · intro sqe hsqe
      rw [hprep] at hsqe
      cases hsqe
      exact w.reads_fill htag _ _ _
    · intro i sqe hsqe
      rw [hprep, List.singleton_append, List.getElem?_cons_succ, List.getElem?_map] at hsqe
      obtain ⟨c, hc, rfl⟩ := Option.map_eq_some_iff.mp hsqe
      refine ⟨c.res, c.desc, c.calls, c.result, ?_, ?_, w.reads_fill htag _ _ _⟩
      · rw [htaken, List.getElem?_append_left (by simpa using (List.getElem?_eq_some_iff.mp hc).1),
          List.getElem?_map, hc]
        rfl
      · rw [hhandled,
          List.getElem?_append_left (by simpa using (List.getElem?_eq_some_iff.mp hc).1),
          List.getElem?_map, hc]
        rfl
  · -- `init` has not fetched every tag: at most the `FETCH` of this one is there
    rw [List.filter_nil, List.map_nil, List.append_nil] at hprep
    constructor
    · intro sqe hsqe
      rw [hprep] at hsqe
      split_ifs at hsqe <;> cases hsqe
      exact w.reads_fill htag _ _ _
    · intro i sqe hsqe
      rw [hprep] at hsqe
      split_ifs at hsqe <;> cases hsqe

/-- What one call of `handleIO` returned. -/
def Returned (w : Worker) (bk : Backend β) (desc : IODesc) (calls : List (BackendCall × Reply))
    (result : Int32) : Prop :=
  ∃ buf b out, handleIO bk w.bufSize desc buf b = some out ∧ calls = out.calls ∧
    result = out.result

theorem Script.returned {log : List Event} {pc : PC} (h : Script w bk log pc) {request : Option Nat}
    {desc : IODesc} {calls : List (BackendCall × Reply)} {result : Int32}
    (hmem : .handled tag request desc calls result ∈ log) : Returned w bk desc calls result := by
  obtain ⟨n, cycles, tail, hlog, hn, hv, hu⟩ := h
  have hin : Event.handled tag request desc calls result ∈ log.filter Event.ofWorker :=
    List.mem_filter.mpr ⟨hmem, rfl⟩
  rw [hlog] at hin
  rcases List.mem_append.mp hin with hin | hin
  · rcases List.mem_append.mp hin with hin | hin
    · obtain ⟨t, -, ht⟩ := List.mem_map.mp hin
      cases ht
    · obtain ⟨c, hc, he⟩ := List.mem_flatMap.mp hin
      have heq : Event.handled tag request desc calls result = c.handled := by
        simpa [Cycle.events, Cycle.taken] using he
      cases heq
      exact (hv c hc).returned
  · rcases hu.tail_cases with rfl | ⟨t, res, rfl⟩ | ⟨c, hc, rfl⟩
    · cases hin
    · cases List.mem_singleton.mp hin
    · rcases List.mem_cons.mp hin with he | he
      · cases he
      · cases List.mem_singleton.mp he
        exact hc.returned

/-! ## Every run -/

/-- How completions, `handleIO` calls and commits correspond in a state of the machine. -/
structure Matched (w : Worker) (bk : Backend β) (s : World β) : Prop where
  /-- The worker takes a completion, handles it with one call and prepares its commit, before
  it does anything else. -/
  script : Script w bk s.log s.pc
  /-- For each tag the entries prepared answer its completions in order. -/
  answered : ∀ tag, tag < w.depth → Answered w tag s.log
  /-- Completions are taken in the order they were posted, none twice and none left out. -/
  delivered : s.log.filterMap Event.posted? =
    s.log.filterMap Event.taken? ++ s.ring.unread.map CQE.pair

theorem matched_of_run {ok : Core β → Action → Prop} {b : Worker.Boot β} (hb : b.Fits w)
    {as : List Action} {s : World β} (h : w.Run bk ok b as s) : Matched w bk s := by
  obtain ⟨k, kc, f, -, hp, hm, -⟩ := h.simulates hb
  obtain ⟨chead, hcq, -⟩ := hm.cq
  have hlog : s.log = f.log := congrArg Core.log hm.core
  have hpc : s.pc = f.pc := congrArg Core.pc hm.core
  have hscript : Script w bk s.log s.pc := by
    rw [hlog, hpc]
    exact Flow.script_of_path hp
  refine ⟨hscript, fun tag ht => hscript.answered ht, ?_⟩
  rw [hlog, hcq.unread_eq]
  exact (Flow.recorded_of_path hp).posted

/-- **Request/response matching.**  In every run the entries prepared for a tag answer that
tag's completions, one commit for each, with the result of the one `handleIO` call made for
it; and a request that meets the same descriptor and the same replies in another run, of any
backend with the same capabilities, gets the same result there. -/
theorem requests_matched (w : Worker) (bk : Backend β) (b : Worker.Boot β) (hb : b.Fits w)
    (as : List Action) (s : World β) (h : w.Run bk Anything b as s) :
    Matched w bk s ∧
      ∀ (β' : Type) (bk' : Backend β') (b' : Worker.Boot β') (as' : List Action) (s' : World β'),
        bk'.caps = bk.caps → b'.Fits w → w.Run bk' Anything b' as' s' →
        ∀ tag request desc calls result tag' request' calls' result',
          .handled tag request desc calls result ∈ s.log →
          .handled tag' request' desc calls' result' ∈ s'.log →
          calls.map Prod.snd = calls'.map Prod.snd → result = result' := by
  refine ⟨matched_of_run hb h, ?_⟩
  intro β' bk' b' as' s' hcaps hb' h' tag request desc calls result tag' request' calls' result'
    hin hin' hreplies
  obtain ⟨buf, x, out, hout, rfl, rfl⟩ := (matched_of_run hb h).script.returned hin
  obtain ⟨buf', x', out', hout', rfl, rfl⟩ := (matched_of_run hb' h').script.returned hin'
  exact handleIO_result_congr hcaps hout hout' hreplies

/-- Two completions, out of order, handled in one batch. -/
theorem requests_matched_small : ∃ s : World Unit,
    Worker.small.Run fullBackend Anything Worker.smallBoot
      (Worker.smallStart (.consumed 3) ++ [.post 2 0 0, .post 0 0 0] ++ Worker.smallFirst ++
        List.replicate 8 .work ++ [.enter (.consumed 2)]) s ∧
    s.log.filterMap Event.taken? = [(2, 0), (0, 0)] ∧
    s.log.filterMap Event.consumed? =
      [Worker.small.fetchSQE 0, Worker.small.fetchSQE 1, Worker.small.fetchSQE 2,
        Worker.small.commitSQE 2 512, Worker.small.commitSQE 0 512] ∧
    Matched Worker.small fullBackend s := by
  have hex : ∃ s : World Unit, Worker.small.Run fullBackend Anything Worker.smallBoot
      (Worker.smallStart (.consumed 3) ++ [.post 2 0 0, .post 0 0 0] ++ Worker.smallFirst ++
        List.replicate 8 .work ++ [.enter (.consumed 2)]) s ∧
      s.log.filterMap Event.taken? = [(2, 0), (0, 0)] ∧
      s.log.filterMap Event.consumed? =
        [Worker.small.fetchSQE 0, Worker.small.fetchSQE 1, Worker.small.fetchSQE 2,
          Worker.small.commitSQE 2 512, Worker.small.commitSQE 0 512] :=
    exists_run_of_exec (fun s : World Unit =>
      s.log.filterMap Event.taken? = _ ∧ s.log.filterMap Event.consumed? = _) (by decide +kernel)
  obtain ⟨s, hr, htaken, hconsumed⟩ := hex
  exact ⟨s, hr, htaken, hconsumed, (requests_matched _ _ _ Worker.small_fits _ s hr).1⟩

end
end Ublk
