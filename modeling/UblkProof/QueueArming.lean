import UblkProof.RequestMatching
import UblkProof.WorkerTurn

/-! # Arming the queue

`New` calls `startDev` after it received `nil` from the worker, and the worker sends `nil`
whenever its first `io_uring_enter` did not fail.  How many entries that call consumed is
returned by `SubmitAndWait` and dropped.  So the queue is armed when `startDev` is called
if the call consumed all of them, and not if it consumed fewer.
-/
namespace Ublk
open LittleEndian Runs
open Ublk.Ring (EnterReply)

/-- The command of a consumed entry, if it is a `FETCH_REQ` for `tag`. -/
def fetchOf (tag : UInt16) (sqe : SQE64) : Option IOCmd :=
  if sqe.off = uIOFetchReq.toUInt64 ∧ (IOCmd.decode sqe.cmd).tag = tag then
    some (IOCmd.decode sqe.cmd)
  else none

/-- For each tag the kernel has consumed one `FETCH_REQ`, with the tag's own buffer. -/
def Armed (w : Worker) (log : List Event) : Prop :=
  ∀ tag, tag < w.depth →
    ∃ cmd, (log.filterMap Event.consumed?).filterMap (fetchOf tag) = [cmd] ∧
      cmd.qid = w.qid ∧ cmd.addr.toNat = w.bufAddr tag.toNat

/-- The first system call of the worker is answered by `r`. -/
def FirstReply {β : Type} (r : EnterReply) (s : Core β) (a : Action) : Prop :=
  match s.pc, a with
  | .startEnter _, .enter reply => reply = r
  | _, _ => True

instance {β : Type} (r : EnterReply) (s : Core β) (a : Action) : Decidable (FirstReply r s a) := by
  unfold FirstReply
  split <;> infer_instance

/-- `nil` has been or will be sent. -/
def Ready.launched : Ready → Bool
  | .sending | .buffered none | .received none => true
  | _ => false

section
variable {β : Type}

namespace Flow
variable {w : Worker} {bk : Backend β} {r : EnterReply} {f f' : Flow β} {a : Action}

/-- The kernel has nothing yet, and nothing is sent. -/
structure Early (w : Worker) (f : Flow β) : Prop where
  ready : f.ready = .empty
  inflight : f.inflight = []
  unread : f.unread = []
  consumed : f.log.filterMap Event.consumed? = []
  queued : (∀ count, f.pc ≠ .startEnter count) → f.queued = []
  count : ∀ count, f.pc = .startEnter count → count.toNat = w.depth.toNat

/-- `nil` is sent only if the first call succeeded, and then what it consumed is consumed. -/
structure Launching (w : Worker) (r : EnterReply) (f : Flow β) : Prop where
  early : f.pc.early → f.Early w
  launched : f.ready.launched →
    ∃ k, r = .consumed k ∧ k ≤ (f.log.filterMap Event.consumed?).length

theorem launching_boot (b : Worker.Boot β) : (boot b).Launching w r where
  early := fun _ => ⟨rfl, rfl, rfl, rfl, fun _ => rfl, fun _ h => by cases h⟩
  launched := fun h => by cases h

theorem afterEnter_late (s : Core β) (ret : Except UringError Nat) :
    (Worker.afterEnter s ret).1.early = false := by
  unfold Worker.afterEnter
  split <;> rfl

theorem Move.early {pc pc' : PC} (hm : Move w f a pc pc') (h : pc'.early) :
    pc.early ∧ ∀ count, pc' ≠ .startEnter count ∧ pc ≠ .startEnter count := by
  cases hm with
  | initDone _ => exact ⟨rfl, fun _ => ⟨PC.noConfusion, PC.noConfusion⟩⟩
  | _ => cases h

theorem Flushing.early {pc next : PC} (hp : Flushing f pc next) (h : next.early) :
    pc = .start ∧ ∃ count, next = .startEnter count ∧ count.toNat = f.waiting.length := by
  cases hp with
  | start hc => exact ⟨rfl, _, rfl, hc⟩
  | _ => cases h

/-- At the first flush every tag waits. -/
theorem Inv.waiting_length (h : f.Inv w) (he : f.Early w) (hpc : f.pc = .start) :
    f.waiting.length = w.depth.toNat := by
  have hcard := h.card_le
  have hq := he.queued (by rw [hpc]; exact fun _ => PC.noConfusion)
  rw [he.inflight, he.unread, hq, hpc] at hcard
  exact hcard

theorem Launching.early_step (h : f.Launching w r) (hi : f.Inv w) (hs : Step w bk f a f')
    (hearly : f'.pc.early) : f'.Early w := by
  cases hs with
  | move hm =>
    obtain ⟨hold, hne⟩ := hm.early hearly
    have he := h.early hold
    exact ⟨he.ready, he.inflight, he.unread, he.consumed, fun _ => he.queued fun c => (hne c).2,
      fun c hc => absurd hc (hne c).1⟩
  | control hc =>
    have he := h.early hearly
    refine ⟨?_, he.inflight, he.unread, he.consumed, he.queued, he.count⟩
    cases hc with
    | signal hr => rw [he.ready] at hr; cases hr
    | receive hr => rw [he.ready] at hr; cases hr
    | cancelStore => exact he.ready
    | cancelWake _ => exact he.ready
  | fetch hpc _ =>
    have he := h.early (by rw [hpc]; rfl)
    refine ⟨he.ready, he.inflight, he.unread, ?_, fun _ => he.queued ?_, fun _ hc => by cases hc⟩
    · rw [List.filterMap_append, he.consumed]
      rfl
    · rw [hpc]
      exact fun _ => PC.noConfusion
  | publish hp =>
    obtain ⟨hpc, count, rfl, hcount⟩ := hp.early hearly
    have he := h.early (by rw [hpc]; rfl)
    refine ⟨he.ready, he.inflight, he.unread, ?_, fun hne => absurd rfl (hne count), ?_⟩
    · rw [List.filterMap_append, he.consumed, filterMap_map_none Event.consumed? _ (fun _ => rfl)]
      rfl
    · intro c hc
      cases hc
      rw [hcount, hi.waiting_length he hpc]
  | @enter count wrap reply he _ =>
    rw [show PC.early _ = false from afterEnter_late f.toCore (reply.ret wrap)] at hearly
    cases hearly
  | seen _ _ =>
    exfalso
    revert hearly
    show (PC.early (ite _ _ _)) = true → False
    split_ifs <;> exact Bool.noConfusion
  | serve _ _ _ => cases hearly
  | commit _ => cases hearly
  | issue hc => rw [(h.early hearly).inflight] at hc; cases hc
  | respond hc _ => rw [(h.early hearly).inflight] at hc; cases hc
  | post hc => rw [(h.early hearly).inflight] at hc; cases hc

/-- Consumption only grows. -/
theorem consumed_mono (hs : Step w bk f a f') :
    (f.log.filterMap Event.consumed?).length ≤ (f'.log.filterMap Event.consumed?).length := by
  have happend : ∀ es : List Event, (f.log.filterMap Event.consumed?).length ≤
      ((f.log ++ es).filterMap Event.consumed?).length := by
    intro es
    rw [List.filterMap_append, List.length_append]
    exact Nat.le_add_right _ _
  cases hs with
  | move _ | control _ => exact Nat.le_refl _
  | _ => exact happend _

/-- `nil` is first sent when the first system call succeeds. -/
theorem Entering.launched {s : Core β} {count : UInt32} {wrap : Errno → UringError}
    (he : Entering s.pc count wrap) {reply : EnterReply}
    (hl : (Worker.afterEnter s (reply.ret wrap)).2.launched) :
    s.ready.launched ∨ (s.pc = .startEnter count ∧ ∃ k, reply = .consumed k) := by
  unfold Worker.afterEnter at hl
  revert hl he
  generalize s.pc = pc
  intro he hl
  cases he with
  | start =>
    cases reply with
    | errno e => cases hl
    | consumed k => exact Or.inr ⟨rfl, k, rfl⟩
  | submit => cases reply <;> exact Or.inl hl

theorem Launching.step (h : f.Launching w r) (hi : f.Inv w)
    (hs : StepIf w bk (FirstReply r) f a f') : f'.Launching w r := by
  obtain ⟨hok, hs⟩ := hs
  refine ⟨h.early_step hi hs, ?_⟩
  -- what is sent stays sent, and consumption only grows
  have keep : (f.ready.launched → ∃ k, r = .consumed k ∧
      k ≤ (f'.log.filterMap Event.consumed?).length) := by
    intro hl
    obtain ⟨k, hr, hk⟩ := h.launched hl
    exact ⟨k, hr, Nat.le_trans hk (consumed_mono hs)⟩
  intro hl
  cases hs with
  | control hc =>
    cases hc with
    | signal hr => exact keep (by rw [hr]; rfl)
    | @receive err hr => exact keep (by rw [hr]; cases err <;> first | rfl | cases hl)
    | cancelStore => exact keep hl
    | cancelWake _ => exact keep hl
  | @enter count wrap reply he hlegal =>
    rcases he.launched hl with hold | ⟨hpc, k, rfl⟩
    · exact keep hold
    · have hloc := hi.loc
      rw [hpc] at hloc
      have hk : k ≤ f.queued.length := Nat.le_trans hlegal hloc.2
      unfold FirstReply at hok
      rw [hpc] at hok
      refine ⟨k, hok.symm, ?_⟩
      show k ≤ ((f.log ++ (f.queued.take k).map Event.consumed).filterMap Event.consumed?).length
      rw [List.filterMap_append, filterMap_map_some Event.consumed? _ id (fun _ => rfl),
        List.map_id, List.length_append, List.length_take, Nat.min_eq_left hk]
      exact Nat.le_add_left _ _
  | _ => exact keep hl

theorem launching_of_path {b : Worker.Boot β} {as : List Action}
    (h : Path (StepIf w bk (FirstReply r)) (boot b) as f) : f.Launching w r := by
  refine holds_of_path (P := fun f => f.Launching w r) (launching_boot b) ?_ h
  intro f a f' hi hl hok hs
  exact hl.step hi ⟨hok, hs⟩

end Flow

/-! ## Full consumption arms the queue -/

section
variable {w : Worker} {bk : Backend β} {tag : UInt16}

theorem fetchOf_fetches (h : tag < w.depth) :
    ((List.range w.depth.toNat).map fun t => w.fetchSQE (UInt16.ofNat t)).filterMap (fetchOf tag) =
      [w.ioCmd tag 0] := by
  rw [List.filterMap_map, filterMap_range _ tag.toNat (w.ioCmd tag 0),
    if_pos (UInt16.lt_iff_toNat_lt.mp h)]
  intro t ht
  show fetchOf tag (w.fill _ _ _ _) = _
  have hiff : (w.ioCmd (UInt16.ofNat t) 0).tag = tag ↔ t = tag.toNat := by
    rw [← UInt16.toNat_inj]
    exact Eq.congr_left (toNat_ofNat_lt ht)
  unfold fetchOf
  rw [w.decode_fill]
  by_cases he : t = tag.toNat
  · rw [if_pos ⟨rfl, hiff.mpr he⟩, if_pos he, he, UInt16.ofNat_toNat]
  · rw [if_neg (fun hc => he (hiff.mp hc.2)), if_neg he]

theorem fetchOf_commits (cycles : List Cycle) :
    (cycles.map fun c => w.commitSQE c.tag c.result).filterMap (fetchOf tag) = [] := by
  rw [List.filterMap_eq_nil_iff]
  intro sqe hsqe
  obtain ⟨c, -, rfl⟩ := List.mem_map.mp hsqe
  exact if_neg fun hc => absurd hc.1
    (show uIOCommitAndFetchReq.toUInt64 ≠ uIOFetchReq.toUInt64 by decide)

/-- Entries are consumed in the order they were prepared, so once `depth` of them are, all
the fetches are. -/
theorem armed_of_consumed {f : Flow β} (hrec : f.Recorded) (hscript : Script w bk f.log f.pc)
    (hpc : ∀ tag, f.pc ≠ .init tag)
    (hlen : w.depth.toNat ≤ (f.log.filterMap Event.consumed?).length) : Armed w f.log := by
  obtain ⟨n, cycles, tail, hu, hprep, -⟩ := hscript.accounts
  obtain rfl := hu.late hpc
  intro tag htag
  have hconsumed : f.log.filterMap Event.consumed? =
      ((List.range w.depth.toNat).map fun t => w.fetchSQE (UInt16.ofNat t)) ++
        ((cycles.take ((f.log.filterMap Event.consumed?).length - w.depth.toNat)).map
          fun c => w.commitSQE c.tag c.result) := by
    have htake := congrArg (List.take (f.log.filterMap Event.consumed?).length)
      (hrec.prepared.symm.trans hprep)
    rw [List.take_left, List.take_append, List.take_of_length_le (by simpa using hlen)] at htake
    rw [htake]
    simp
  refine ⟨w.ioCmd tag 0, ?_, rfl, w.bufAddr_toNat (UInt16.lt_iff_toNat_lt.mp htag)⟩
  rw [hconsumed, List.filterMap_append, fetchOf_fetches htag, fetchOf_commits, List.append_nil]

/-- An armed queue has at least `depth` entries consumed. -/
theorem Armed.length_le {log : List Event} (h : Armed w log) :
    w.depth.toNat ≤ (log.filterMap Event.consumed?).length := by
  have hsub : List.range w.depth.toNat ⊆ (log.filterMap Event.consumed?).map
      fun sqe => (IOCmd.decode sqe.cmd).tag.toNat := by
    intro t ht
    have hlt := List.mem_range.mp ht
    obtain ⟨cmd, hcmd, -⟩ := h (UInt16.ofNat t)
      (UInt16.lt_iff_toNat_lt.mpr (by rwa [toNat_ofNat_lt hlt]))
    obtain ⟨sqe, hsqe, hsome⟩ := List.mem_filterMap.mp (hcmd ▸ List.mem_singleton_self cmd)
    unfold fetchOf at hsome
    split_ifs at hsome with hc
    exact List.mem_map.mpr ⟨sqe, hsqe, by rw [hc.2, toNat_ofNat_lt hlt]⟩
  have := (List.nodup_range.subperm hsub).length_le
  rwa [List.length_range, List.length_map] at this

/-! ## The worker reaches its first system call -/

variable {ok : Core β → Action → Prop} {b : Worker.Boot β}

/-- `init`'s loop ends, by induction on the tags that are left. -/
theorem run_init (hok : ∀ s : Core β, ok s .work) : ∀ (m : Nat) {as : List Action} {s : World β}
    {tag : UInt16}, w.Run bk ok b as s → s.pc = .init tag → w.depth.toNat - tag.toNat = m →
    ∃ as' s', w.Run bk ok b as' s' ∧ s'.pc = .start
  | 0, as, s, tag, h, hpc, hm => by
      have hge : ¬ tag < w.depth := fun hlt => by
        have := UInt16.lt_iff_toNat_lt.mp hlt
        omega
      have hstep : w.step bk s .work = some { s with pc := .start } := by
        simp only [Worker.step, Worker.work, hpc, if_neg hge]
      exact ⟨_, _, h.next (hok _) hstep, rfl⟩
  | m + 1, as, s, tag, h, hpc, hm => by
      have hlt : tag < w.depth := UInt16.lt_iff_toNat_lt.mpr (by omega)
      have hstep : w.step bk s .work = some (Worker.prepared s tag (.init (tag + 1))
          (w.prepareFetch tag s.ring)) := by
        simp only [Worker.step, Worker.work, hpc, if_pos hlt]
      refine run_init hok m (h.next (hok _) hstep) (Worker.prepared_keeps _ _ _ _).1 ?_
      rw [Flow.succ_toNat hlt]
      omega

theorem run_startEnter (w : Worker) (bk : Backend β) (b : Worker.Boot β)
    (hok : ∀ s : Core β, ok s .work) :
    ∃ as s count, w.Run bk ok b as s ∧ s.pc = .startEnter count := by
  have hstart : w.Run bk ok b [] (Worker.boot b) := .start
  obtain ⟨as, s, hr, hpc⟩ := run_init hok _ hstart rfl rfl
  have hstep : w.step bk s .work = some { s with
      ring := s.ring.flushSQ.2
      log := s.log ++ s.ring.unpublished.map .published
      pc := .startEnter s.ring.flushSQ.1 } := by
    simp only [Worker.step, Worker.work, hpc]
  exact ⟨_, _, _, hr.next (hok _) hstep, rfl⟩

/-- A first call that consumes `j` entries is followed by `startDev` with `j` consumed. -/
theorem run_short (bk : Backend β) (hb : b.Fits w) {j : Nat} (hj : j ≤ w.depth.toNat) :
    ∃ as s, w.Run bk (FirstReply (.consumed j)) b as s ∧ s.ready = .received none ∧
      (s.log.filterMap Event.consumed?).length = j := by
  have hwork : ∀ s : Core β, FirstReply (.consumed j) s .work := by
    intro s
    unfold FirstReply
    split <;> trivial
  obtain ⟨as, s, count, hr, hpc⟩ := run_startEnter w bk b hwork
  obtain ⟨k, kc, f, -, hp, hm, hi⟩ := hr.simulates hb
  have hfpc : f.pc = .startEnter count := (congrArg Core.pc hm.core).symm.trans hpc
  have he := (Flow.launching_of_path hp).early (by rw [hfpc]; rfl)
  have hloc := hi.loc
  rw [hfpc] at hloc
  have hcount := he.count count hfpc
  have hlegal : (EnterReply.consumed j).Legal count := show j ≤ count.toNat from hcount ▸ hj
  obtain ⟨head, hsq⟩ := hm.sq
  have hread : (s.ring.enter count .enterSubmitWait (.consumed j)).read = f.queued.take j :=
    (hsq.enter count _ (Nat.le_trans hlegal hloc.2)).1
  have hstep : w.step bk s (.enter (.consumed j)) = some { s with
      toCore := { s.toCore.consume (s.ring.enter count .enterSubmitWait (.consumed j)).read with
        pc := .waitCheck, ready := .sending }
      ring := (s.ring.enter count .enterSubmitWait (.consumed j)).ring } := by
    simp only [Worker.step, Worker.enter, hpc, Worker.enterWith, if_pos hlegal]
    simp only [Worker.afterEnter, hpc]
    rfl
  have hfirst : FirstReply (.consumed j) s.toCore (.enter (.consumed j)) := by
    unfold FirstReply
    rw [hpc]
  refine ⟨_, _, ((hr.next hfirst hstep).next (a := .signal) ?_ rfl).next (a := .receive) ?_ rfl,
    rfl, ?_⟩
  · trivial
  · trivial
  · have hold : s.log.filterMap Event.consumed? = [] :=
      (congrArg (fun c => (Core.log c).filterMap Event.consumed?) hm.core).trans he.consumed
    show ((s.log ++ (s.ring.enter count .enterSubmitWait (.consumed j)).read.map
      Event.consumed).filterMap Event.consumed?).length = j
    rw [List.filterMap_append, hold, filterMap_map_some Event.consumed? _ id (fun _ => rfl), hread,
      List.map_id, List.nil_append, List.length_take]
    exact Nat.min_eq_left (Nat.le_trans hlegal hloc.2)

end

/-- **`startDev` is called with the queue armed, for exactly these replies.**  For every reply `r`
the kernel may give to the worker's first `io_uring_enter`: the queue is armed whenever
`New` has received `nil`, in every run with that reply, if and only if `r` is an error or
consumes every entry. -/
theorem start_dev_armed_iff (w : Worker) (bk : Backend β) (b : Worker.Boot β) (hb : b.Fits w)
    (r : EnterReply) (hr : r.Legal w.depth.toUInt32) :
    (∀ as s, w.Run bk (FirstReply r) b as s → s.ready = .received none → Armed w s.log) ↔
      (∃ e, r = .errno e) ∨ r = .consumed w.depth.toNat := by
  constructor
  · intro h
    cases r with
    | errno e => exact Or.inl ⟨e, rfl⟩
    | consumed j =>
      have hj : j ≤ w.depth.toNat := UInt16.toNat_toUInt32 w.depth ▸ hr
      obtain ⟨as, s, hrun, hready, hlen⟩ := run_short bk hb hj
      have hle := (h as s hrun hready).length_le
      rw [hlen] at hle
      exact Or.inr (congrArg _ (Nat.le_antisymm hj hle))
  · intro h as s hrun hready
    obtain ⟨k, kc, f, -, hp, hm, hi⟩ := hrun.simulates hb
    have hfready : f.ready = .received none := (congrArg Core.ready hm.core).symm.trans hready
    have hl := Flow.launching_of_path hp
    obtain ⟨j, rfl, hj⟩ := hl.launched (by rw [hfready]; rfl)
    obtain rfl : j = w.depth.toNat := by
      rcases h with ⟨e, he⟩ | he
      · cases he
      · cases he; rfl
    rw [show s.log = f.log from congrArg Core.log hm.core]
    refine armed_of_consumed (Flow.recorded_of_path hp) (Flow.script_of_path hp) ?_ hj
    intro tag hpc
    have hready := (hl.early (by rw [hpc]; rfl)).ready
    rw [hfready] at hready
    cases hready

/-- All three fetches are consumed, and `New` goes on. -/
theorem start_dev_armed_small : ∃ s : World Unit,
    Worker.small.Run fullBackend (FirstReply (.consumed 3)) Worker.smallBoot
      (Worker.smallStart (.consumed 3) ++ [.signal, .receive]) s ∧
    s.ready = .received none ∧ Armed Worker.small s.log := by
  have hex : ∃ s : World Unit, Worker.small.Run fullBackend (FirstReply (.consumed 3))
      Worker.smallBoot (Worker.smallStart (.consumed 3) ++ [.signal, .receive]) s ∧
      s.ready = .received none :=
    exists_run_of_exec (fun s : World Unit => s.ready = .received none) (by decide +kernel)
  obtain ⟨s, hr, hready⟩ := hex
  exact ⟨s, hr, hready, (start_dev_armed_iff _ fullBackend _ Worker.small_fits (.consumed 3)
    (by decide)).mpr (Or.inr rfl) _ s hr hready⟩

/-- **`startDev` after a short submission.**  The kernel consumed two of the three fetches; `New`
is told `nil`, and tag 2 is never fetched. -/
theorem start_dev_after_short_submit : ∃ s : World Unit,
    Worker.small.Run fullBackend Anything Worker.smallBoot
      (Worker.smallStart (.consumed 2) ++ [.signal, .receive]) s ∧
    s.ready = .received none ∧ ¬ Armed Worker.small s.log := by
  have hex : ∃ s : World Unit, Worker.small.Run fullBackend Anything Worker.smallBoot
      (Worker.smallStart (.consumed 2) ++ [.signal, .receive]) s ∧
      s.ready = .received none ∧
      (s.log.filterMap Event.consumed?).filterMap (fetchOf 2) = [] :=
    exists_run_of_exec (fun s : World Unit => s.ready = .received none ∧
      (s.log.filterMap Event.consumed?).filterMap (fetchOf 2) = []) (by decide +kernel)
  obtain ⟨s, hr, hready, hnone⟩ := hex
  refine ⟨s, hr, hready, fun harmed => ?_⟩
  obtain ⟨cmd, hcmd, -⟩ := harmed 2 (by decide)
  rw [hnone] at hcmd
  cases hcmd

end
end Ublk
