import UblkProof.WorkerSimulation

/-! # What the log of a run shows

Three facts relate the log to the lists of a flow.  The entries prepared have been
consumed, are queued, or wait, in this order; those published have been consumed or are
queued; the completions posted have been taken or are unread.

`Script` is the shape of the worker's own part of the log.  It begins with one `FETCH` for
each tag and goes on with cycles of three events: a completion is taken, its request is
handled, the commit is prepared.  A cycle is never interleaved with another.
-/
namespace Ublk
open Runs

/-! ## Projections -/

namespace Event

/-- The entry an event is about, or the tag and result, by kind of event. -/
def prepared? : Event → Option SQE64
  | .prepared sqe => some sqe
  | _ => none

def published? : Event → Option SQE64
  | .published sqe => some sqe
  | _ => none

def consumed? : Event → Option SQE64
  | .consumed sqe => some sqe
  | _ => none

def posted? : Event → Option (UInt16 × Int32)
  | .posted c => some (c.userData.toUInt16, c.res)
  | _ => none

def taken? : Event → Option (UInt16 × Int32)
  | .taken tag res => some (tag, res)
  | _ => none

/-- An answer of the backend side: the descriptor, the calls made, and the result. -/
def handled? : Event → Option (UInt16 × IODesc × List (BackendCall × Reply) × Int32)
  | .handled tag _ desc calls result => some (tag, desc, calls, result)
  | _ => none

/-- Events of the worker itself. -/
def ofWorker : Event → Bool
  | .prepared _ | .lost _ | .taken _ _ | .handled _ _ _ _ _ => true
  | _ => false

end Event

/-- What the worker reads of a completion. -/
def CQE.pair (c : CQE) : UInt16 × Int32 := (c.userData.toUInt16, c.res)

section
variable {β : Type}

theorem filterMap_one {δ : Type} (g : Event → Option δ) (e : Event) :
    [e].filterMap g = (g e).toList := by
  cases h : g e with
  | none => rw [List.filterMap_cons_none h]; rfl
  | some x => rw [List.filterMap_cons_some h]; rfl

/-- A projection that picks one number of a range. -/
theorem filterMap_range {δ : Type} (g : Nat → Option δ) (i : Nat) (x : δ) {n : Nat}
    (h : ∀ t, t < n → g t = if t = i then some x else none) :
    (List.range n).filterMap g = if i < n then [x] else [] := by
  induction n with
  | zero => rfl
  | succ n ih =>
    have hlast : [n].filterMap g = if n = i then [x] else [] := by
      rw [List.filterMap_cons, h n (Nat.lt_succ_self n)]
      split_ifs <;> rfl
    rw [List.range_succ, List.filterMap_append, ih (fun t ht => h t (Nat.lt_succ_of_lt ht)), hlast]
    by_cases he : n = i
    · subst he
      simp
    · have hiff : i < n ↔ i < n + 1 := by omega
      simp only [if_neg he, hiff, List.append_nil]

/-- No event of `l` is of the projected kind. -/
theorem filterMap_map_none {γ δ : Type} (g : Event → Option δ) (mk : γ → Event)
    (h : ∀ x, g (mk x) = none) (l : List γ) : (l.map mk).filterMap g = [] := by
  rw [List.filterMap_eq_nil_iff]
  intro e he
  obtain ⟨x, -, rfl⟩ := List.mem_map.mp he
  exact h x

/-- Every event of `l` is. -/
theorem filterMap_map_some {γ δ : Type} (g : Event → Option δ) (mk : γ → Event) (p : γ → δ)
    (h : ∀ x, g (mk x) = some (p x)) (l : List γ) : (l.map mk).filterMap g = l.map p := by
  rw [List.filterMap_map, ← List.filterMap_eq_map]
  exact congrArg (List.filterMap · l) (funext h)

namespace Flow
variable {w : Worker} {bk : Backend β} {f f' : Flow β} {a : Action}

/-! ## The log against the lists -/

/-- The log agrees with the queues: what was put in is what was taken out and what is still there,
in order. -/
structure Recorded (f : Flow β) : Prop where
  prepared : f.log.filterMap Event.prepared? =
    f.log.filterMap Event.consumed? ++ (f.queued ++ f.waiting)
  published : f.log.filterMap Event.published? = f.log.filterMap Event.consumed? ++ f.queued
  posted : f.log.filterMap Event.posted? = f.log.filterMap Event.taken? ++ f.unread.map CQE.pair

theorem recorded_boot (b : Worker.Boot β) : (boot b).Recorded := ⟨rfl, rfl, rfl⟩

/-- An event that belongs to none of the three accounts. -/
theorem Recorded.append (h : f.Recorded) {e : Event} (h1 : e.prepared? = none)
    (h2 : e.published? = none) (h3 : e.consumed? = none) (h4 : e.posted? = none)
    (h5 : e.taken? = none) (core : Core β) (hlog : core.log = f.log ++ [e]) :
    Recorded { f with toCore := core } := by
  have keep : ∀ {δ : Type} (g : Event → Option δ), g e = none →
      core.log.filterMap g = f.log.filterMap g := by
    intro δ g hg
    rw [hlog, List.filterMap_append, filterMap_one, hg, Option.toList_none, List.append_nil]
  refine ⟨?_, ?_, ?_⟩
  · show core.log.filterMap _ = core.log.filterMap _ ++ _
    rw [keep _ h1, keep _ h3]
    exact h.prepared
  · show core.log.filterMap _ = core.log.filterMap _ ++ _
    rw [keep _ h2, keep _ h3]
    exact h.published
  · show core.log.filterMap _ = core.log.filterMap _ ++ _
    rw [keep _ h4, keep _ h5]
    exact h.posted

theorem Recorded.step (hi : f.Inv w) (h : f.Recorded) (hs : Step w bk f a f') : f'.Recorded := by
  cases hs with
  | move _ | control _ => exact ⟨h.prepared, h.published, h.posted⟩
  | serve _ _ _ => exact h.append rfl rfl rfl rfl rfl _ rfl
  | issue _ => exact h.append rfl rfl rfl rfl rfl _ rfl
  | respond _ _ => exact h.append rfl rfl rfl rfl rfl _ rfl
  | fetch _ _ | commit _ =>
    refine ⟨?_, ?_, ?_⟩ <;> simp only [List.filterMap_append]
    · rw [h.prepared]
      simp [filterMap_one, Event.prepared?, Event.consumed?]
    · rw [h.published]
      simp [filterMap_one, Event.published?, Event.consumed?]
    · rw [h.posted]
      simp [filterMap_one, Event.posted?, Event.taken?]
  | publish _ =>
    refine ⟨?_, ?_, ?_⟩ <;> simp only [List.filterMap_append]
    · rw [h.prepared, filterMap_map_none Event.prepared? _ (fun _ => rfl),
        filterMap_map_none Event.consumed? _ (fun _ => rfl)]
      simp
    · rw [h.published, filterMap_map_some Event.published? _ id (fun _ => rfl),
        filterMap_map_none Event.consumed? _ (fun _ => rfl)]
      simp
    · rw [h.posted, filterMap_map_none Event.posted? _ (fun _ => rfl),
        filterMap_map_none Event.taken? _ (fun _ => rfl)]
      simp
  | @enter count wrap reply _ _ =>
    refine ⟨?_, ?_, ?_⟩ <;> simp only [Core.consume, List.filterMap_append]
    · rw [h.prepared, filterMap_map_none Event.prepared? _ (fun _ => rfl),
        filterMap_map_some Event.consumed? _ id (fun _ => rfl), List.map_id, List.append_nil,
        List.append_assoc, ← List.append_assoc (f.queued.take _), List.take_append_drop]
    · rw [h.published, filterMap_map_none Event.published? _ (fun _ => rfl),
        filterMap_map_some Event.consumed? _ id (fun _ => rfl), List.map_id, List.append_nil,
        List.append_assoc, List.take_append_drop]
    · rw [h.posted, filterMap_map_none Event.posted? _ (fun _ => rfl),
        filterMap_map_none Event.taken? _ (fun _ => rfl), List.append_nil, List.append_nil]
  | @seen origin tag res c cs hpc hun =>
    have hpair : c.pair = (tag, res) := by
      have hloc := hi.loc
      rw [hpc] at hloc
      obtain ⟨-, c', cs', hc', rfl, rfl⟩ := hloc
      obtain ⟨rfl, -⟩ := List.cons.inj (hun.symm.trans hc')
      rfl
    refine ⟨?_, ?_, ?_⟩ <;> simp only [List.filterMap_append]
    · rw [h.prepared]
      simp [filterMap_one, Event.prepared?, Event.consumed?]
    · rw [h.published]
      simp [filterMap_one, Event.published?, Event.consumed?]
    · rw [h.posted, hun]
      simp [filterMap_one, Event.posted?, Event.taken?, hpair]
  | @post i c res flags _ =>
    refine ⟨?_, ?_, ?_⟩ <;> simp only [Core.post, List.filterMap_append]
    · rw [h.prepared]
      simp [filterMap_one, Event.prepared?, Event.consumed?]
    · rw [h.published]
      simp [filterMap_one, Event.published?, Event.consumed?]
    · rw [h.posted]
      simp [filterMap_one, Event.posted?, Event.taken?, CQE.pair]

theorem recorded_of_path {ok : Core β → Action → Prop} {b : Worker.Boot β} {as : List Action}
    (h : Path (StepIf w bk ok) (boot b) as f) : f.Recorded := by
  refine holds_of_path (recorded_boot b) ?_ h
  intro f a f' hi hr _ hs
  exact hr.step hi hs

end Flow

/-! ## The worker's script -/

/-- One turn of the inner loop of `run`. -/
structure Cycle where
  tag : UInt16
  res : Int32
  request : Option Nat
  desc : IODesc
  calls : List (BackendCall × Reply)
  result : Int32

namespace Cycle

/-- The events of a cycle, one by one and together. -/
def taken (c : Cycle) : Event := .taken c.tag c.res

def handled (c : Cycle) : Event := .handled c.tag c.request c.desc c.calls c.result

def events (w : Worker) (c : Cycle) : List Event :=
  [c.taken, c.handled, .prepared (w.commitSQE c.tag c.result)]

/-- The tag is in range, the completion was no failure, and the result is what one call of
`handleIO` on the descriptor returned. -/
structure Valid (w : Worker) (bk : Backend β) (c : Cycle) : Prop where
  tag_lt : c.tag < w.depth
  res_nonneg : ¬ c.res < 0
  returned : ∃ buf b out, handleIO bk w.bufSize c.desc buf b = some out ∧ c.calls = out.calls ∧
    c.result = out.result

end Cycle

/-- The entries of `init`'s first `n` turns. -/
def Worker.fetches (w : Worker) (n : Nat) : List Event :=
  (List.range n).map fun t => .prepared (w.fetchSQE (UInt16.ofNat t))

/-- How far the worker is: `n` tags fetched, then `cycles`, then the part of a cycle that
its position says. -/
def Unfinished (w : Worker) (bk : Backend β) (n : Nat) (cycles : List Cycle) (tail : List Event) :
    PC → Prop
  | .init tag => n = tag.toNat ∧ cycles = [] ∧ tail = []
  | .handle tag => n = w.depth.toNat ∧ ∃ res, ¬ res < 0 ∧ tail = [.taken tag res]
  | .commit tag result => n = w.depth.toNat ∧
      ∃ c : Cycle, c.Valid w bk ∧ c.tag = tag ∧ c.result = result ∧ tail = [c.taken, c.handled]
  | .done (.negativeRes _ tag) => n = w.depth.toNat ∧ ∃ res, res < 0 ∧ tail = [.taken tag res]
  | _ => n = w.depth.toNat ∧ tail = []

section
variable {w : Worker} {bk : Backend β} {n : Nat} {cycles : List Cycle} {tail : List Event} {pc : PC}

/-- There are cycles only once every tag is fetched. -/
theorem Unfinished.fetched (h : Unfinished w bk n cycles tail pc) :
    n = w.depth.toNat ∨ cycles = [] := by
  cases pc with
  | init _ => exact Or.inr h.2.1
  | done exit => cases exit <;> exact Or.inl h.1
  | _ => exact Or.inl h.1

theorem Unfinished.late (h : Unfinished w bk n cycles tail pc) (hpc : ∀ tag, pc ≠ .init tag) :
    n = w.depth.toNat := by
  cases pc with
  | init tag => exact absurd rfl (hpc tag)
  | done exit => cases exit <;> exact h.1
  | _ => exact h.1

/-- The part of a cycle that can be unfinished: a completion taken, or taken and handled. -/
theorem Unfinished.tail_cases (h : Unfinished w bk n cycles tail pc) :
    tail = [] ∨ (∃ tag res, tail = [.taken tag res]) ∨
      ∃ c : Cycle, c.Valid w bk ∧ tail = [c.taken, c.handled] := by
  cases pc with
  | init tag => exact Or.inl h.2.2
  | handle tag =>
    obtain ⟨-, res, -, ht⟩ := h
    exact Or.inr (Or.inl ⟨tag, res, ht⟩)
  | commit tag result =>
    obtain ⟨-, c, hc, -, -, ht⟩ := h
    exact Or.inr (Or.inr ⟨c, hc, ht⟩)
  | done exit =>
    cases exit with
    | negativeRes origin tag =>
      obtain ⟨-, res, -, ht⟩ := h
      exact Or.inr (Or.inl ⟨tag, res, ht⟩)
    | _ => exact Or.inl h.2
  | _ => exact Or.inl h.2

end

/-- The worker's part of the log. -/
def Script (w : Worker) (bk : Backend β) (log : List Event) (pc : PC) : Prop :=
  ∃ n cycles tail, log.filter Event.ofWorker =
      w.fetches n ++ cycles.flatMap (Cycle.events w) ++ tail ∧
    n ≤ w.depth.toNat ∧ (∀ c ∈ cycles, c.Valid w bk) ∧ Unfinished w bk n cycles tail pc

/-- Events of others do not show in a projection that ignores them. -/
theorem filterMap_ofWorker {δ : Type} (g : Event → Option δ)
    (hg : ∀ e, e.ofWorker = false → g e = none) (log : List Event) :
    (log.filter Event.ofWorker).filterMap g = log.filterMap g := by
  rw [List.filterMap_filter]
  refine congrArg (List.filterMap · log) (funext fun e => ?_)
  by_cases he : e.ofWorker
  · rw [if_pos he]
  · rw [if_neg he, hg e (Bool.not_eq_true _ ▸ he)]

/-- A projection of a log whose worker's part is `as ++ bs ++ cs`. -/
theorem filterMap_parts {δ : Type} {g : Event → Option δ}
    (hg : ∀ e, e.ofWorker = false → g e = none) {log as bs cs : List Event}
    (hlog : log.filter Event.ofWorker = as ++ bs ++ cs) :
    log.filterMap g = as.filterMap g ++ bs.filterMap g ++ cs.filterMap g := by
  rw [← filterMap_ofWorker g hg, hlog, List.filterMap_append, List.filterMap_append]

namespace Script
variable {w : Worker} {bk : Backend β} {log es : List Event} {pc pc' : PC}

/-- Events of others do not show. -/
theorem other (h : Script w bk log pc) (hes : es.filter Event.ofWorker = [])
    (hpc : ∀ n cycles tail, Unfinished w bk n cycles tail pc → Unfinished w bk n cycles tail pc') :
    Script w bk (log ++ es) pc' := by
  obtain ⟨n, cycles, tail, hlog, hn, hv, hu⟩ := h
  refine ⟨n, cycles, tail, ?_, hn, hv, hpc _ _ _ hu⟩
  rw [List.filter_append, hes, List.append_nil]
  exact hlog

theorem goto (h : Script w bk log pc)
    (hpc : ∀ n cycles tail, Unfinished w bk n cycles tail pc → Unfinished w bk n cycles tail pc') :
    Script w bk log pc' := by
  obtain ⟨n, cycles, tail, hlog, hn, hv, hu⟩ := h
  exact ⟨n, cycles, tail, hlog, hn, hv, hpc _ _ _ hu⟩

theorem fetch {tag : UInt16} (h : Script w bk log (.init tag)) (hlt : tag < w.depth) :
    Script w bk (log ++ [.prepared (w.fetchSQE tag)]) (.init (tag + 1)) := by
  obtain ⟨n, cycles, tail, hlog, hn, hv, rfl, rfl, rfl⟩ := h
  refine ⟨tag.toNat + 1, [], [], ?_, UInt16.lt_iff_toNat_lt.mp hlt, hv, ?_, rfl, rfl⟩
  · rw [List.filter_append, hlog, Worker.fetches, Worker.fetches, List.range_succ, List.map_append,
      List.map_singleton, UInt16.ofNat_toNat]
    simp [Event.ofWorker]
  · exact (Flow.succ_toNat hlt).symm

theorem seen {origin : Origin} {tag : UInt16} {res : Int32}
    (h : Script w bk log (.seen origin tag res)) :
    Script w bk (log ++ [.taken tag res])
      (if res < 0 then .done (.negativeRes origin tag) else .handle tag) := by
  obtain ⟨n, cycles, tail, hlog, hn, hv, rfl, rfl⟩ := h
  refine ⟨w.depth.toNat, cycles, [.taken tag res], ?_, Nat.le_refl _, hv, ?_⟩
  · rw [List.filter_append, hlog, List.append_nil]
    rfl
  · split_ifs with hneg
    · exact ⟨rfl, res, hneg, rfl⟩
    · exact ⟨rfl, res, hneg, rfl⟩

theorem serve {tag : UInt16} (h : Script w bk log (.handle tag)) (hlt : tag < w.depth)
    {desc : IODesc} {buf : List UInt8} {b : β} {out : Handled β}
    (hout : handleIO bk w.bufSize desc buf b = some out) (request : Option Nat) :
    Script w bk (log ++ [.handled tag request desc out.calls out.result])
      (.commit tag out.result) := by
  obtain ⟨n, cycles, tail, hlog, hn, hv, rfl, res, hres, rfl⟩ := h
  refine ⟨w.depth.toNat, cycles, [.taken tag res, .handled tag request desc out.calls out.result],
    ?_, Nat.le_refl _, hv, rfl, ⟨tag, res, request, desc, out.calls, out.result⟩,
    ⟨hlt, hres, buf, b, out, hout, rfl, rfl⟩, rfl, rfl, rfl⟩
  rw [List.filter_append, hlog, List.append_assoc _ [_]]
  rfl

theorem commit {tag : UInt16} {result : Int32} (h : Script w bk log (.commit tag result)) :
    Script w bk (log ++ [.prepared (w.commitSQE tag result)]) .peek := by
  obtain ⟨n, cycles, tail, hlog, hn, hv, rfl, c, hc, rfl, rfl, rfl⟩ := h
  refine ⟨w.depth.toNat, cycles ++ [c], [], ?_, Nat.le_refl _, ?_, rfl, rfl⟩
  · rw [List.filter_append, hlog, List.flatMap_append, List.flatMap_singleton, List.append_nil,
      List.append_assoc, List.append_assoc]
    rfl
  · exact List.forall_mem_append.mpr ⟨hv, List.forall_mem_singleton.mpr hc⟩

/-- What was prepared and what was handled, from the script. -/
theorem accounts (h : Script w bk log pc) : ∃ n cycles tail, Unfinished w bk n cycles tail pc ∧
    log.filterMap Event.prepared? =
      (List.range n).map (fun t => w.fetchSQE (UInt16.ofNat t)) ++
        cycles.map (fun c => w.commitSQE c.tag c.result) ∧
    log.filterMap Event.handled? =
      cycles.map (fun c => (c.tag, c.desc, c.calls, c.result)) ++
        tail.filterMap Event.handled? := by
  obtain ⟨n, cycles, tail, hlog, -, -, hu⟩ := h
  refine ⟨n, cycles, tail, hu, ?_, ?_⟩
  · have htail : tail.filterMap Event.prepared? = [] := by
      rcases hu.tail_cases with rfl | ⟨t, res, rfl⟩ | ⟨c, -, rfl⟩ <;> rfl
    rw [filterMap_parts (fun e he => by cases e <;> first | rfl | cases he) hlog, htail,
      List.append_nil, Worker.fetches,
      filterMap_map_some Event.prepared? _ (fun t => w.fetchSQE (UInt16.ofNat t)) (fun _ => rfl),
      List.filterMap_flatMap, ← List.flatMap_singleton' (cycles.map _), List.flatMap_map]
    rfl
  · rw [filterMap_parts (fun e he => by cases e <;> first | rfl | cases he) hlog, Worker.fetches,
      filterMap_map_none Event.handled? _ (fun _ => rfl), List.nil_append, List.filterMap_flatMap,
      ← List.flatMap_singleton' (cycles.map _), List.flatMap_map]
    rfl

end Script

namespace Flow
variable {w : Worker} {bk : Backend β} {f f' : Flow β} {a : Action}

theorem Move.unfinished {pc pc' : PC} (hm : Move w f a pc pc')
    (hloc : Local w f.waiting f.queued f.unread pc) {n : Nat} {cycles : List Cycle}
    {tail : List Event} (h : Unfinished w bk n cycles tail pc) :
    Unfinished w bk n cycles tail pc' := by
  cases hm with
  | @initDone tag hge =>
    obtain ⟨rfl, rfl, rfl⟩ := h
    refine ⟨Nat.le_antisymm (UInt16.le_iff_toNat_le.mp hloc) ?_, rfl⟩
    exact Nat.le_of_not_lt fun hlt => hge (UInt16.lt_iff_toNat_lt.mpr hlt)
  | _ => exact h

theorem filter_map_other {γ : Type} (mk : γ → Event) (h : ∀ x, (mk x).ofWorker = false)
    (l : List γ) : (l.map mk).filter Event.ofWorker = [] := by
  rw [List.filter_eq_nil_iff]
  intro e he
  obtain ⟨x, -, rfl⟩ := List.mem_map.mp he
  rw [h x]
  exact Bool.false_ne_true

theorem script_step (hi : f.Inv w) (h : Script w bk f.log f.pc) (hs : Step w bk f a f') :
    Script w bk f'.log f'.pc := by
  cases hs with
  | move hm => exact h.goto fun _ _ _ hu => hm.unfinished hi.loc hu
  | control _ => exact h
  | fetch hpc hlt => exact (hpc ▸ h : Script w bk f.log _).fetch hlt
  | publish hp =>
    refine h.other (filter_map_other .published (fun _ => rfl) _) ?_
    revert hp
    generalize f.pc = pc
    intro hp
    cases hp <;> exact fun _ _ _ hu => hu
  | @enter count wrap reply he _ =>
    refine h.other (filter_map_other .consumed (fun _ => rfl) _) ?_
    show ∀ n cycles tail, _ →
      Unfinished w bk n cycles tail (Worker.afterEnter f.toCore (reply.ret wrap)).1
    unfold Worker.afterEnter
    revert he
    generalize f.pc = pc
    intro he
    cases he <;> cases reply <;> exact fun _ _ _ hu => hu
  | seen hpc _ => exact (hpc ▸ h : Script w bk f.log _).seen
  | serve hpc hlt hout => exact (hpc ▸ h : Script w bk f.log _).serve hlt hout _
  | commit hpc => exact (hpc ▸ h : Script w bk f.log _).commit
  | issue _ => exact h.other rfl fun _ _ _ hu => hu
  | respond _ _ => exact h.other rfl fun _ _ _ hu => hu
  | post _ => exact h.other rfl fun _ _ _ hu => hu

theorem script_of_path {ok : Core β → Action → Prop} {b : Worker.Boot β} {as : List Action}
    (h : Path (StepIf w bk ok) (boot b) as f) : Script w bk f.log f.pc := by
  refine holds_of_path (P := fun f => Script w bk f.log f.pc) ?_ ?_ h
  · exact ⟨0, [], [], rfl, Nat.zero_le _, List.forall_mem_nil _, rfl, rfl, rfl⟩
  · intro f a f' hi hscript _ hs
    exact script_step hi hscript hs

end Flow
end
end Ublk
