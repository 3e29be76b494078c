import UblkProof.BlockArray
import UblkProof.RequestMatching

/-! # The place of a request

What the block layer sees of a run (`points`), and what the position of a tag says about its
request: the tag's last request is answered and its result is on the way to the kernel
(`resting`), a request has been handed out and not yet served (`pending`), or the kernel has
given the tag up (`gone`).  Most steps move a tag without changing its place; the four that do
change one are the steps of a request (`Inv.step_cases`), and each changes one tag's place only.
-/
namespace Ublk
open ByteMemory

/-! ## The history of a run -/

/-- A request is invoked when the kernel issues it, takes effect in `handleIO`, and responds
when the kernel ends it. -/
def Event.point : Event → Option (Linearization.Event Request Response)
  | .issued _ id req => some (.inv id req)
  | .handled _ (some id) _ _ _ => some (.lin id)
  | .responded id resp => some (.res id resp)
  | _ => none

/-- The log as the clients and the linearization see it. -/
def points (log : List Event) : List (Linearization.Event Request Response) :=
  log.filterMap Event.point

theorem points_concat (log : List Event) (e : Event) :
    points (log ++ [e]) = points log ++ e.point.toList := by
  rw [points, List.filterMap_append, filterMap_one]
  rfl

/-- Events the block layer does not see. -/
theorem points_append_map {γ : Type} (log : List Event) (mk : γ → Event)
    (h : ∀ x, (mk x).point = none) (l : List γ) : points (log ++ l.map mk) = points log := by
  rw [points, List.filterMap_append, filterMap_map_none _ _ h, List.append_nil]
  rfl

/-- The kernel behaves: it issues admissible requests only, posts a non-negative completion
only to deliver a request, and ends a request only by the command that committed it. -/
def Orderly (p : UblkParams) {β : Type} (s : Core β) : Action → Prop
  | .issue _ req => req.Admissible p
  | .respond i => ∀ c ∈ s.inflight[i]?, c.request = none
  | .post i res _ => ∀ c ∈ s.inflight[i]?, 0 ≤ res → c.request.isSome
  | _ => True

instance (p : UblkParams) {β : Type} (s : Core β) : DecidablePred (Orderly p s)
  | .issue _ req => inferInstanceAs (Decidable (req.Admissible p))
  | .respond i => inferInstanceAs (Decidable (∀ c ∈ s.inflight[i]?, c.request = none))
  | .post i res _ =>
      inferInstanceAs (Decidable (∀ c ∈ s.inflight[i]?, 0 ≤ res → c.request.isSome))
  | .work | .enter _ | .epoll _ | .signal | .receive | .cancelStore | .cancelWake =>
      inferInstanceAs (Decidable True)

/-! ## Places -/

/-- A tag can be on its way to the kernel with a result, on its way to the worker with a request, or
aborted. -/
inductive Place
  | resting (result : Int32)
  | pending
  | gone

/-- The place of an entry that the kernel has not read. -/
def SQE.place (sqe : SQE64) : Nat × Place := (sqe.tag, .resting (IOCmd.decode sqe.cmd).result)

/-- The place of a command in flight: with or without a request. -/
def Command.place (c : Command) : Nat × Place :=
  (c.tag, if c.request.isSome then .pending else .resting c.io.result)

/-- The place of a completion. -/
def CQE.place (c : CQE) : Nat × Place := (c.tag, if c.res < 0 then .gone else .pending)

/-- The places of what the worker has in hand. -/
def Worker.handPlaces (w : Worker) : PC → List (Nat × Place)
  | .init tag => (w.hand (.init tag)).map (·, .resting 0)
  | .handle tag => [(tag.toNat, .pending)]
  | .commit tag result => [(tag.toNat, .resting result)]
  | .done (.negativeRes _ tag) => [(tag.toNat, .gone)]
  | _ => []

namespace Flow
variable {β : Type} {w : Worker} {bk : Backend β} {f f' : Flow β} {a : Action}

/-- Every tag with its place. -/
def places (w : Worker) (f : Flow β) : Multiset (Nat × Place) :=
  (f.waiting.map SQE.place : Multiset (Nat × Place)) + (f.queued.map SQE.place : Multiset _) +
    (f.inflight.map Command.place : Multiset _) + (f.unread.map CQE.place : Multiset _) +
    (w.handPlaces f.pc : Multiset _)

theorem places_eq_spread (w : Worker) (f : Flow β) : f.places w =
    spread SQE.place Command.place CQE.place f.waiting f.queued f.inflight f.unread
      (w.handPlaces f.pc) := rfl

theorem map_fst_handPlaces (w : Worker) (pc : PC) : (w.handPlaces pc).map Prod.fst = w.hand pc := by
  cases pc with
  | init tag =>
    show (List.map _ _).map _ = _
    rw [List.map_map]
    exact List.map_id _
  | done exit => cases exit <;> rfl
  | _ => rfl

theorem map_fst_places (w : Worker) (f : Flow β) : (f.places w).map Prod.fst = f.tags w := by
  simp only [places, tags, Multiset.map_add, Multiset.map_coe, List.map_map, map_fst_handPlaces]
  rfl

/-- No tag is at two places. -/
theorem Inv.places_nodup (h : f.Inv w) : ((f.places w).map Prod.fst).Nodup := by
  rw [map_fst_places, h.tags]
  exact Multiset.nodup_range _

/-- The tags at the other places are other tags. -/
theorem Inv.fst_ne (h : f.Inv w) {e : Nat × Place} {rest : Multiset (Nat × Place)}
    (hp : f.places w = e ::ₘ rest) {e' : Nat × Place} (he' : e' ∈ rest) : e'.1 ≠ e.1 := by
  have hnd := h.places_nodup
  rw [hp, Multiset.map_cons, Multiset.nodup_cons] at hnd
  intro heq
  exact hnd.1 (heq ▸ Multiset.mem_map_of_mem _ he')

/-! ### Steps that leave every tag at its place -/

theorem place_fetchSQE (w : Worker) (tag : UInt16) :
    (w.fetchSQE tag).place = (tag.toNat, .resting 0) := by
  rw [SQE.place, Worker.fetchSQE, tag_fill, w.decode_fill]
  rfl

theorem place_commitSQE (w : Worker) (tag : UInt16) (result : Int32) :
    (w.commitSQE tag result).place = (tag.toNat, .resting result) := by
  rw [SQE.place, Worker.commitSQE, tag_fill, w.decode_fill]
  rfl

theorem handPlaces_init {tag : UInt16} (h : tag < w.depth) :
    w.handPlaces (.init tag) = (tag.toNat, .resting 0) :: w.handPlaces (.init (tag + 1)) := by
  show (w.hand (.init tag)).map _ = _
  rw [hand_init h, List.map_cons]
  rfl

theorem Move.handPlaces_eq {pc pc' : PC} (h : Move w f a pc pc') :
    w.handPlaces pc' = w.handPlaces pc := by
  cases h with
  | initDone hge =>
    have := Move.hand_eq (Move.initDone (f := f) hge)
    show [] = (w.hand _).map _
    rw [← this]
    rfl
  | _ => rfl

theorem Flushing.handPlaces_eq {pc next : PC} (h : Flushing f pc next) :
    w.handPlaces next = w.handPlaces pc := by
  cases h <;> rfl

theorem Entering.handPlaces_eq {count : UInt32} {wrap : Errno → UringError}
    (h : Entering f.pc count wrap) (ret : Except UringError Nat) :
    w.handPlaces (Worker.afterEnter f.toCore ret).1 = w.handPlaces f.pc := by
  unfold Worker.afterEnter
  revert h
  generalize f.pc = pc
  intro h
  cases h <;> cases ret <;> rfl

/-- What a step does to the kernel's and the worker's data and to the history: nothing. -/
structure SameData (s s' : Core β) : Prop where
  mem : s'.mem = s.mem
  descs : s'.descs = s.descs
  backend : s'.backend = s.backend
  serving : s'.serving = s.serving
  nextId : s'.nextId = s.nextId
  points : points s'.log = points s.log

/-- The steps of a request: it is issued, served and ended, and the kernel may give up a
tag.  The fields of a constructor are what the step finds. -/
inductive RequestStep (w : Worker) (bk : Backend β) (f : Flow β) : Action → Flow β → Prop
  | issue {i c req} : f.inflight[i]? = some c →
      RequestStep w bk f (.issue i req) { f with toCore := f.toCore.issue i c req }
  | serve {tag out} : f.pc = .handle tag → tag < w.depth →
      handleIO bk w.bufSize (f.descs tag.toNat)
        (readBytes f.mem (w.bufAddr tag.toNat) w.bufSize) f.backend = some out →
      RequestStep w bk f .work { f with toCore := w.served f.toCore tag out }
  | respond {i c id} : f.inflight[i]? = some c → f.serving c.io.tag.toNat = some id →
      RequestStep w bk f (.respond i) { f with toCore := f.toCore.respond c id }
  | post {i c res flags} : f.inflight[i]? = some c →
      RequestStep w bk f (.post i res flags) { f with
        toCore := f.toCore.post i (c.cqe res flags)
        unread := f.unread ++ [c.cqe res flags] }

/-- **Every other step leaves the places and the data alone.** -/
theorem Inv.step_cases (h : f.Inv w) (hs : Step w bk f a f') :
    RequestStep w bk f a f' ∨ (f'.places w = f.places w ∧ SameData f.toCore f'.toCore) := by
  cases hs with
  | issue hi => exact .inl (.issue hi)
  | serve hpc hlt hout => exact .inl (.serve hpc hlt hout)
  | respond hi hid => exact .inl (.respond hi hid)
  | post hi => exact .inl (.post hi)
  | move hm =>
    refine .inr ⟨?_, rfl, rfl, rfl, rfl, rfl, rfl⟩
    rw [places_eq_spread, places_eq_spread, hm.handPlaces_eq]
  | control _ => exact .inr ⟨rfl, rfl, rfl, rfl, rfl, rfl, rfl⟩
  | @fetch tag hpc hlt =>
    refine .inr ⟨?_, rfl, rfl, rfl, rfl, rfl, ?_⟩
    · rw [places_eq_spread, places_eq_spread, spread_prepare, place_fetchSQE, hpc,
        handPlaces_init hlt]
    · exact (points_concat _ _).trans (List.append_nil _)
  | publish hp =>
    refine .inr ⟨?_, rfl, rfl, rfl, rfl, rfl, points_append_map _ _ (fun _ => rfl) _⟩
    rw [places_eq_spread, places_eq_spread, spread_publish, hp.handPlaces_eq]
  | enter he _ =>
    refine .inr ⟨?_, rfl, rfl, rfl, rfl, rfl, points_append_map _ _ (fun _ => rfl) _⟩
    show spread _ _ _ _ _ _ _ (w.handPlaces (Worker.afterEnter f.toCore _).1) = _
    rw [he.handPlaces_eq]
    exact spread_enter (fun _ => rfl) _
  | @seen origin tag res c cs hpc hun =>
    refine .inr ⟨?_, rfl, rfl, rfl, rfl, rfl, (points_concat _ _).trans (List.append_nil _)⟩
    obtain ⟨htag, -, hres⟩ := h.seen_eq hpc hun
    have hhand : w.handPlaces (if res < 0 then .done (.negativeRes origin tag) else .handle tag) =
        [c.place] := by
      rw [CQE.place, ← htag, ← hres]
      split_ifs <;> rfl
    have hold : w.handPlaces f.pc = [] := by rw [hpc]; rfl
    rw [places_eq_spread, places_eq_spread, hhand, hold, hun, spread_seen]
  | @commit tag result hpc =>
    refine .inr ⟨?_, rfl, rfl, rfl, rfl, rfl, (points_concat _ _).trans (List.append_nil _)⟩
    have hold : w.handPlaces f.pc = [(tag.toNat, .resting result)] := by rw [hpc]; rfl
    rw [places_eq_spread, places_eq_spread, spread_prepare, place_commitSQE, hold]
    rfl

/-! ### Steps that move one tag to another place -/

/-- A command in flight is about the tag its entry carries, and that tag's buffer. -/
theorem Inv.command (h : f.Inv w) {i : Nat} {c : Command} (hi : f.inflight[i]? = some c) :
    c.io.tag.toNat = c.tag ∧ c.io.addr.toNat = w.bufAddr c.tag ∧ c.tag < w.depth.toNat := by
  have hmem : c.sqe ∈ f.waiting ++ f.queued ++ f.inflight.map Command.sqe :=
    List.mem_append_right _ (List.mem_map_of_mem (List.mem_of_getElem? hi))
  have hfill : ∃ op tag result, tag < w.depth ∧ c.sqe = w.fill op tag result (SQE.zero 16) := by
    obtain ⟨tag, hlt, he | ⟨result, he⟩⟩ := h.entries c.sqe hmem
    · exact ⟨_, tag, _, hlt, he⟩
    · exact ⟨_, tag, result, hlt, he⟩
  obtain ⟨op, tag, result, hlt, he⟩ := hfill
  have htag : c.tag = tag.toNat := by rw [Command.tag, he, tag_fill]
  have hlt' := UInt16.lt_iff_toNat_lt.mp hlt
  rw [Command.io, he, w.decode_fill, htag]
  exact ⟨rfl, w.bufAddr_toNat hlt', hlt'⟩

/-- Everything but the `i`-th command in flight. -/
def placesBut (w : Worker) (f : Flow β) (i : Nat) : Multiset (Nat × Place) :=
  (f.waiting.map SQE.place : Multiset (Nat × Place)) + (f.queued.map SQE.place : Multiset _) +
    ((f.inflight.eraseIdx i).map Command.place : Multiset _) +
    (f.unread.map CQE.place : Multiset _) + (w.handPlaces f.pc : Multiset _)

theorem places_inflight {i : Nat} {c : Command} (hi : f.inflight[i]? = some c) :
    f.places w = c.place ::ₘ f.placesBut w i := by
  rw [places_eq_spread, spread_inflight hi, spread_cons]
  rfl

theorem places_issue {i : Nat} {c : Command} (hi : f.inflight[i]? = some c) (req : Request) :
    places w { f with toCore := f.toCore.issue i c req } =
      (c.tag, .pending) ::ₘ f.placesBut w i := by
  have hlt := (List.getElem?_eq_some_iff.mp hi).1
  have hset : (f.inflight.set i { c with request := some f.nextId })[i]? =
      some { c with request := some f.nextId } := by
    rw [List.getElem?_set_self hlt]
  have herase : (f.inflight.set i { c with request := some f.nextId }).eraseIdx i =
      f.inflight.eraseIdx i := List.eraseIdx_set_eq
  show spread _ _ _ _ _ (f.inflight.set i { c with request := some f.nextId }) _ _ = _
  rw [spread_inflight hset, spread_cons, herase]
  rfl

theorem places_post {i : Nat} {c : Command} (res : Int32) (flags : UInt32) :
    places w { f with
      toCore := f.toCore.post i (c.cqe res flags)
      unread := f.unread ++ [c.cqe res flags] } =
      (c.cqe res flags).place ::ₘ f.placesBut w i := by
  rw [places_eq_spread, spread_post, spread_cons]
  rfl

/-- Everything but what the worker holds. -/
def placesOut (f : Flow β) : Multiset (Nat × Place) :=
  (f.waiting.map SQE.place : Multiset (Nat × Place)) + (f.queued.map SQE.place : Multiset _) +
    (f.inflight.map Command.place : Multiset _) + (f.unread.map CQE.place : Multiset _)

theorem places_hand {e : Nat × Place} (h : w.handPlaces f.pc = [e]) :
    f.places w = e ::ₘ f.placesOut := by
  rw [places, h, Multiset.coe_singleton, Multiset.add_comm, Multiset.singleton_add]
  rfl

end Flow

end Ublk
