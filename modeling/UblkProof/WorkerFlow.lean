import Mathlib.Data.Multiset.Range
import UblkProof.WorkerMachine

/-! # The flow of tags

The machine of `WorkerMachine` with the ring replaced by what it is for: three lists of
entries and completions.  A `Flow` has no counters, no slots and nothing that can be full
or out of range, so it can neither lose a tag nor panic; that the machine follows it
(`WorkerSimulation`) is what excludes this for the code.

Every tag travels in a circle: prepared by the worker, queued in the ring, in flight in the
kernel, unread in the ring, in the worker's hand, prepared again.  `Inv.tags` says that
each tag below `depth` is at exactly one of these places; each step moves tags from one
place to the next, and the rest of the invariant is what the worker's position says about
the lists.
-/
namespace Ublk
open ByteMemory Runs
open Ublk.Ring (EnterReply)

/-- The worker with its ring as queues. -/
structure Flow (β : Type) extends Core β where
  cancelled : Bool
  /-- Prepared and not yet published. -/
  waiting : List SQE64
  /-- Published and not yet consumed. -/
  queued : List SQE64
  /-- Posted and not yet passed by `SeenCQE`. -/
  unread : List CQE

/-- Entries, completions and commands carry the tag as their user data. -/
def SQE.tag {n : Nat} (sqe : SQE n) : Nat := sqe.userData.toNat

def CQE.tag (c : CQE) : Nat := c.userData.toNat

def Command.tag (c : Command) : Nat := c.sqe.tag

namespace Worker
variable (w : Worker)

/-- The entries `prepareFetch` and `prepareCommitAndFetch` leave in a slot. -/
def fetchSQE (tag : UInt16) : SQE64 := w.fill uIOFetchReq tag 0 (SQE.zero 16)

/-- The entry that `prepareCommitAndFetch` fills in. -/
def commitSQE (tag : UInt16) (result : Int32) : SQE64 :=
  w.fill uIOCommitAndFetchReq tag result (SQE.zero 16)

/-- An entry the worker may have prepared. -/
def Entry (sqe : SQE64) : Prop :=
  ∃ tag, tag < w.depth ∧ (sqe = w.fetchSQE tag ∨ ∃ result, sqe = w.commitSQE tag result)

/-- The tags the worker holds outside the ring: those `init` has still to prepare, and the
one whose completion has been read and whose next entry is not prepared. -/
def hand : PC → List Nat
  | .init tag => List.range' tag.toNat (w.depth.toNat - tag.toNat)
  | .handle tag | .commit tag _ | .done (.negativeRes _ tag) => [tag.toNat]
  | _ => []

end Worker

/-! ## Steps -/

namespace Flow
section
variable {β : Type} (w : Worker) (bk : Backend β)

/-- The worker looks at something and moves on. -/
inductive Move (f : Flow β) : Action → PC → PC → Prop
  | initDone {tag} : ¬ tag < w.depth → Move f .work (.init tag) .start
  | cancelled : f.cancelled = true → Move f .work .waitCheck (.done (.waitFailed .cancelled))
  | check : f.cancelled = false → Move f .work .waitCheck .waitLoad
  | found {c cs} (idx) : f.unread = c :: cs → Move f .work .waitLoad (.took .wait idx)
  | block : f.unread = [] → Move f .work .waitLoad .waitEpoll
  | copyTag {origin idx c cs} : f.unread = c :: cs →
      Move f .work (.took origin idx) (.copied origin idx c.userData.toUInt16)
  | copyRes {origin idx tag c cs} : f.unread = c :: cs →
      Move f .work (.copied origin idx tag) (.seen origin tag c.res)
  | more {c cs} (idx) : f.unread = c :: cs → Move f .work .peek (.took .peek idx)
  | drained : f.unread = [] → Move f .work .peek .flush
  | interrupted : Move f (.epoll .interrupted) .waitEpoll .waitCheck
  | epollFailed (e) : Move f (.epoll (.failed e)) .waitEpoll (.done (.waitFailed (.epollWait e)))
  | woken : f.efd = true →
      Move f (.epoll (.events true)) .waitEpoll (.done (.waitFailed .cancelled))
  | events : Move f (.epoll (.events false)) .waitEpoll .waitCheck

/-- The other goroutines: the channel, and the two halves of `Cancel`. -/
inductive Control (f : Flow β) : Action → Ready → Bool → Bool → Prop
  | signal : f.ready = .sending → Control f .signal (.buffered none) f.efd f.cancelled
  | receive {err} : f.ready = .buffered err → Control f .receive (.received err) f.efd f.cancelled
  | cancelStore : Control f .cancelStore f.ready f.efd true
  | cancelWake : f.cancelled = true → Control f .cancelWake f.ready true f.cancelled

/-- Where `flushSQ` continues, with the count it returned. -/
inductive Flushing (f : Flow β) : PC → PC → Prop
  | start {count : UInt32} : count.toNat = f.waiting.length → Flushing f .start (.startEnter count)
  | empty : f.waiting = [] → Flushing f .flush .waitCheck
  | submit {count : UInt32} : count.toNat = f.waiting.length → f.waiting ≠ [] →
      Flushing f .flush (.submitEnter count)

/-- The two system calls that submit, and how they wrap an errno. -/
inductive Entering : PC → UInt32 → (Errno → UringError) → Prop
  | start {count} : Entering (.startEnter count) count .enterSubmitWait
  | submit {count} : Entering (.submitEnter count) count .enterSubmit

/-- What a step can do, one constructor for each kind. -/
inductive Step : Flow β → Action → Flow β → Prop
  | move {f a pc} : Move w f a f.pc pc → Step f a { f with pc := pc }
  | control {f a ready efd cancelled} : Control f a ready efd cancelled →
      Step f a { f with ready := ready, efd := efd, cancelled := cancelled }
  | fetch {f tag} : f.pc = .init tag → tag < w.depth →
      Step f .work { f with
        waiting := f.waiting ++ [w.fetchSQE tag]
        log := f.log ++ [.prepared (w.fetchSQE tag)]
        pc := .init (tag + 1) }
  | publish {f next} : Flushing f f.pc next →
      Step f .work { f with
        queued := f.queued ++ f.waiting
        waiting := []
        log := f.log ++ f.waiting.map .published
        pc := next }
  | enter {f count wrap reply} : Entering f.pc count wrap → reply.Legal count →
      Step f (.enter reply) { f with
        toCore := { f.toCore.consume (f.queued.take reply.amount) with
          pc := (Worker.afterEnter f.toCore (reply.ret wrap)).1
          ready := (Worker.afterEnter f.toCore (reply.ret wrap)).2 }
        queued := f.queued.drop reply.amount }
  | seen {f origin tag res c cs} : f.pc = .seen origin tag res → f.unread = c :: cs →
      Step f .work { f with
        unread := cs
        log := f.log ++ [.taken tag res]
        pc := if res < 0 then .done (.negativeRes origin tag) else .handle tag }
  | serve {f tag out} : f.pc = .handle tag → tag < w.depth →
      handleIO bk w.bufSize (f.descs tag.toNat)
        (readBytes f.mem (w.bufAddr tag.toNat) w.bufSize) f.backend = some out →
      Step f .work { f with toCore := w.served f.toCore tag out }
  | commit {f tag result} : f.pc = .commit tag result →
      Step f .work { f with
        waiting := f.waiting ++ [w.commitSQE tag result]
        log := f.log ++ [.prepared (w.commitSQE tag result)]
        pc := .peek }
  | issue {f i c req} : f.inflight[i]? = some c →
      Step f (.issue i req) { f with toCore := f.toCore.issue i c req }
  | respond {f i c id} : f.inflight[i]? = some c → f.serving c.io.tag.toNat = some id →
      Step f (.respond i) { f with toCore := f.toCore.respond c id }
  | post {f i c res flags} : f.inflight[i]? = some c →
      Step f (.post i res flags) { f with
        toCore := f.toCore.post i (c.cqe res flags)
        unread := f.unread ++ [c.cqe res flags] }

/-! ## The invariant -/

/-- Where the tags are. -/
def tags (f : Flow β) : Multiset Nat :=
  (f.waiting.map SQE.tag : Multiset Nat) + (f.queued.map SQE.tag : Multiset Nat) +
    (f.inflight.map Command.tag : Multiset Nat) + (f.unread.map CQE.tag : Multiset Nat) +
    (w.hand f.pc : Multiset Nat)

/-- What the worker's position says about the lists.  The completion it is looking at is
the oldest unread one.  Commits wait from `prepareCommitAndFetch` to the flush that ends
the batch, so a completion that came from `PeekCQE` finds some waiting and one that came
from `WaitCQE` none. -/
def Local (waiting queued : List SQE64) (unread : List CQE) : PC → Prop
  | .init tag => tag ≤ w.depth
  | .start | .handle _ | .commit _ _ => True
  | .startEnter count | .submitEnter count => waiting = [] ∧ count.toNat ≤ queued.length
  | .waitCheck | .waitLoad | .waitEpoll => waiting = []
  | .took origin _ => (origin = .wait ↔ waiting = []) ∧ unread ≠ []
  | .copied origin _ tag => (origin = .wait ↔ waiting = []) ∧
      ∃ c cs, unread = c :: cs ∧ tag = c.userData.toUInt16
  | .seen origin tag res => (origin = .wait ↔ waiting = []) ∧
      ∃ c cs, unread = c :: cs ∧ tag = c.userData.toUInt16 ∧ res = c.res
  | .peek | .flush => waiting ≠ []
  | .done (.negativeRes origin _) => origin = .wait ↔ waiting = []
  | .done (.fetchFailed _) | .done (.waitFailed _) | .done (.submitFailed _) => waiting = []
  | .panicked => False

/-- Every tag is in exactly one place, every entry is well formed, and the position agrees with the
queues. -/
structure Inv (f : Flow β) : Prop where
  tags : f.tags w = Multiset.range w.depth.toNat
  entries : ∀ sqe ∈ f.waiting ++ f.queued ++ f.inflight.map Command.sqe, w.Entry sqe
  loc : Local w f.waiting f.queued f.unread f.pc

/-! ## The tags that leave one place arrive at another -/

section Lists
variable {α γ : Type}

theorem map_set_eq {l : List α} {i : Nat} {c c' : α} (h : l[i]? = some c) {g : α → γ}
    (hg : g c' = g c) : (l.set i c').map g = l.map g := by
  obtain ⟨hi, rfl⟩ := List.getElem?_eq_some_iff.mp h
  rw [List.map_set, hg, ← List.getElem_map g (h := by rwa [List.length_map]), List.set_getElem_self]

theorem eraseIdx_split {l : List α} {i : Nat} {c : α} (h : l[i]? = some c) :
    l = l.take i ++ c :: l.drop (i + 1) ∧ l.eraseIdx i = l.take i ++ l.drop (i + 1) := by
  obtain ⟨hi, rfl⟩ := List.getElem?_eq_some_iff.mp h
  refine ⟨?_, List.eraseIdx_eq_take_drop_succ _ _⟩
  rw [List.getElem_cons_drop, List.take_append_drop]

theorem coe_map_eraseIdx {l : List α} {i : Nat} {c : α} (h : l[i]? = some c) (g : α → γ) :
    (l.map g : Multiset γ) = ((l.eraseIdx i).map g : Multiset γ) + {g c} := by
  obtain ⟨h1, h2⟩ := eraseIdx_split h
  rw [h2]
  conv => lhs; rw [h1]
  rw [← Multiset.coe_singleton, Multiset.coe_add, Multiset.coe_eq_coe, List.map_append,
    List.map_append, List.map_cons, List.append_assoc]
  exact List.Perm.append_left _ (List.perm_append_singleton _ _).symm

end Lists

/-! Both the tags and, later, what is known of their requests are read off the same lists, each
through functions of its own.  What a step does to the lists does not depend on these. -/

section Spread
variable {γ : Type} {gE : SQE64 → γ} {gC : Command → γ} {gQ : CQE → γ}
  {waiting queued : List SQE64} {inflight : List Command} {unread : List CQE} {hand : List γ}

/-- Everything the queues and the worker's hands hold, seen through `gE`, `gC` and `gQ`. -/
def spread (gE : SQE64 → γ) (gC : Command → γ) (gQ : CQE → γ) (waiting queued : List SQE64)
    (inflight : List Command) (unread : List CQE) (hand : List γ) : Multiset γ :=
  (waiting.map gE : Multiset γ) + (queued.map gE : Multiset γ) + (inflight.map gC : Multiset γ) +
    (unread.map gQ : Multiset γ) + (hand : Multiset γ)

/-- An entry is filled in for what was in the hand. -/
theorem spread_prepare (sqe : SQE64) :
    spread gE gC gQ (waiting ++ [sqe]) queued inflight unread hand =
      spread gE gC gQ waiting queued inflight unread (gE sqe :: hand) := by
  simp only [spread, List.map_append, List.map_singleton, ← Multiset.coe_add,
    ← Multiset.cons_coe, ← Multiset.singleton_add]
  ac_rfl

theorem spread_publish : spread gE gC gQ [] (queued ++ waiting) inflight unread hand =
    spread gE gC gQ waiting queued inflight unread hand := by
  simp only [spread, List.map_append, ← Multiset.coe_add, List.map_nil, Multiset.coe_nil]
  rw [Multiset.zero_add]
  ac_rfl

/-- The kernel takes entries from the queue. -/
theorem spread_enter (hg : ∀ sqe, gC ⟨sqe, none⟩ = gE sqe) (n : Nat) :
    spread gE gC gQ waiting (queued.drop n) (inflight ++ (queued.take n).map (⟨·, none⟩)) unread
      hand = spread gE gC gQ waiting queued inflight unread hand := by
  have hq : (queued.map gE : Multiset γ) =
      ((queued.drop n).map gE : Multiset γ) + ((queued.take n).map gE : Multiset γ) := by
    rw [Multiset.coe_add, ← List.map_append, Multiset.coe_eq_coe]
    conv => lhs; rw [← List.take_append_drop n queued]
    exact (List.perm_append_comm).map _
  have hnew : ((queued.take n).map (⟨·, none⟩)).map gC = (queued.take n).map gE := by
    rw [List.map_map]
    exact List.map_congr_left fun sqe _ => hg sqe
  simp only [spread, List.map_append, hnew, hq, ← Multiset.coe_add]
  ac_rfl

/-- The oldest completion comes into the hand. -/
theorem spread_seen (c : CQE) : spread gE gC gQ waiting queued inflight unread (gQ c :: hand) =
    spread gE gC gQ waiting queued inflight (c :: unread) hand := by
  simp only [spread, List.map_cons, ← Multiset.cons_coe, ← Multiset.singleton_add]
  ac_rfl

/-- A command in flight, as if it were in the hand. -/
theorem spread_inflight {i : Nat} {c : Command} (hi : inflight[i]? = some c) :
    spread gE gC gQ waiting queued inflight unread hand =
      spread gE gC gQ waiting queued (inflight.eraseIdx i) unread (gC c :: hand) := by
  simp only [spread, coe_map_eraseIdx hi, ← Multiset.cons_coe, ← Multiset.singleton_add]
  ac_rfl

/-- A new completion, as if it were in the hand. -/
theorem spread_post (c : CQE) : spread gE gC gQ waiting queued inflight (unread ++ [c]) hand =
    spread gE gC gQ waiting queued inflight unread (gQ c :: hand) := by
  simp only [spread, List.map_append, List.map_singleton, ← Multiset.coe_add,
    ← Multiset.cons_coe, ← Multiset.singleton_add]
  ac_rfl

/-- What is in the hand stands out. -/
theorem spread_cons (x : γ) : spread gE gC gQ waiting queued inflight unread (x :: hand) =
    x ::ₘ spread gE gC gQ waiting queued inflight unread hand := by
  simp only [spread, ← Multiset.cons_coe, ← Multiset.singleton_add]
  ac_rfl

end Spread

section Tags
variable {w bk} {f f' : Flow β} {a : Action}

theorem tag_fill (op : UInt32) (tag : UInt16) (result : Int32) :
    (w.fill op tag result (SQE.zero 16)).tag = tag.toNat := UInt16.toNat_toUInt64 tag

theorem depth_lt : w.depth.toNat < 2 ^ 16 := w.depth.toNat_lt

/-- A tag at some place is below the depth. -/
theorem Inv.lt_of_mem (h : f.Inv w) {t : Nat} (ht : t ∈ f.tags w) : t < w.depth.toNat := by
  rw [h.tags] at ht
  exact Multiset.mem_range.mp ht

theorem Inv.unread_lt (h : f.Inv w) {c : CQE} (hc : c ∈ f.unread) : c.tag < w.depth.toNat := by
  refine h.lt_of_mem (Multiset.mem_add.mpr (Or.inl (Multiset.mem_add.mpr (Or.inr ?_))))
  exact Multiset.mem_coe.mpr (List.mem_map_of_mem hc)

theorem Inv.hand_lt (h : f.Inv w) {t : Nat} (ht : t ∈ w.hand f.pc) : t < w.depth.toNat :=
  h.lt_of_mem (Multiset.mem_add.mpr (Or.inr (Multiset.mem_coe.mpr ht)))

/-- No more completions are unread than there are tags. -/
theorem Inv.card_le (h : f.Inv w) : f.waiting.length + f.queued.length + f.inflight.length +
    f.unread.length + (w.hand f.pc).length = w.depth.toNat := by
  have hcard := congrArg Multiset.card h.tags
  simpa only [Flow.tags, Multiset.card_add, Multiset.coe_card, List.length_map,
    Multiset.card_range] using hcard

/-- The low half of a tag's user data is the tag. -/
theorem Inv.toUInt16_tag (h : f.Inv w) {c : CQE} (hc : c ∈ f.unread) :
    c.userData.toUInt16.toNat = c.tag := by
  have h1 := h.unread_lt hc
  have h2 := depth_lt (w := w)
  rw [UInt64.toNat_toUInt16]
  exact Nat.mod_eq_of_lt (Nat.lt_trans h1 h2)

/-- The completion being passed is the oldest unread one. -/
theorem Inv.seen_eq (h : f.Inv w) {origin : Origin} {tag : UInt16} {res : Int32}
    (hpc : f.pc = .seen origin tag res) {c : CQE} {cs : List CQE} (hun : f.unread = c :: cs) :
    tag.toNat = c.tag ∧ tag < w.depth ∧ res = c.res := by
  have hmem : c ∈ f.unread := hun ▸ List.mem_cons_self
  have hloc := h.loc
  rw [hpc] at hloc
  obtain ⟨-, c', cs', hc', rfl, rfl⟩ := hloc
  obtain ⟨rfl, -⟩ := List.cons.inj (hun.symm.trans hc')
  have htag := h.toUInt16_tag hmem
  exact ⟨htag, UInt16.lt_iff_toNat_lt.mpr (htag ▸ h.unread_lt hmem), rfl⟩

/-- The loop variable of `init` does not wrap. -/
theorem succ_toNat {tag : UInt16} (h : tag < w.depth) : (tag + 1).toNat = tag.toNat + 1 := by
  have h1 := UInt16.lt_iff_toNat_lt.mp h
  have h2 := depth_lt (w := w)
  rw [UInt16.toNat_add]
  exact Nat.mod_eq_of_lt (show tag.toNat + 1 < 2 ^ 16 by omega)

theorem hand_init {tag : UInt16} (h : tag < w.depth) :
    w.hand (.init tag) = tag.toNat :: w.hand (.init (tag + 1)) := by
  have hlt := UInt16.lt_iff_toNat_lt.mp h
  show List.range' _ _ = _ :: List.range' _ _
  rw [succ_toNat h,
    show w.depth.toNat - tag.toNat = w.depth.toNat - (tag.toNat + 1) + 1 from by omega,
    List.range'_succ]

theorem Move.hand_eq {pc pc' : PC} (h : Move w f a pc pc') : w.hand pc' = w.hand pc := by
  cases h with
  | @initDone tag hge =>
    have h1 := UInt16.lt_iff_toNat_lt.not.mp hge
    show [] = List.range' _ _
    rw [show w.depth.toNat - tag.toNat = 0 from by omega]
    rfl
  | _ => rfl

theorem Flushing.hand_eq {pc next : PC} (h : Flushing f pc next) : w.hand next = w.hand pc := by
  cases h <;> rfl

theorem Entering.hand_eq {count : UInt32} {wrap : Errno → UringError} (h : Entering f.pc count wrap)
    (ret : Except UringError Nat) :
    w.hand (Worker.afterEnter f.toCore ret).1 = w.hand f.pc := by
  unfold Worker.afterEnter
  revert h
  generalize f.pc = pc
  intro h
  cases h <;> cases ret <;> rfl

theorem tags_eq (f : Flow β) : f.tags w =
    spread SQE.tag Command.tag CQE.tag f.waiting f.queued f.inflight f.unread (w.hand f.pc) := rfl

/-- **Tags are conserved.**  Each step takes a tag from one place and puts it in the next. -/
theorem Inv.tags_step (h : f.Inv w) (hs : Step w bk f a f') : f'.tags w = f.tags w := by
  rw [tags_eq, tags_eq]
  cases hs with
  | move hm => rw [hm.hand_eq]
  | control _ => rfl
  | fetch hpc hlt =>
    rw [spread_prepare, hpc, hand_init hlt, Worker.fetchSQE, tag_fill]
  | publish hp => rw [spread_publish, hp.hand_eq]
  | enter he _ =>
    show spread _ _ _ _ _ _ _ (w.hand (Worker.afterEnter f.toCore _).1) = _
    rw [he.hand_eq]
    exact spread_enter (fun _ => rfl) _
  | @seen origin tag res c cs hpc hun =>
    have htag := (h.seen_eq hpc hun).1
    have hhand : w.hand (if res < 0 then .done (.negativeRes origin tag) else .handle tag) =
        [c.tag] := by
      split_ifs <;> exact congrArg (fun t => [t]) htag
    have hold : w.hand f.pc = [] := by rw [hpc]; rfl
    rw [hhand, hold, hun, spread_seen]
  | serve hpc _ _ =>
    rw [hpc]
    rfl
  | commit hpc =>
    rw [spread_prepare, hpc, Worker.commitSQE, tag_fill]
    rfl
  | @issue i c req hi =>
    have hsame : (f.inflight.set i { c with request := some f.nextId }).map Command.tag =
        f.inflight.map Command.tag := map_set_eq hi rfl
    simp only [spread, Core.issue, hsame]
  | respond _ _ => rfl
  | post hi =>
    rw [spread_post, spread_inflight hi]
    rfl

theorem Inv.entries_step (h : f.Inv w) (hs : Step w bk f a f') :
    ∀ sqe ∈ f'.waiting ++ f'.queued ++ f'.inflight.map Command.sqe, w.Entry sqe := by
  have hold := h.entries
  simp only [List.mem_append] at hold ⊢
  cases hs with
  | move _ | control _ | seen _ _ | serve _ _ _ | respond _ _ => exact hold
  | @fetch tag _ hlt =>
    rintro sqe ((hm | hm) | hm)
    · rcases List.mem_append.mp hm with hm | hm
      · exact hold sqe (Or.inl (Or.inl hm))
      · exact ⟨tag, hlt, Or.inl (List.mem_singleton.mp hm)⟩
    · exact hold sqe (Or.inl (Or.inr hm))
    · exact hold sqe (Or.inr hm)
  | @commit tag result hpc =>
    have hlt : tag < w.depth :=
      UInt16.lt_iff_toNat_lt.mpr (h.hand_lt (by rw [hpc]; exact List.mem_singleton_self _))
    rintro sqe ((hm | hm) | hm)
    · rcases List.mem_append.mp hm with hm | hm
      · exact hold sqe (Or.inl (Or.inl hm))
      · exact ⟨tag, hlt, Or.inr ⟨result, List.mem_singleton.mp hm⟩⟩
    · exact hold sqe (Or.inl (Or.inr hm))
    · exact hold sqe (Or.inr hm)
  | publish _ =>
    rintro sqe ((hm | hm) | hm)
    · cases hm
    · rcases List.mem_append.mp hm with hm | hm
      · exact hold sqe (Or.inl (Or.inr hm))
      · exact hold sqe (Or.inl (Or.inl hm))
    · exact hold sqe (Or.inr hm)
  | @enter count wrap reply _ _ =>
    rintro sqe ((hm | hm) | hm)
    · exact hold sqe (Or.inl (Or.inl hm))
    · exact hold sqe (Or.inl (Or.inr (List.mem_of_mem_drop hm)))
    · have hmap : (f.inflight ++ (f.queued.take reply.amount).map (Command.mk · none)).map
          Command.sqe = f.inflight.map Command.sqe ++ f.queued.take reply.amount := by
        rw [List.map_append, List.map_map]
        exact congrArg (f.inflight.map Command.sqe ++ ·) (List.map_id _)
      rcases List.mem_append.mp (hmap ▸ hm) with hm | hm
      · exact hold sqe (Or.inr hm)
      · exact hold sqe (Or.inl (Or.inr (List.mem_of_mem_take hm)))
  | @issue i c req hi =>
    have hsame : (f.inflight.set i { c with request := some f.nextId }).map Command.sqe =
        f.inflight.map Command.sqe := map_set_eq hi rfl
    simpa only [Core.issue, hsame] using hold
  | post hi =>
    rintro sqe ((hm | hm) | hm)
    · exact hold sqe (Or.inl (Or.inl hm))
    · exact hold sqe (Or.inl (Or.inr hm))
    · exact hold sqe (Or.inr ((List.eraseIdx_sublist _ _).map _ |>.subset hm))

theorem Move.loc {pc pc' : PC} (hm : Move w f a pc pc')
    (h : Local w f.waiting f.queued f.unread pc) : Local w f.waiting f.queued f.unread pc' := by
  cases hm with
  | initDone _ => trivial
  | cancelled _ | check _ | block _ | drained _ => exact h
  | interrupted | epollFailed _ | woken _ | events => exact h
  | found idx hun => exact ⟨⟨fun _ => h, fun _ => rfl⟩, by simp [hun]⟩
  | copyTag hun => exact ⟨h.1, _, _, hun, rfl⟩
  | copyRes hun =>
    obtain ⟨ho, c', cs', hun', rfl⟩ := h
    obtain ⟨rfl, rfl⟩ := List.cons.inj (hun.symm.trans hun')
    exact ⟨ho, _, _, hun, rfl, rfl⟩
  | more idx hun => exact ⟨⟨fun he => (by cases he), fun he => absurd he h⟩, by simp [hun]⟩

/-- A post adds behind the completion the worker is looking at. -/
theorem Local.post {waiting queued : List SQE64} {unread : List CQE} {pc : PC}
    (h : Local w waiting queued unread pc) (c : CQE) :
    Local w waiting queued (unread ++ [c]) pc := by
  cases pc with
  | took origin idx => exact ⟨h.1, List.append_ne_nil_of_left_ne_nil h.2 _⟩
  | copied origin idx tag =>
    obtain ⟨ho, c, cs, hun, ht⟩ := h
    exact ⟨ho, c, _, by rw [hun]; rfl, ht⟩
  | seen origin tag res =>
    obtain ⟨ho, c, cs, hun, ht, hr⟩ := h
    exact ⟨ho, c, _, by rw [hun]; rfl, ht, hr⟩
  | done exit => cases exit <;> exact h
  | _ => exact h

theorem Entering.loc {s : Core β} {count : UInt32} {wrap : Errno → UringError}
    (he : Entering s.pc count wrap) {waiting queued : List SQE64} {unread : List CQE}
    (h : Local w waiting queued unread s.pc) (ret : Except UringError Nat) (queued' : List SQE64) :
    Local w waiting queued' unread (Worker.afterEnter s ret).1 := by
  unfold Worker.afterEnter
  revert he h
  generalize s.pc = pc
  intro he h
  cases he <;> cases ret <;> exact h.1

theorem Inv.local_step (h : f.Inv w) (hs : Step w bk f a f') :
    Local w f'.waiting f'.queued f'.unread f'.pc := by
  have hloc := h.loc
  cases hs with
  | control _ | issue _ | respond _ _ => exact hloc
  | move hm => exact hm.loc hloc
  | @fetch tag hpc hlt =>
    show tag + 1 ≤ w.depth
    rw [UInt16.le_iff_toNat_le, succ_toNat hlt]
    exact UInt16.lt_iff_toNat_lt.mp hlt
  | publish hp =>
    revert hp
    generalize f.pc = pc
    intro hp
    cases hp with
    | start hc => exact ⟨rfl, by rw [hc]; simp⟩
    | empty _ => rfl
    | submit hc _ => exact ⟨rfl, by rw [hc]; simp⟩
  | enter he _ => exact he.loc hloc _ _
  | @seen origin tag res c cs hpc hun =>
    rw [hpc] at hloc
    show Local w f.waiting f.queued cs (ite _ _ _)
    split_ifs with hneg
    · exact hloc.1
    · trivial
  | serve _ _ _ => trivial
  | commit _ => exact List.append_ne_nil_of_right_ne_nil _ (List.cons_ne_nil _ _)
  | post _ => exact hloc.post _

theorem Inv.step (h : f.Inv w) (hs : Step w bk f a f') : f'.Inv w :=
  ⟨(h.tags_step hs).trans h.tags, h.entries_step hs, h.local_step hs⟩

end Tags

/-! ## Paths -/

/-- `init` begins with every tag in its hand. -/
def boot (b : Worker.Boot β) : Flow β where
  toCore := (Worker.boot b).toCore
  cancelled := false
  waiting := []
  queued := []
  unread := []

theorem inv_boot (b : Worker.Boot β) : (boot b).Inv w where
  tags := by
    show ((([] : List Nat) : Multiset Nat) + (([] : List Nat) : Multiset Nat) +
      (([] : List Nat) : Multiset Nat) + (([] : List Nat) : Multiset Nat) +
      ((List.range' 0 (w.depth.toNat - 0) : List Nat) : Multiset Nat)) = _
    rw [← List.range_eq_range', Nat.sub_zero, Multiset.coe_nil]
    simp only [Multiset.zero_add]
    rfl
  entries := fun _ h => by cases h
  loc := UInt16.le_iff_toNat_le.mpr (Nat.zero_le _)

/-- The steps whose action the condition `ok` admits. -/
def StepIf (ok : Core β → Action → Prop) (f : Flow β) (a : Action) (f' : Flow β) : Prop :=
  ok f.toCore a ∧ Step w bk f a f'

variable {w bk}

/-- **The invariant rule of the flow.**  The steps of whatever else is shown to hold on a path may
use `Inv`. -/
theorem holds_of_path {P : Flow β → Prop} {ok : Core β → Action → Prop} {b : Worker.Boot β}
    {as : List Action} {f : Flow β} (h0 : P (boot b))
    (hstep : ∀ f a f', f.Inv w → P f → ok f.toCore a → Step w bk f a f' → P f')
    (h : Path (StepIf w bk ok) (boot b) as f) : P f := by
  refine (h.invariant (I := fun f => f.Inv w ∧ P f) ⟨inv_boot w b, h0⟩ ?_).2
  rintro f a f' ⟨hi, hp⟩ ⟨hok, hs⟩
  exact ⟨hi.step hs, hstep f a f' hi hp hok hs⟩

end
end Flow
end Ublk
