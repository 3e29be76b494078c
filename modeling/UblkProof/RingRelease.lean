import UblkProof.RingsMachine
import UblkProof.Runs

/-! # What `Close` releases

The two halves of `Close` differ in one respect.  A descriptor is forgotten when it is closed
(`*fd = -1`), a mapping is not.  So the notes of descriptors are always up to date, and nobody
closes another ring's.  The notes of mappings are up to date only as long as no ring is closed
again while one of its addresses is in use (`Clean`): such a call unmaps another ring, whose own
notes are wrong from then on.
-/
namespace Ublk
open Leases
open Runs (Run exists_run_of_exec)

/-! ## The notes of the rings -/

namespace Rings
variable {s s' : Rings}

/-- The descriptors a ring still names. -/
def fdNotes (s : Rings) (id : Nat) : List Nat := ((s.ringAt id).map RawRing.openFDs).getD []

/-- The mappings a ring has noted, as long as it is not closed. -/
def mapNotes (s : Rings) (id : Nat) : List Mapping :=
  if s.closed id then [] else ((s.ringAt id).map RawRing.mapped).getD []

end Rings

/-- What the process holds, in terms of notes: the descriptors' are up to date, the mappings'
are if `clean` holds. -/
structure Books (clean : Prop) (p : Process) (fdNotes : Nat → List Nat)
    (mapNotes : Nat → List Mapping) : Prop where
  fds : Accounts p.fds fdNotes
  maps : Noted p.maps mapNotes
  current : clean → Accounts p.maps mapNotes

namespace Books
variable {clean : Prop} {p p' : Process} {fn : Nat → List Nat} {mn : Nat → List Mapping} {id : Nat}

theorem openFD (h : Books clean p fn mn) {reply : Except Errno Nat} {fd : Nat}
    (hcall : p.openFD id reply = some (.ok fd, p')) {ns : List Nat}
    (hns : ∀ n, n ∈ ns ↔ n = fd ∨ n ∈ fn id) : Books clean p' (Function.update fn id ns) mn := by
  obtain ⟨hfree, rfl⟩ := Process.openFD_ok hcall
  exact ⟨h.fds.grant hfree id hns, h.maps, h.current⟩

theorem mmap (h : Books clean p fn mn) {length : Nat} {reply : Except Errno Nat} {m : Mapping}
    (hcall : p.mmap id length reply = some (.ok m, p')) {ns : List Mapping}
    (hns : ∀ n, n ∈ ns ↔ n = m ∨ n ∈ mn id) : Books clean p' fn (Function.update mn id ns) := by
  obtain ⟨hfree, rfl⟩ := Process.mmap_ok hcall
  refine ⟨h.fds, ?_, fun hc => (h.current hc).grant hfree id hns⟩
  exact h.maps.grant hfree id ⟨(hns _).mpr (.inl rfl), fun n hn => (hns n).mpr (.inr hn)⟩

/-- A ring is closed: for the first time, or again with none of its mappings in use. -/
theorem close {clean' : Prop} (h : Books clean p fn mn) (r : RawRing) (hfd : fn id = r.openFDs)
    (hsub : mn id ⊆ r.mapped)
    (hclean : clean' → clean ∧
      (mn id = r.mapped ∨ (mn id = [] ∧ ∀ m ∈ r.mapped, m ∉ names p.maps))) :
    Books clean' (r.close p).2.2 (Function.update fn id []) (Function.update mn id []) := by
  rw [r.close_process]
  refine ⟨hfd ▸ h.fds.surrender id, h.maps.surrender hsub, fun hc => ?_⟩
  obtain ⟨hc, hnotes | ⟨hnil, hunused⟩⟩ := hclean hc
  · exact hnotes ▸ (h.current hc).surrender id
  · show Accounts (surrender p.maps r.mapped) _
    rw [surrender_eq_self_iff.mpr hunused, ← hnil, Function.update_eq_self]
    exact h.current hc

end Books

namespace RawRing
variable {clean : Prop} {p p' : Process} {fn : Nat → List Nat} {mn : Nat → List Mapping} {id : Nat}
  {r r' : RawRing} {k : SetupReplies} {err : Option Fault}

theorem orFail_cases {α : Type} {text : String} {call : Option (Except Errno α × Process)}
    {next : α → Process → Option (Option Fault × RawRing × Process)}
    (h : orFail text call r next = some (err, r', p')) :
    (∃ e, call = some (.error e, p') ∧ r' = r ∧ err.isSome) ∨
      ∃ x p₁, call = some (.ok x, p₁) ∧ next x p₁ = some (err, r', p') := by
  rcases call with _ | ⟨e | x, p₁⟩
  · cases h
  · cases h
    exact .inl ⟨e, rfl, rfl, rfl⟩
  · exact .inr ⟨x, p₁, rfl, h⟩

/-- The books while ring `id` is being built: what it holds so far is in its fields. -/
def Building (clean : Prop) (fn : Nat → List Nat) (mn : Nat → List Mapping) (id : Nat)
    (r : RawRing) (p : Process) : Prop :=
  Books clean p (Function.update fn id r.openFDs) (Function.update mn id r.mapped)

namespace Building

theorem openFD (h : Building clean fn mn id r p) {reply : Except Errno Nat} {fd : Nat}
    (hcall : p.openFD id reply = some (.ok fd, p')) (hmaps : r'.mapped = r.mapped)
    (hfds : ∀ n, n ∈ r'.openFDs ↔ n = fd ∨ n ∈ r.openFDs) : Building clean fn mn id r' p' := by
  have hnotes : ∀ n, n ∈ r'.openFDs ↔ n = fd ∨ n ∈ Function.update fn id r.openFDs id := by
    rwa [Function.update_self]
  have hbooks := Books.openFD h hcall hnotes
  rwa [Function.update_idem, ← hmaps] at hbooks

theorem mmap (h : Building clean fn mn id r p) {length : Nat} {reply : Except Errno Nat}
    {m : Mapping} (hcall : p.mmap id length reply = some (.ok m, p'))
    (hfds : r'.openFDs = r.openFDs)
    (hmaps : ∀ n, n ∈ r'.mapped ↔ n = m ∨ n ∈ r.mapped) : Building clean fn mn id r' p' := by
  have hnotes : ∀ n, n ∈ r'.mapped ↔ n = m ∨ n ∈ Function.update mn id r.mapped id := by
    rwa [Function.update_self]
  have hbooks := Books.mmap h hcall hnotes
  rwa [Function.update_idem, ← hfds] at hbooks

/-- `mmapRings` on a ring without mappings. -/
theorem mmapRings (h : Building clean fn mn id r p)
    (hnil : r.mmapSQ = none ∧ r.mmapCQ = none ∧ r.mmapSQEs = none)
    (hcall : r.mmapRings id k p = some (err, r', p')) :
    Building clean fn mn id r' p' ∧ r'.cancelFD = r.cancelFD ∧ r'.epollFD = r.epollFD := by
  obtain ⟨hsq, hcq, hsqes⟩ := hnil
  rcases orFail_cases hcall with ⟨e, he, rfl, -⟩ | ⟨m₁, p₁, he₁, hcall⟩
  · rw [Process.mmap_error he]
    exact ⟨h, rfl, rfl⟩
  have h₁ : Building clean fn mn id { r with mmapSQ := some m₁ } p₁ :=
    h.mmap he₁ rfl fun n => by simp [mem_mapped, hsq, hcq, hsqes, @eq_comm _ n]
  rcases orFail_cases hcall with ⟨e, he, rfl, -⟩ | ⟨m₂, p₂, he₂, hcall⟩
  · rw [Process.mmap_error he]
    exact ⟨h₁, rfl, rfl⟩
  have h₂ : Building clean fn mn id { r with mmapSQ := some m₁, mmapCQ := some m₂ } p₂ :=
    h₁.mmap he₂ rfl fun n => by simp [mem_mapped, hcq, hsqes, @eq_comm _ n, or_comm]
  rcases orFail_cases hcall with ⟨e, he, rfl, -⟩ | ⟨m₃, p₃, he₃, hcall⟩
  · rw [Process.mmap_error he]
    exact ⟨h₂, rfl, rfl⟩
  cases hcall
  refine ⟨h₂.mmap he₃ rfl fun n => ?_, rfl, rfl⟩
  simp only [mem_mapped, hsqes, Option.some_inj, reduceCtorEq, or_false, @eq_comm _ n]
  rw [← or_assoc, or_comm]

/-- `setupCancel` on a ring that has neither eventfd nor epoll instance. -/
theorem setupCancel (h : Building clean fn mn id r p) (hnil : r.cancelFD = -1 ∧ r.epollFD = -1)
    (hcall : r.setupCancel id k p = some (err, r', p')) : Building clean fn mn id r' p' := by
  obtain ⟨hcancel, hepoll⟩ := hnil
  rcases orFail_cases hcall with ⟨e, he, rfl, -⟩ | ⟨efd, p₁, he₁, hcall⟩
  · rw [Process.openFD_error he]
    exact h
  have h₁ : Building clean fn mn id { r with cancelFD := efd } p₁ :=
    h.openFD he₁ rfl fun n => by
      simp only [mem_openFDs, hcancel, hepoll]
      omega
  rcases orFail_cases hcall with ⟨e, he, rfl, -⟩ | ⟨epfd, p₂, he₂, hcall⟩
  · rw [Process.openFD_error he]
    exact h₁
  cases hcall
  refine h₁.openFD he₂ rfl fun n => ?_
  simp only [mem_openFDs, hepoll]
  omega

end Building
end RawRing

/-! ## What is asked of a call -/

namespace CloseCall

/-- Nothing of another ring is given back; the second time the process and the ring stay as they
are. -/
structure Proper (c : CloseCall) : Prop where
  fds : ∀ e ∈ c.before.fds, e.2 ≠ c.id → e ∈ c.after.fds
  maps : ∀ e ∈ c.before.maps, e.2 ≠ c.id → e ∈ c.after.maps
  again : c.again = true → c.after = c.before ∧ (c.ring.close c.before).2.1 = c.ring

/-- The same for the descriptors alone. -/
structure KeepsFDs (c : CloseCall) : Prop where
  others : ∀ e ∈ c.before.fds, e.2 ≠ c.id → e ∈ c.after.fds
  again : c.again = true → c.after.fds = c.before.fds ∧ (c.ring.close c.before).2.1 = c.ring

/-- The ring was closed before, and a mapping it has noted is in use again. -/
def Stale (c : CloseCall) : Prop := c.again = true ∧ ∃ m ∈ c.ring.mapped, m ∈ names c.before.maps

instance (c : CloseCall) : Decidable c.Stale := inferInstanceAs (Decidable (_ ∧ _))

/-- A mapping of another open ring is unmapped. -/
def Harms (c : CloseCall) : Prop :=
  ∃ e ∈ c.before.maps, e.2 ∈ c.live ∧ e.2 ≠ c.id ∧ e ∉ c.after.maps

instance (c : CloseCall) : Decidable c.Harms :=
  inferInstanceAs (Decidable (∃ e ∈ c.before.maps, _))

end CloseCall

namespace Rings
variable {s s' : Rings} {id : Nat} {r : RawRing} {p : Process} {fn : Nat → List Nat}
  {mn : Nat → List Mapping}

/-- No ring was closed again while its addresses were in use. -/
def Clean (s : Rings) : Prop := ∀ c ∈ s.closes, ¬c.Stale

/-- The call that `closeRing` records. -/
def call (s : Rings) (id : Nat) (r : RawRing) (p : Process) : CloseCall :=
  ⟨id, r, s.closed id, s.live, p, (r.close p).2.2, (r.close p).1⟩

/-- The ring `id` with the fields `r` may be closed in the process `p`: the books are kept, and
what they say about it is in its fields. -/
structure Closable (s : Rings) (id : Nat) (r : RawRing) (p : Process) (fn : Nat → List Nat)
    (mn : Nat → List Mapping) : Prop where
  books : Books s.Clean p fn mn
  fds : fn id = r.openFDs
  maps : mn id = if s.closed id then [] else r.mapped
  forgotten : s.closed id = true → r.openFDs = []
  live : ∀ j, j ≠ id → mn j ≠ [] → j ∈ s.live

namespace Closable

theorem after_eq (s : Rings) (id : Nat) (r : RawRing) (p : Process) :
    (s.call id r p).after = ⟨surrender p.fds r.openFDs, surrender p.maps r.mapped⟩ :=
  r.close_process p

theorem keepsFDs (h : Closable s id r p fn mn) : (s.call id r p).KeepsFDs := by
  constructor
  · intro e he hne
    rw [after_eq]
    show e ∈ surrender p.fds r.openFDs
    rw [← h.fds]
    exact h.books.fds.own he hne
  · intro hagain
    refine ⟨?_, r.close_ring p (h.forgotten hagain)⟩
    rw [after_eq]
    show surrender p.fds r.openFDs = p.fds
    rw [h.forgotten hagain, surrender_nil]

/-- A mapping in use that a closed ring has noted is another ring's. -/
theorem harms (h : Closable s id r p fn mn) (hstale : (s.call id r p).Stale) :
    (s.call id r p).Harms := by
  obtain ⟨hagain, m, hm, hin⟩ := hstale
  have hclosed : s.closed id = true := hagain
  obtain ⟨j, hj⟩ := mem_names.mp hin
  have hnoted := h.books.maps.noted m j hj
  have hne : j ≠ id := by
    intro he
    rw [he, h.maps, if_pos hclosed] at hnoted
    exact absurd hnoted List.not_mem_nil
  refine ⟨(m, j), hj, h.live j hne (List.ne_nil_of_mem hnoted), hne, ?_⟩
  rw [after_eq]
  intro hafter
  exact (mem_surrender.mp hafter).2 hm

theorem unused (hagain : s.closed id = true) (hstale : ¬(s.call id r p).Stale) :
    ∀ m ∈ r.mapped, m ∉ names p.maps :=
  fun m hm hin => hstale ⟨hagain, m, hm, hin⟩

theorem proper (h : Closable s id r p fn mn) (hclean : s.Clean)
    (hstale : ¬(s.call id r p).Stale) : (s.call id r p).Proper := by
  have hkeeps := h.keepsFDs
  have hsame : s.closed id = true → surrender p.maps r.mapped = p.maps := fun hagain =>
    surrender_eq_self_iff.mpr (unused hagain hstale)
  refine ⟨hkeeps.others, ?_, ?_⟩
  · intro e he hne
    rw [after_eq]
    show e ∈ surrender p.maps r.mapped
    cases hc : s.closed id with
    | true =>
      rw [hsame hc]
      exact he
    | false =>
      have hnotes := h.maps
      rw [hc] at hnotes
      have hown : e ∈ surrender p.maps (mn id) := (h.books.current hclean).own he hne
      rwa [hnotes] at hown
  · intro hagain
    refine ⟨?_, (hkeeps.again hagain).2⟩
    rw [after_eq, h.forgotten hagain, surrender_nil, hsame hagain]
    rfl

theorem close (h : Closable s id r p fn mn) :
    Books (s.Clean ∧ ¬(s.call id r p).Stale) (r.close p).2.2 (Function.update fn id [])
      (Function.update mn id []) := by
  refine h.books.close r h.fds ?_ fun ⟨hclean, hstale⟩ => ⟨hclean, ?_⟩
  · rw [h.maps]
    split_ifs
    · exact List.nil_subset _
    · exact List.Subset.refl _
  · rw [h.maps]
    split_ifs with hc
    · exact .inr ⟨rfl, unused hc hstale⟩
    · exact .inl rfl

end Closable

/-! ## Creating and closing -/

theorem lt_of_ringAt (h : (s.ringAt id).isSome = true) : id < s.rings.length := by
  by_contra hge
  rw [ringAt, List.getElem?_eq_none (Nat.le_of_not_lt hge)] at h
  cases h

theorem mem_live : id ∈ s.live ↔ (s.ringAt id).isSome = true ∧ s.closed id = false := by
  rw [live, List.mem_filter, List.mem_range, Bool.and_eq_true, Bool.not_eq_true']
  exact and_iff_right_of_imp fun h => lt_of_ringAt h.1

theorem mem_live_of_mapNotes (h : s.mapNotes id ≠ []) : id ∈ s.live := by
  rw [mapNotes] at h
  split_ifs at h with hc
  · exact absurd rfl h
  · rw [mem_live]
    refine ⟨?_, by simpa using hc⟩
    cases hr : s.ringAt id with
    | none =>
      rw [hr] at h
      exact absurd rfl h
    | some r => rfl

theorem ringAt_push {x : Option RawRing} (hr : s'.rings = s.rings ++ [x]) :
    s'.ringAt = Function.update s.ringAt s.rings.length x := by
  funext id
  rw [ringAt, hr]
  by_cases h : id = s.rings.length
  · rw [h, Function.update_self, List.getElem?_concat_length]
    rfl
  · rw [Function.update_of_ne h, ringAt]
    rcases Nat.lt_or_ge id s.rings.length with hlt | hge
    · rw [List.getElem?_append_left hlt]
    · rw [List.getElem?_eq_none (by rw [List.length_append, List.length_singleton]; omega),
        List.getElem?_eq_none hge]

theorem ringAt_set {x : Option RawRing} (hid : (s.ringAt id).isSome = true)
    (hr : s'.rings = s.rings.set id x) : s'.ringAt = Function.update s.ringAt id x := by
  funext j
  rw [ringAt, hr]
  by_cases h : j = id
  · rw [h, Function.update_self, List.getElem?_set_self (lt_of_ringAt hid)]
    rfl
  · rw [Function.update_of_ne h, List.getElem?_set_ne (Ne.symm h)]
    rfl

theorem fdNotes_eq {x : Option RawRing} (h : s'.ringAt = Function.update s.ringAt id x) :
    s'.fdNotes = Function.update s.fdNotes id ((x.map RawRing.openFDs).getD []) := by
  funext j
  rw [fdNotes, h]
  by_cases hj : j = id
  · rw [hj, Function.update_self, Function.update_self]
  · rw [Function.update_of_ne hj, Function.update_of_ne hj]
    rfl

theorem mapNotes_eq {x : Option RawRing} (h : s'.ringAt = Function.update s.ringAt id x)
    (hc : ∀ j, j ≠ id → s'.closed j = s.closed j) :
    s'.mapNotes = Function.update s.mapNotes id
      (if s'.closed id then [] else (x.map RawRing.mapped).getD []) := by
  funext j
  rw [mapNotes, h]
  by_cases hj : j = id
  · rw [hj, Function.update_self, Function.update_self]
  · rw [Function.update_of_ne hj, Function.update_of_ne hj, hc j hj]
    rfl

theorem closed_call (h : s'.closes = s.closes ++ [s.call id r p]) (j : Nat) :
    s'.closed j = (s.closed j || decide (id = j)) := by
  rw [closed, h, List.any_append, List.any_cons, List.any_nil, Bool.or_false]
  rfl

/-- The invariant.  It says what is asked of each call as the call is recorded. -/
structure Inv (s : Rings) : Prop where
  books : Books s.Clean s.process s.fdNotes s.mapNotes
  forgotten : ∀ id, s.closed id = true → s.fdNotes id = []
  numbered : ∀ c ∈ s.closes, c.id < s.rings.length
  keeps : ∀ c ∈ s.closes, c.KeepsFDs
  harms : ∀ c ∈ s.closes, c.Stale → c.Harms
  proper : s.Clean → ∀ c ∈ s.closes, c.Proper

namespace Inv

theorem start : Inv Rings.start where
  books := ⟨accounts_nil, accounts_nil.toNoted, fun _ => accounts_nil⟩
  forgotten _ _ := rfl
  numbered _ h := absurd h List.not_mem_nil
  keeps _ h := absurd h List.not_mem_nil
  harms _ h := absurd h List.not_mem_nil
  proper _ _ h := absurd h List.not_mem_nil

/-- The next ring's number has no ring, no notes and no calls. -/
theorem fresh (h : s.Inv) : s.closed s.rings.length = false ∧ s.fdNotes s.rings.length = [] ∧
    s.mapNotes s.rings.length = [] := by
  have hnone : s.ringAt s.rings.length = none := by
    rw [ringAt, List.getElem?_eq_none (Nat.le_refl _)]
    rfl
  have hclosed : s.closed s.rings.length = false := by
    rw [closed, List.any_eq_false]
    intro c hc he
    exact absurd (of_decide_eq_true he) (Nat.ne_of_lt (h.numbered c hc))
  refine ⟨hclosed, ?_, ?_⟩
  · rw [fdNotes, hnone]
    rfl
  · rw [mapNotes, hnone, hclosed]
    rfl

/-- A ring that is closed: the call is recorded, and its notes are empty. -/
theorem close (h : s.Inv) (hc : Closable s id r p fn mn)
    (hproc : s'.process = (r.close p).2.2) (hcloses : s'.closes = s.closes ++ [s.call id r p])
    (hid : id < s'.rings.length) (hlen : s.rings.length ≤ s'.rings.length)
    (hfn : s'.fdNotes = Function.update fn id []) (hmn : s'.mapNotes = Function.update mn id [])
    (hold : ∀ j, j ≠ id → fn j = s.fdNotes j) : s'.Inv := by
  have hmem : ∀ {Q : CloseCall → Prop}, (∀ c ∈ s.closes, Q c) → Q (s.call id r p) →
      ∀ c ∈ s'.closes, Q c := by
    intro Q hQ hcall c hc
    rw [hcloses] at hc
    rcases List.mem_append.mp hc with hc | hc
    · exact hQ c hc
    · rw [List.mem_singleton.mp hc]
      exact hcall
  have hclean : s'.Clean → s.Clean ∧ ¬(s.call id r p).Stale := by
    intro hcl
    rw [Clean, hcloses] at hcl
    exact ⟨fun c hc => hcl c (List.mem_append_left _ hc),
      hcl _ (List.mem_append_right _ (List.mem_singleton_self _))⟩
  constructor
  · have hbooks := hc.close
    rw [hproc, hfn, hmn]
    exact ⟨hbooks.fds, hbooks.maps, fun hcl => hbooks.current (hclean hcl)⟩
  · intro j hj
    rw [hfn]
    by_cases hne : j = id
    · rw [hne, Function.update_self]
    · rw [Function.update_of_ne hne, hold j hne]
      rw [closed_call hcloses, decide_eq_false (Ne.symm hne), Bool.or_false] at hj
      exact h.forgotten j hj
  · exact hmem (fun c hc => Nat.lt_of_lt_of_le (h.numbered c hc) hlen) hid
  · exact hmem h.keeps hc.keepsFDs
  · exact hmem h.harms hc.harms
  · intro hcl
    obtain ⟨hcl, hstale⟩ := hclean hcl
    exact hmem (h.proper hcl) (hc.proper hcl hstale)

/-- A number is used up without a call of `Close`. -/
theorem push (h : s.Inv) {x : Option RawRing}
    (hbooks : Books s.Clean p (Function.update s.fdNotes s.rings.length
      ((x.map RawRing.openFDs).getD [])) (Function.update s.mapNotes s.rings.length
      ((x.map RawRing.mapped).getD []))) :
    Inv { s with process := p, rings := s.rings ++ [x] } := by
  obtain ⟨hclosed, -, -⟩ := h.fresh
  have hring : ({ s with process := p, rings := s.rings ++ [x] } : Rings).ringAt = _ :=
    ringAt_push rfl
  have hfn := fdNotes_eq hring
  have hmn := mapNotes_eq hring fun _ _ => rfl
  constructor
  · rw [hfn, hmn]
    rwa [show closed { s with process := p, rings := s.rings ++ [x] } s.rings.length = false from
      hclosed]
  · intro j hj
    have hj : s.closed j = true := hj
    have hne : j ≠ s.rings.length := by
      intro he
      rw [he, hclosed] at hj
      cases hj
    rw [hfn, Function.update_of_ne hne]
    exact h.forgotten j hj
  · intro c hc
    show c.id < (s.rings ++ [x]).length
    rw [List.length_append]
    exact Nat.lt_of_lt_of_le (h.numbered c hc) (Nat.le_add_right _ _)
  · exact h.keeps
  · exact h.harms
  · exact h.proper

/-- A `setup` that fails closes what it has built. -/
theorem fail (h : s.Inv)
    (hb : RawRing.Building s.Clean s.fdNotes s.mapNotes s.rings.length r p) :
    (s.fail r p).Inv := by
  obtain ⟨hclosed, -, -⟩ := h.fresh
  have hc : Closable s s.rings.length r p (Function.update s.fdNotes s.rings.length r.openFDs)
      (Function.update s.mapNotes s.rings.length r.mapped) := by
    constructor
    · exact hb
    · exact Function.update_self ..
    · rw [hclosed]
      exact Function.update_self ..
    · intro hagain
      rw [hclosed] at hagain
      cases hagain
    · intro j hne hj
      rw [Function.update_of_ne hne] at hj
      exact mem_live_of_mapNotes hj
  have hring : (s.fail r p).ringAt = Function.update s.ringAt s.rings.length none :=
    ringAt_push rfl
  refine h.close hc rfl rfl ?_ ?_ ?_ ?_ fun j hne => Function.update_of_ne hne ..
  · show _ < (s.rings ++ [none]).length
    rw [List.length_append]
    exact Nat.lt_succ_self _
  · show _ ≤ (s.rings ++ [none]).length
    rw [List.length_append]
    exact Nat.le_succ _
  · rw [fdNotes_eq hring, Function.update_idem]
    rfl
  · rw [mapNotes_eq hring, Function.update_idem]
    · split_ifs <;> rfl
    · intro j hne
      rw [closed_call rfl, decide_eq_false (Ne.symm hne), Bool.or_false]

/-- `Close` on a ring that `setup` returned, however often. -/
theorem closeRing (h : s.Inv) (hr : s.ringAt id = some r) :
    Inv { s.closeRing id r s.process with
      rings := s.rings.set id (some (r.close s.process).2.1) } := by
  have hfds : s.fdNotes id = r.openFDs := by
    rw [fdNotes, hr]
    rfl
  have hc : Closable s id r s.process s.fdNotes s.mapNotes := by
    constructor
    · exact h.books
    · exact hfds
    · rw [mapNotes, hr]
      rfl
    · intro hagain
      rw [← hfds]
      exact h.forgotten id hagain
    · intro j _ hj
      exact mem_live_of_mapNotes hj
  have hsome : (s.ringAt id).isSome = true := by rw [hr]; rfl
  have hring : ringAt { s.closeRing id r s.process with
      rings := s.rings.set id (some (r.close s.process).2.1) } = _ := ringAt_set hsome rfl
  refine h.close hc rfl rfl ?_ ?_ ?_ ?_ fun _ _ => rfl
  · show id < (s.rings.set id _).length
    rw [List.length_set]
    exact lt_of_ringAt hsome
  · show _ ≤ (s.rings.set id _).length
    rw [List.length_set]
  · rw [fdNotes_eq hring]
    show Function.update s.fdNotes id (r.close s.process).2.1.openFDs = _
    rw [r.openFDs_close]
  · rw [mapNotes_eq hring]
    · rw [closed_call rfl, decide_eq_true rfl, Bool.or_true, if_pos rfl]
    · intro j hne
      rw [closed_call rfl, decide_eq_false (Ne.symm hne), Bool.or_false]

/-- `New` and `NewSQE128`. -/
theorem setup (h : s.Inv) {n : Nat} {k : SetupReplies} {out : Except Fault RawRing}
    (hs : s.setup n k = some (out, s')) : s'.Inv := by
  obtain ⟨-, hfd, hmap⟩ := h.fresh
  unfold Rings.setup at hs
  rcases hk : k.setup with e | ⟨fd, params⟩ <;> simp only [hk] at hs
  · cases hs
    refine h.push ?_
    show Books _ _ (Function.update s.fdNotes _ []) (Function.update s.mapNotes _ [])
    rw [← hfd, Function.update_eq_self, ← hmap, Function.update_eq_self]
    exact h.books
  rcases ho : s.process.openFD s.rings.length (.ok fd) with _ | ⟨e | fd', p₁⟩ <;>
    simp only [ho] at hs
  · cases hs
  · cases hs
  -- the ring has its first descriptor
  have h₁ : RawRing.Building s.Clean s.fdNotes s.mapNotes s.rings.length
      ⟨n, params, fd', -1, -1, none, none, none⟩ p₁ := by
    have hnotes : ∀ fd, fd ∈ [fd'] ↔ fd = fd' ∨ fd ∈ s.fdNotes s.rings.length := by
      intro fd
      rw [hfd, List.mem_cons]
    have hbooks := h.books.openFD ho hnotes
    have hnone : Function.update s.mapNotes s.rings.length [] = s.mapNotes := by
      rw [← hmap, Function.update_eq_self]
    rw [← hnone] at hbooks
    exact hbooks
  rcases hm : RawRing.mmapRings ⟨n, params, fd', -1, -1, none, none, none⟩ s.rings.length k p₁
    with _ | ⟨_ | err, r₂, p₂⟩ <;> simp only [hm] at hs
  · cases hs
  · obtain ⟨h₂, hcancel, hepoll⟩ := h₁.mmapRings ⟨rfl, rfl, rfl⟩ hm
    rcases hc : r₂.setupCancel s.rings.length k p₂ with _ | ⟨_ | err, r₃, p₃⟩ <;>
      simp only [hc] at hs
    · cases hs
    · cases hs
      exact h.push (h₂.setupCancel ⟨hcancel, hepoll⟩ hc)
    · cases hs
      exact h.fail (h₂.setupCancel ⟨hcancel, hepoll⟩ hc)
  · cases hs
    exact h.fail (h₁.mmapRings ⟨rfl, rfl, rfl⟩ hm).1

theorem step (h : s.Inv) {a : RingsAction} (hs : s.step a = some s') : s'.Inv := by
  cases a with
  | new k =>
    obtain ⟨⟨out, s₁⟩, hsetup, rfl⟩ := Option.map_eq_some_iff.mp hs
    exact h.setup hsetup
  | newSQE128 k =>
    obtain ⟨⟨out, s₁⟩, hsetup, rfl⟩ := Option.map_eq_some_iff.mp hs
    exact h.setup hsetup
  | close id =>
    cases hr : s.ringAt id with
    | none =>
      simp only [Rings.step, hr] at hs
      cases hs
    | some r =>
      simp only [Rings.step, hr] at hs
      cases hs
      exact h.closeRing hr

end Inv

/-- **What `Close` releases**, over every sequence of creations, failed creations and calls of
`Close`, with the kernel free to reuse what was given back.

* It never closes a descriptor of another ring, and no descriptor at all the second time.
* A ring that is closed again while one of its addresses is in use unmaps a mapping of another
  open ring.
* All calls are proper exactly if that does not happen. -/
theorem closes_proper_iff (as : List RingsAction) (s : Rings)
    (h : Run step (fun _ _ => True) start as s) :
    (∀ c ∈ s.closes, c.KeepsFDs) ∧ (∀ c ∈ s.closes, c.Stale → c.Harms) ∧
      ((∀ c ∈ s.closes, c.Proper) ↔ ∀ c ∈ s.closes, ¬c.Stale) := by
  have hi : s.Inv := h.invariant Inv.start fun _ _ _ hi _ hs => hi.step hs
  refine ⟨hi.keeps, hi.harms, ?_, hi.proper⟩
  intro hproper c hc hstale
  obtain ⟨e, he, -, hne, hgone⟩ := hi.harms c hc hstale
  exact hgone ((hproper c hc).maps e he hne)

/-- A kernel that numbers the descriptors from `fd` and places the mappings from `base` on. -/
def sampleReplies (fd base : Nat) : SetupReplies where
  setup := .ok (fd, ⟨4, 8, 64, 64⟩)
  mmapSQ := .ok base
  mmapCQ := .ok (base + 0x1000)
  mmapSQEs := .ok (base + 0x2000)
  eventfd := .ok (fd + 1)
  epollCreate := .ok (fd + 2)
  epollCtl _ := none

/-- A creation fails, a ring is closed, one with its descriptors and other addresses is created,
and the first is closed again: `Munmap` finds none of its mappings, and nothing happens. -/
theorem closes_proper_elsewhere :
    ∃ s : Rings, Run step (fun _ _ => True) start
        [.new { sampleReplies 3 0x10000 with epollCreate := .error 24 },
          .new (sampleReplies 3 0x10000), .close 1, .newSQE128 (sampleReplies 3 0x20000), .close 1]
        s ∧
      s.closes.map CloseCall.errs = [[], [], [einval, einval, einval]] ∧ s.live = [2] ∧
      ∀ c ∈ s.closes, c.Proper := by
  have hex : ∃ s : Rings, Run step (fun _ _ => True) start
      [.new { sampleReplies 3 0x10000 with epollCreate := .error 24 },
        .new (sampleReplies 3 0x10000), .close 1, .newSQE128 (sampleReplies 3 0x20000), .close 1]
      s ∧ (s.closes.map CloseCall.errs = [[], [], [einval, einval, einval]] ∧ s.live = [2] ∧
        ∀ c ∈ s.closes, ¬c.Stale) :=
    exists_run_of_exec
      (fun s : Rings => s.closes.map CloseCall.errs = [[], [], [einval, einval, einval]] ∧
        s.live = [2] ∧ ∀ c ∈ s.closes, ¬c.Stale)
      (by decide +kernel)
  obtain ⟨s, hrun, herrs, hlive, hclean⟩ := hex
  exact ⟨s, hrun, herrs, hlive, (closes_proper_iff _ s hrun).2.2.mpr hclean⟩

/-- **A second `Close` unmaps another ring.**  A ring is closed, a second one is created with the
same addresses, and the first is closed again.  That call reports no error; the second ring is
open and has no mapping left. -/
theorem close_again_unmaps_other :
    ∃ s : Rings, Run step (fun _ _ => True) start
        [.new (sampleReplies 3 0x10000), .close 0, .new (sampleReplies 3 0x10000), .close 0] s ∧
      s.live = [1] ∧ s.process.fds = [(5, 1), (4, 1), (3, 1)] ∧ s.process.maps = [] ∧
      ∃ c ∈ s.closes, c.again = true ∧ c.errs = [] ∧ c.Harms :=
  exists_run_of_exec
    (fun s : Rings => s.live = [1] ∧ s.process.fds = [(5, 1), (4, 1), (3, 1)] ∧
      s.process.maps = [] ∧ ∃ c ∈ s.closes, c.again = true ∧ c.errs = [] ∧ c.Harms)
    (by decide +kernel)

end Rings
end Ublk
