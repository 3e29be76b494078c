import UblkProof.RingRelease

/-! # Rings leave nothing behind

The other half of `RingRelease`: what is open belongs to a ring that is open, whatever failed on
the way to it, so nothing is left once all rings are closed.  While no ring is closed again with
one of its addresses in use, an open ring has its three descriptors and its three mappings, which
it shares with nobody, and closing it succeeds.

`Built` is what `setup` has of a ring at any time: what its fields name is there, and each name
only once.
-/
namespace Ublk
open Leases
open Runs (Run exists_run_of_exec)

/-! ## Calls that find what they look for -/

namespace Process
variable {p p' : Process}

/-- No two mappings share a byte. -/
def Clear (p : Process) : Prop := (names p.maps).Pairwise Mapping.ClearOf

theorem mmap_clear {id length : Nat} {reply : Except Errno Nat} {m : Mapping}
    (h : p.mmap id length reply = some (.ok m, p')) (hp : p.Clear) : p'.Clear := by
  cases reply with
  | error e => cases h
  | ok base =>
    rw [mmap] at h
    split_ifs at h with hplace
    cases h
    exact List.pairwise_cons.mpr ⟨fun m' hm' => (hplace.2 m' hm').symm, hp⟩

/-- Names that are in use are still in use after another was given back. -/
theorem mem_names_surrender {N : Type} [DecidableEq N] {t : List (N × Nat)} {n n' : N}
    (h : n ∈ names t) (hne : n ≠ n') : n ∈ names (surrender t [n']) := by
  obtain ⟨o, ho⟩ := mem_names.mp h
  exact mem_names.mpr ⟨o, mem_surrender.mpr ⟨ho, fun hm => hne (List.mem_singleton.mp hm)⟩⟩

theorem munmapAll_errs (p : Process) (ms : List (Option Mapping))
    (h : ∀ m ∈ ms.filterMap id, m ∈ names p.maps) (hnd : (ms.filterMap id).Nodup) :
    (p.munmapAll ms).1 = [] := by
  induction ms generalizing p with
  | nil => rfl
  | cons m ms ih =>
    cases m with
    | none => exact ih p h hnd
    | some m =>
      obtain ⟨hnot, hnd⟩ := List.nodup_cons.mp (show (m :: ms.filterMap id).Nodup from hnd)
      have hm : m ∈ names p.maps := h m List.mem_cons_self
      have hfirst : p.munmap m = (none, { p with maps := surrender p.maps [m] }) := if_pos hm
      have hrest := ih { p with maps := surrender p.maps [m] } (fun m' hm' =>
        mem_names_surrender (h m' (List.mem_cons_of_mem m hm'))
          (fun he => hnot (he ▸ hm'))) hnd
      simp only [munmapAll, hfirst, hrest]
      rfl

theorem closeAll_errs (p : Process) (fds : List Int)
    (h : ∀ fd ∈ fds.filterMap RawRing.number, fd ∈ names p.fds)
    (hnd : (fds.filterMap RawRing.number).Nodup) : (p.closeAll fds).1 = [] := by
  induction fds generalizing p with
  | nil => rfl
  | cons fd fds ih =>
    rw [List.filterMap_cons, RawRing.number] at h hnd
    rw [closeAll]
    split_ifs at h hnd ⊢ with hfd
    · obtain ⟨hnot, hnd⟩ := List.nodup_cons.mp hnd
      have hm : fd.toNat ∈ names p.fds := h _ List.mem_cons_self
      have hfirst : p.closeFD fd.toNat = (none, { p with fds := surrender p.fds [fd.toNat] }) :=
        if_pos hm
      have hrest := ih { p with fds := surrender p.fds [fd.toNat] } (fun n hn =>
        mem_names_surrender (h n (List.mem_cons_of_mem _ hn)) (fun he => hnot (he ▸ hn))) hnd
      simp only [hfirst, hrest]
      rfl
    · exact ih p h hnd

end Process

/-! ## A ring that is being built -/

/-- What the fields of a ring name is there, each name once. -/
structure Built (r : RawRing) (p : Process) : Prop where
  clear : p.Clear
  fds : r.openFDs.Nodup ∧ ∀ fd ∈ r.openFDs, fd ∈ names p.fds
  maps : r.mapped.Nodup ∧ ∀ m ∈ r.mapped, m ∈ names p.maps

namespace Built
variable {r r' : RawRing} {p p' : Process} {id : Nat} {k : SetupReplies} {err : Option Fault}

/-- **Closing it succeeds.** -/
theorem close_errs (h : Built r p) : (r.close p).1 = [] := by
  have hmaps := p.munmapAll_errs r.mappings h.maps.2 h.maps.1
  have hfds := (p.munmapAll r.mappings).2.closeAll_errs r.fds
    (by rw [Process.munmapAll_snd]; exact h.fds.2) h.fds.1
  show (p.munmapAll r.mappings).1 ++ ((p.munmapAll r.mappings).2.closeAll r.fds).1 = []
  rw [hmaps, hfds]
  rfl

theorem openFD (h : Built r p) {reply : Except Errno Nat} {fd : Nat}
    (hcall : p.openFD id reply = some (.ok fd, p')) (hfds : r'.openFDs = fd :: r.openFDs)
    (hmaps : r'.mapped = r.mapped) : Built r' p' := by
  obtain ⟨hfree, rfl⟩ := Process.openFD_ok hcall
  refine ⟨h.clear, ?_, hmaps ▸ h.maps⟩
  rw [hfds]
  refine ⟨List.nodup_cons.mpr ⟨fun hin => hfree (h.fds.2 fd hin), h.fds.1⟩, fun n hn => ?_⟩
  rcases List.mem_cons.mp hn with rfl | hn
  · exact List.mem_cons_self
  · exact List.mem_cons_of_mem _ (h.fds.2 n hn)

theorem mmap (h : Built r p) {length : Nat} {reply : Except Errno Nat} {m : Mapping}
    (hcall : p.mmap id length reply = some (.ok m, p')) (hfds : r'.openFDs = r.openFDs)
    (hmaps : r'.mapped = r.mapped ++ [m]) : Built r' p' := by
  have hclear := Process.mmap_clear hcall h.clear
  obtain ⟨hfree, rfl⟩ := Process.mmap_ok hcall
  refine ⟨hclear, hfds ▸ h.fds, ?_⟩
  rw [hmaps]
  refine ⟨h.maps.1.append (List.nodup_singleton _)
    (List.disjoint_singleton.mpr fun hin => hfree (h.maps.2 m hin)), fun n hn => ?_⟩
  rcases List.mem_append.mp hn with hn | hn
  · exact List.mem_cons_of_mem _ (h.maps.2 n hn)
  · rw [List.mem_singleton.mp hn]
    exact List.mem_cons_self

/-- `mmapRings` on a ring without mappings: all three, or an error. -/
theorem mmapRings (h : Built r p)
    (hnil : r.mmapSQ = none ∧ r.mmapCQ = none ∧ r.mmapSQEs = none)
    (hcall : r.mmapRings id k p = some (err, r', p')) :
    Built r' p' ∧ r'.fds = r.fds ∧ (err = none → r'.mapped.length = 3) := by
  obtain ⟨hsq, hcq, hsqes⟩ := hnil
  have hr : r.mapped = [] := by
    simp [RawRing.mapped, RawRing.mappings, hsq, hcq, hsqes]
  rcases RawRing.orFail_cases hcall with ⟨e, he, rfl, herr⟩ | ⟨m₁, p₁, he₁, hcall⟩
  · rw [Process.mmap_error he]
    exact ⟨h, rfl, fun hn => by rw [hn] at herr; cases herr⟩
  have h₁ : Built { r with mmapSQ := some m₁ } p₁ := by
    refine h.mmap he₁ rfl ?_
    rw [hr]
    simp [RawRing.mapped, RawRing.mappings, hcq, hsqes]
  rcases RawRing.orFail_cases hcall with ⟨e, he, rfl, herr⟩ | ⟨m₂, p₂, he₂, hcall⟩
  · rw [Process.mmap_error he]
    exact ⟨h₁, rfl, fun hn => by rw [hn] at herr; cases herr⟩
  have h₂ : Built { r with mmapSQ := some m₁, mmapCQ := some m₂ } p₂ := by
    refine h₁.mmap he₂ rfl ?_
    simp [RawRing.mapped, RawRing.mappings, hcq, hsqes]
  rcases RawRing.orFail_cases hcall with ⟨e, he, rfl, herr⟩ | ⟨m₃, p₃, he₃, hcall⟩
  · rw [Process.mmap_error he]
    exact ⟨h₂, rfl, fun hn => by rw [hn] at herr; cases herr⟩
  cases hcall
  refine ⟨h₂.mmap he₃ rfl ?_, rfl, fun _ => rfl⟩
  simp [RawRing.mapped, RawRing.mappings, hsqes]

/-- `setupCancel` on a ring that has neither eventfd nor epoll instance: both, or an error. -/
theorem setupCancel (h : Built r p) (hnil : r.cancelFD = -1 ∧ r.epollFD = -1)
    (hcall : r.setupCancel id k p = some (err, r', p')) :
    Built r' p' ∧ r'.mapped = r.mapped ∧
      (err = none → r'.openFDs.length = r.openFDs.length + 2) := by
  obtain ⟨hcancel, hepoll⟩ := hnil
  have hnat : ∀ n : Nat, RawRing.number n = some n := fun n => RawRing.number_eq_some.mpr rfl
  have hnone : RawRing.number (-1) = none := rfl
  rcases RawRing.orFail_cases hcall with ⟨e, he, rfl, herr⟩ | ⟨efd, p₁, he₁, hcall⟩
  · rw [Process.openFD_error he]
    exact ⟨h, rfl, fun hn => by rw [hn] at herr; cases herr⟩
  have h₁ : Built { r with cancelFD := efd } p₁ := by
    refine h.openFD he₁ ?_ rfl
    simp [RawRing.openFDs, RawRing.fds, List.filterMap_cons, hcancel, hepoll, hnat, hnone]
  rcases RawRing.orFail_cases hcall with ⟨e, he, rfl, herr⟩ | ⟨epfd, p₂, he₂, hcall⟩
  · rw [Process.openFD_error he]
    exact ⟨h₁, rfl, fun hn => by rw [hn] at herr; cases herr⟩
  cases hcall
  refine ⟨h₁.openFD he₂ ?_ rfl, rfl, fun _ => ?_⟩
  · simp [RawRing.openFDs, RawRing.fds, List.filterMap_cons, hepoll, hnat, hnone]
  · simp [RawRing.openFDs, RawRing.fds, List.filterMap_cons, hcancel, hepoll, hnat, hnone]

end Built

/-! ## All rings -/

namespace Rings
variable {s s' : Rings} {id : Nat} {r : RawRing} {p : Process}

/-- How `setup` ends: without a ring, with one that it closes again, or with a whole one. -/
theorem setup_cases {n : Nat} {k : SetupReplies} {out : Except Fault RawRing}
    (hclear : s.process.Clear) (hs : s.setup n k = some (out, s')) :
    s' = { s with rings := s.rings ++ [none] } ∨
    (∃ r p, Built r p ∧ s' = s.fail r p) ∨
    ∃ r p, Built r p ∧ r.openFDs.length = 3 ∧ r.mapped.length = 3 ∧
      s' = { s with process := p, rings := s.rings ++ [some r] } := by
  unfold Rings.setup at hs
  rcases hk : k.setup with e | ⟨fd, params⟩ <;> simp only [hk] at hs
  · cases hs
    exact .inl rfl
  rcases ho : s.process.openFD s.rings.length (.ok fd) with _ | ⟨e | fd', p₁⟩ <;>
    simp only [ho] at hs
  · cases hs
  · cases hs
  have h₁ : Built ⟨n, params, fd', -1, -1, none, none, none⟩ p₁ := by
    obtain ⟨hfree, rfl⟩ := Process.openFD_ok ho
    have hfds : RawRing.openFDs ⟨n, params, fd', -1, -1, none, none, none⟩ = [fd'] := by
      simp [RawRing.openFDs, RawRing.fds, RawRing.number]
    refine ⟨hclear, ?_, List.nodup_nil, fun _ hm => by cases hm⟩
    rw [hfds]
    refine ⟨List.nodup_singleton _, fun n hn => ?_⟩
    rw [List.mem_singleton.mp hn]
    exact List.mem_cons_self
  rcases hm : RawRing.mmapRings ⟨n, params, fd', -1, -1, none, none, none⟩ s.rings.length k p₁
    with _ | ⟨_ | err, r₂, p₂⟩ <;> simp only [hm] at hs
  · cases hs
  · obtain ⟨h₂, hfds, hmapped⟩ := h₁.mmapRings ⟨rfl, rfl, rfl⟩ hm
    have hnil : r₂.cancelFD = -1 ∧ r₂.epollFD = -1 := by
      simp only [RawRing.fds, List.cons.injEq] at hfds
      exact ⟨hfds.2.1, hfds.1⟩
    have hone : r₂.openFDs.length = 1 := by
      rw [RawRing.openFDs, hfds]
      simp [RawRing.fds, RawRing.number]
    rcases hc : r₂.setupCancel s.rings.length k p₂ with _ | ⟨_ | err, r₃, p₃⟩ <;>
      simp only [hc] at hs
    · cases hs
    · cases hs
      obtain ⟨h₃, hmaps, hlen⟩ := h₂.setupCancel hnil hc
      exact .inr (.inr ⟨r₃, p₃, h₃, by rw [hlen rfl, hone], by rw [hmaps, hmapped rfl], rfl⟩)
    · cases hs
      exact .inr (.inl ⟨r₃, p₃, (h₂.setupCancel hnil hc).1, rfl⟩)
  · cases hs
    exact .inr (.inl ⟨r₂, p₂, (h₁.mmapRings ⟨rfl, rfl, rfl⟩ hm).1, rfl⟩)

/-- Mappings are apart, open rings are complete, and closing one for the first time succeeds. -/
structure Whole (s : Rings) : Prop where
  clear : s.process.Clear
  maps : ∀ id r, s.ringAt id = some r → r.mapped.Nodup ∧ r.mapped.length = 3
  fds : ∀ id r, s.ringAt id = some r → s.closed id = false →
    r.openFDs.Nodup ∧ r.openFDs.length = 3
  errs : s.Clean → ∀ c ∈ s.closes, c.again = false → c.errs = []

namespace Whole

theorem start : Whole Rings.start where
  clear := List.Pairwise.nil
  maps := fun _ _ h => by cases h
  fds := fun _ _ h => by cases h
  errs := fun _ _ h => by cases h

/-- In a clean run an open ring has what its fields name. -/
theorem built (h : s.Whole) (hi : s.Inv) (hclean : s.Clean) (hr : s.ringAt id = some r)
    (hopen : s.closed id = false) : Built r s.process := by
  have hfds : s.fdNotes id = r.openFDs := by rw [fdNotes, hr]; rfl
  have hmaps : s.mapNotes id = r.mapped := by rw [mapNotes, hopen, hr]; rfl
  refine ⟨h.clear, ⟨(h.fds id r hr hopen).1, fun fd hfd => ?_⟩, (h.maps id r hr).1, fun m hm => ?_⟩
  · exact mem_names.mpr ⟨id, hi.books.fds.backed id fd (hfds ▸ hfd)⟩
  · exact mem_names.mpr ⟨id, (hi.books.current hclean).backed id m (hmaps ▸ hm)⟩

/-- A number is used up; a ring that gets it is complete. -/
theorem push (h : s.Whole) {x : Option RawRing} (hclear : p.Clear)
    (hx : ∀ r, x = some r → (r.mapped.Nodup ∧ r.mapped.length = 3) ∧
      r.openFDs.Nodup ∧ r.openFDs.length = 3) :
    Whole { s with process := p, rings := s.rings ++ [x] } := by
  have hring : ringAt { s with process := p, rings := s.rings ++ [x] } =
      Function.update s.ringAt s.rings.length x := ringAt_push rfl
  -- a ring is the new one or an old one
  have hcases : ∀ id r, ringAt { s with process := p, rings := s.rings ++ [x] } id = some r →
      x = some r ∨ s.ringAt id = some r := by
    intro id r hr
    rw [hring] at hr
    by_cases hid : id = s.rings.length
    · rw [hid, Function.update_self] at hr
      exact .inl hr
    · rw [Function.update_of_ne hid] at hr
      exact .inr hr
  refine ⟨hclear, fun id r hr => ?_, fun id r hr hopen => ?_, h.errs⟩
  · rcases hcases id r hr with hnew | hold
    · exact (hx r hnew).1
    · exact h.maps id r hold
  · rcases hcases id r hr with hnew | hold
    · exact (hx r hnew).2
    · exact h.fds id r hold hopen

/-- A ring is closed and the call is recorded. -/
theorem close (h : s.Whole) (hp : p.Clear) (hbuilt : s.Clean → s.closed id = false → Built r p)
    (hproc : s'.process = (r.close p).2.2) (hcloses : s'.closes = s.closes ++ [s.call id r p])
    (hring : ∀ j, j ≠ id → s'.ringAt j = s.ringAt j)
    (hself : ∀ r', s'.ringAt id = some r' → r'.mapped = r.mapped ∧ s.ringAt id = some r) :
    s'.Whole := by
  have hclosed : ∀ j, s'.closed j = (s.closed j || decide (id = j)) := closed_call hcloses
  refine ⟨?_, fun j r' hr' => ?_, fun j r' hr' hopen => ?_, fun hclean c hc hagain => ?_⟩
  · rw [hproc, r.close_process]
    exact List.Pairwise.sublist (List.filter_sublist.map Prod.fst) hp
  · by_cases hj : j = id
    · rw [hj] at hr'
      obtain ⟨hmaps, hr⟩ := hself r' hr'
      rw [hmaps]
      exact h.maps id r hr
    · rw [hring j hj] at hr'
      exact h.maps j r' hr'
  · have hj : j ≠ id := by
      intro hj
      rw [hj, hclosed, decide_eq_true rfl, Bool.or_true] at hopen
      cases hopen
    rw [hclosed, decide_eq_false (Ne.symm hj), Bool.or_false] at hopen
    rw [hring j hj] at hr'
    exact h.fds j r' hr' hopen
  · rw [Clean, hcloses] at hclean
    have hold : s.Clean := fun c hc => hclean c (List.mem_append_left _ hc)
    rw [hcloses] at hc
    rcases List.mem_append.mp hc with hc | hc
    · exact h.errs hold c hc hagain
    · rw [List.mem_singleton.mp hc] at hagain ⊢
      exact (hbuilt hold hagain).close_errs

theorem step (h : s.Whole) (hi : s.Inv) {a : RingsAction} (hs : s.step a = some s') :
    s'.Whole := by
  have hsetup : ∀ {n : Nat} {k : SetupReplies} {out : Except Fault RawRing},
      s.setup n k = some (out, s') → s'.Whole := by
    intro n k out hs
    rcases setup_cases h.clear hs with rfl | ⟨r, p, hb, rfl⟩ | ⟨r, p, hb, hfds, hmaps, rfl⟩
    · exact h.push h.clear fun _ hx => by cases hx
    · have hring : (s.fail r p).ringAt = Function.update s.ringAt s.rings.length none :=
        ringAt_push rfl
      refine h.close hb.clear (fun _ _ => hb) rfl rfl (fun j hj => ?_) fun r' hr' => ?_
      · rw [hring, Function.update_of_ne hj]
      · rw [hring, Function.update_self] at hr'
        cases hr'
    · refine h.push hb.clear fun r' hr' => ?_
      cases hr'
      exact ⟨⟨hb.maps.1, hmaps⟩, hb.fds.1, hfds⟩
  cases a with
  | new k | newSQE128 k =>
    obtain ⟨⟨out, s₁⟩, hcall, rfl⟩ := Option.map_eq_some_iff.mp hs
    exact hsetup hcall
  | close id =>
    cases hr : s.ringAt id with
    | none =>
      simp only [Rings.step, hr] at hs
      cases hs
    | some r =>
      simp only [Rings.step, hr] at hs
      cases hs
      have hring : ringAt { s.closeRing id r s.process with
          rings := s.rings.set id (some (r.close s.process).2.1) } = _ :=
        ringAt_set (by rw [hr]; rfl) rfl
      refine h.close h.clear (fun hclean hopen => ?_) rfl rfl (fun j hj => ?_) fun r' hr' => ?_
      · exact h.built hi hclean hr hopen
      · rw [hring, Function.update_of_ne hj]
      · rw [hring, Function.update_self] at hr'
        cases hr'
        exact ⟨rfl, hr⟩

end Whole

/-- Whoever holds a descriptor is open. -/
theorem mem_live_of_fdNotes (hi : s.Inv) (h : s.fdNotes id ≠ []) : id ∈ s.live := by
  rw [mem_live]
  constructor
  · rw [fdNotes] at h
    cases hr : s.ringAt id with
    | none => rw [hr] at h; exact absurd rfl h
    | some r => rfl
  · by_contra hc
    exact h (hi.forgotten id (by simpa using hc))

/-- The ring has its descriptors and mappings, all different. -/
structure Holds (s : Rings) (id : Nat) (r : RawRing) : Prop where
  ring : s.ringAt id = some r
  fds : r.openFDs.Nodup ∧ r.openFDs.length = 3 ∧ ∀ fd ∈ r.openFDs, (fd, id) ∈ s.process.fds
  maps : r.mapped.Nodup ∧ r.mapped.length = 3 ∧ ∀ m ∈ r.mapped, (m, id) ∈ s.process.maps

/-- What is open belongs to an open ring, and to one only. -/
structure Tidy (s : Rings) : Prop where
  fds : ∀ e ∈ s.process.fds, e.2 ∈ s.live
  maps : ∀ e ∈ s.process.maps, e.2 ∈ s.live
  apart : (names s.process.fds).Nodup ∧ s.process.Clear

/-- **Rings leave nothing behind**, over every sequence of creations, failed creations and calls
of `Close`.

* What is open belongs to one open ring; so when none is open, nothing is.
* As long as no ring is closed again while one of its addresses is in use, every open ring has
  three descriptors and three mappings of its own, and the first `Close` of a ring reports no
  error. -/
theorem rings_leave_nothing (as : List RingsAction) (s : Rings)
    (h : Run step (fun _ _ => True) start as s) :
    s.Tidy ∧ (s.live = [] → s.process = ⟨[], []⟩) ∧
      (s.Clean → (∀ id ∈ s.live, ∃ r, s.Holds id r) ∧
        ∀ c ∈ s.closes, c.again = false → c.errs = []) := by
  obtain ⟨hi, hw⟩ : s.Inv ∧ s.Whole := h.invariant (I := fun s => s.Inv ∧ s.Whole)
    ⟨Inv.start, Whole.start⟩ fun _ _ _ ⟨hi, hw⟩ _ hs => ⟨hi.step hs, hw.step hi hs⟩
  have htidy : s.Tidy := by
    refine ⟨fun e he => ?_, fun e he => ?_, hi.books.fds.nodup, hw.clear⟩
    · exact mem_live_of_fdNotes hi (List.ne_nil_of_mem (hi.books.fds.noted e.1 e.2 he))
    · exact mem_live_of_mapNotes (List.ne_nil_of_mem (hi.books.maps.noted e.1 e.2 he))
  refine ⟨htidy, fun hnone => ?_, fun hclean => ⟨fun id hid => ?_, hw.errs hclean⟩⟩
  · have hempty : ∀ {N : Type} {t : List (N × Nat)}, (∀ e ∈ t, e.2 ∈ s.live) → t = [] := by
      intro N t ht
      refine List.eq_nil_iff_forall_not_mem.mpr fun e he => ?_
      have := ht e he
      rw [hnone] at this
      cases this
    calc s.process = ⟨s.process.fds, s.process.maps⟩ := rfl
      _ = ⟨[], []⟩ := by rw [hempty htidy.fds, hempty htidy.maps]
  · obtain ⟨hsome, hopen⟩ := mem_live.mp hid
    obtain ⟨r, hr⟩ := Option.isSome_iff_exists.mp hsome
    have hfds : s.fdNotes id = r.openFDs := by rw [fdNotes, hr]; rfl
    have hmaps : s.mapNotes id = r.mapped := by rw [mapNotes, hopen, hr]; rfl
    obtain ⟨hnd, hlen⟩ := hw.fds id r hr hopen
    obtain ⟨hnd', hlen'⟩ := hw.maps id r hr
    exact ⟨r, hr, ⟨hnd, hlen, fun fd hfd => hi.books.fds.backed id fd (hfds ▸ hfd)⟩,
      hnd', hlen', fun m hm => (hi.books.current hclean).backed id m (hmaps ▸ hm)⟩

/-- A creation that fails half-way, two rings, and the first of them closed. -/
theorem rings_leave_nothing_sample :
    ∃ s : Rings, Run step (fun _ _ => True) start
        [.new { sampleReplies 3 0x10000 with mmapSQEs := .error 12 },
          .new (sampleReplies 3 0x10000), .newSQE128 (sampleReplies 6 0x20000), .close 1] s ∧
      s.live = [2] ∧ s.process.fds.length = 3 ∧ s.process.maps.length = 3 ∧ s.Tidy ∧
      (∃ r, s.Holds 2 r) ∧ ∀ c ∈ s.closes, c.errs = [] := by
  have hex : ∃ s : Rings, Run step (fun _ _ => True) start
      [.new { sampleReplies 3 0x10000 with mmapSQEs := .error 12 },
        .new (sampleReplies 3 0x10000), .newSQE128 (sampleReplies 6 0x20000), .close 1] s ∧
      (s.live = [2] ∧ s.process.fds.length = 3 ∧ s.process.maps.length = 3 ∧
        ∀ c ∈ s.closes, ¬c.Stale ∧ c.again = false) :=
    exists_run_of_exec (fun s : Rings => s.live = [2] ∧ s.process.fds.length = 3 ∧
      s.process.maps.length = 3 ∧ ∀ c ∈ s.closes, ¬c.Stale ∧ c.again = false)
      (by decide +kernel)
  obtain ⟨s, hrun, hlive, hfds, hmaps, hcalls⟩ := hex
  obtain ⟨htidy, -, hclean⟩ := rings_leave_nothing _ s hrun
  obtain ⟨hholds, herrs⟩ := hclean fun c hc => (hcalls c hc).1
  exact ⟨s, hrun, hlive, hfds, hmaps, htidy, hholds 2 (by rw [hlive]; exact List.mem_cons_self),
    fun c hc => herrs c hc (hcalls c hc).2⟩

end Rings
end Ublk
