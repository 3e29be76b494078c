import UblkProof.AnyBackend

/-! # No data race between the worker and the kernel

Buffers, descriptors and completion slots are plain memory that both sides read and write
without a lock.  What keeps them apart is who holds a tag: the worker touches the descriptor and
the buffer of the tag in its hand, the kernel those of the tags in flight, and a tag is at one
place only.  In the completion queue it is the distance of head and tail.

`Touches` lists the accesses that are not themselves synchronisation.  Two accesses of the two
sides never meet (`RaceFree.apart`), and therefore it does not matter which comes first
(`RaceFree.commute`).
-/
namespace Ublk
open ByteMemory Runs CircularBuffer

/-! ## Accesses -/

/-- A cell of the memory that is shared. -/
inductive Loc
  | byte (addr : Nat)
  | desc (tag : Nat)
  | cqe (slot : Nat)

/-- The command in flight that an action of the kernel is about. -/
def Action.command? : Action → Option Nat
  | .issue i _ | .respond i | .post i _ _ => some i
  | _ => none

section
variable {β : Type}

/-- The cells a step reads or writes.  `handleIO` gets its descriptor by reference and hands
(part of) the tag's buffer to the backend; the two loads from a completion come before
`SeenCQE`; the kernel copies a payload in before it posts, and a full read out when it ends it. -/
inductive Touches (w : Worker) (s : World β) : Action → Loc → Prop
  | getDesc {tag} : s.pc = .handle tag → Touches w s .work (.desc tag.toNat)
  | buffer {tag a} : s.pc = .handle tag → w.bufAddr tag.toNat ≤ a →
      a < w.bufAddr tag.toNat + w.bufSize → Touches w s .work (.byte a)
  | completion {idx} : s.pc.slot? = some idx → Touches w s .work (.cqe idx)
  | issue {i c req} : s.inflight[i]? = some c →
      Touches w s (.issue i req) (.desc c.io.tag.toNat)
  | payload {i c req a} : s.inflight[i]? = some c → req.desc.op = opWrite →
      c.io.addr.toNat ≤ a → a < c.io.addr.toNat + req.payload.length →
      Touches w s (.issue i req) (.byte a)
  | respond {i c id} : s.inflight[i]? = some c → s.serving c.io.tag.toNat = some id →
      Touches w s (.respond i) (.desc c.io.tag.toNat)
  | data {i c id a} : s.inflight[i]? = some c → s.serving c.io.tag.toNat = some id →
      (s.descs c.io.tag.toNat).op = opRead →
      c.io.result.toInt = ((s.descs c.io.tag.toNat).length : Int) →
      c.io.addr.toNat ≤ a → a < c.io.addr.toNat + (s.descs c.io.tag.toNat).length →
      Touches w s (.respond i) (.byte a)
  | post {i c res flags} : s.inflight[i]? = some c →
      Touches w s (.post i res flags) (.cqe (s.ring.cqTail &&& s.ring.cqMask).toNat)

/-- The cell belongs to a tag: its descriptor, or a byte of its buffer. -/
def Loc.Of (w : Worker) (t : Nat) : Loc → Prop
  | .byte a => w.bufAddr t ≤ a ∧ a < w.bufAddr t + w.bufSize
  | .desc t' => t' = t
  | .cqe _ => False

/-- The cell exists: in the pool, in the mapped descriptors, in the mapped queue. -/
def Loc.Mapped (w : Worker) (s : World β) : Loc → Prop
  | .byte a => w.pool ≤ a ∧ a < w.pool + w.depth.toNat * w.bufSize
  | .desc t => t < w.depth.toNat
  | .cqe slot => slot < s.ring.cqEntries.toNat

/-- The same state, but for the order of what was logged. -/
structure Alike (s t : World β) : Prop where
  state : { s with log := t.log } = t
  log : s.log.Perm t.log

/-- What the worker and a kernel that sends requests meeting `Request.Fits` do to shared
memory in a state. -/
structure RaceFree (w : Worker) (bk : Backend β) (s : World β) : Prop where
  mapped : ∀ a loc, Sends (Request.Fits w.bufSize) s.toCore a → Touches w s a loc →
    loc.Mapped w s
  apart : ∀ a loc, Sends (Request.Fits w.bufSize) s.toCore a → a.ofKernel →
    Touches w s .work loc → ¬ Touches w s a loc
  commands : ∀ a a' t, Sends (Request.Fits w.bufSize) s.toCore a →
    Sends (Request.Fits w.bufSize) s.toCore a' → a.command? ≠ a'.command? →
    ∀ loc : Loc, loc.Of w t → Touches w s a loc → ¬ Touches w s a' loc
  commute : ∀ a loc s₁ s₂, Sends (Request.Fits w.bufSize) s.toCore a → a.ofKernel →
    Touches w s .work loc → w.step bk s .work = some s₁ → w.step bk s a = some s₂ →
    ∃ t₁ t₂, Sends (Request.Fits w.bufSize) s₁.toCore a ∧ w.step bk s₁ a = some t₁ ∧
      w.step bk s₂ .work = some t₂ ∧ Alike t₁ t₂

/-! ## Cells of tags -/

variable {w : Worker} {bk : Backend β} {f f' : Flow β} {a : Action}

/-- Buffers are apart. -/
theorem bufAddr_apart (w : Worker) {t t' : Nat} (hne : t ≠ t') :
    w.bufAddr t + w.bufSize ≤ w.bufAddr t' ∨ w.bufAddr t' + w.bufSize ≤ w.bufAddr t := by
  unfold Worker.bufAddr
  rcases Nat.lt_or_gt_of_ne hne with hlt | hlt
  · have : (t + 1) * w.bufSize ≤ t' * w.bufSize := Nat.mul_le_mul_right _ hlt
    rw [Nat.succ_mul] at this
    exact .inl (by omega)
  · have : (t' + 1) * w.bufSize ≤ t * w.bufSize := Nat.mul_le_mul_right _ hlt
    rw [Nat.succ_mul] at this
    exact .inr (by omega)

/-- A cell belongs to one tag. -/
theorem Loc.Of.unique {loc : Loc} {t t' : Nat} (h : loc.Of w t) (h' : loc.Of w t') : t = t' := by
  cases loc with
  | byte a =>
    by_contra hne
    have hapart := bufAddr_apart w hne
    obtain ⟨h1, h2⟩ := h
    obtain ⟨h3, h4⟩ := h'
    omega
  | desc t'' => exact Eq.trans (Eq.symm h) h'
  | cqe slot => exact absurd h id

theorem Loc.Of.mapped {loc : Loc} {t : Nat} (h : loc.Of w t) (ht : t < w.depth.toNat)
    (s : World β) : loc.Mapped w s := by
  cases loc with
  | byte a =>
    obtain ⟨h1, h2⟩ := h
    have hle : (t + 1) * w.bufSize ≤ w.depth.toNat * w.bufSize := Nat.mul_le_mul_right _ ht
    rw [Nat.succ_mul] at hle
    unfold Worker.bufAddr at h1 h2
    exact ⟨by omega, by omega⟩
  | desc t' => exact h ▸ ht
  | cqe slot => exact absurd h id

/-! ## Full reads fit -/

/-- A full read on its way back to the kernel is no longer than the buffer. -/
def ReadsFit (w : Worker) (f : Flow β) : Prop :=
  ∀ t result, (t, .resting result) ∈ f.places w → (f.serving t).isSome →
    (f.descs t).op = opRead → result.toInt = ((f.descs t).length : Int) →
    (f.descs t).length ≤ w.bufSize

/-- One tag moves, to a place where it fits; the others keep their data. -/
theorem ReadsFit.move (h : ReadsFit w f) (hi : f.Inv w) {t : Nat} {p p' : Place}
    {rest : Multiset (Nat × Place)} (hold : f.places w = (t, p) ::ₘ rest)
    (hnew : f'.places w = (t, p') ::ₘ rest)
    (hserving : ∀ u, u ≠ t → f'.serving u = f.serving u)
    (hdescs : ∀ u, u ≠ t → f'.descs u = f.descs u)
    (hself : ∀ result, p' = .resting result → (f'.serving t).isSome → (f'.descs t).op = opRead →
      result.toInt = (f'.descs t).length → (f'.descs t).length ≤ w.bufSize) : ReadsFit w f' := by
  intro u result hu
  rw [hnew] at hu
  rcases Multiset.mem_cons.mp hu with he | he
  · obtain ⟨rfl, hp⟩ := Prod.mk.inj he
    exact hself result hp.symm
  · have hne : u ≠ t := hi.fst_ne hold he
    rw [hserving u hne, hdescs u hne]
    exact h u result (by rw [hold]; exact Multiset.mem_cons_of_mem he)

theorem ReadsFit.step (h : ReadsFit w f) (hi : f.Inv w) (hs : Flow.Step w bk f a f') :
    ReadsFit w f' := by
  rcases hi.step_cases hs with hr | ⟨hplaces, hsame⟩
  · cases hr with
    | @issue i c req hc =>
      obtain ⟨htag, -, -⟩ := hi.command hc
      refine h.move hi (Flow.places_inflight hc) (Flow.places_issue hc req) (fun u hu => ?_)
        (fun u hu => ?_) (fun _ hp => by cases hp)
      · exact Function.update_of_ne (htag.symm ▸ hu) _ _
      · exact Function.update_of_ne (htag.symm ▸ hu) _ _
    | @serve tag out hpc hlt hout =>
      refine h.move hi (Flow.places_hand (e := (tag.toNat, .pending)) (by rw [hpc]; rfl))
        (Flow.places_hand rfl) (fun _ _ => rfl) (fun _ _ => rfl) ?_
      rintro result ⟨⟩ - hop hfull
      exact handleIO_full_read hop hout hfull
    | @respond i c id hc hid =>
      obtain ⟨htag, -, -⟩ := hi.command hc
      have hplaces := Flow.places_inflight (w := w) hc
      refine h.move hi hplaces hplaces (fun u hu => ?_) (fun _ _ => rfl) ?_
      · exact Function.update_of_ne (htag.symm ▸ hu) _ _
      · intro _ _ hserving
        have hnone : (f.toCore.respond c id).serving c.tag = none := by
          show Function.update f.serving c.io.tag.toNat none c.tag = none
          rw [htag, Function.update_self]
        rw [hnone] at hserving
        cases hserving
    | @post i c res flags hc =>
      refine h.move hi (Flow.places_inflight hc) (Flow.places_post res flags) (fun _ _ => rfl)
        (fun _ _ => rfl) ?_
      intro result hp
      have hp : (if res < 0 then Place.gone else .pending) = .resting result := hp
      split_ifs at hp
  · intro t result ht
    rw [hsame.serving, hsame.descs]
    exact h t result (hplaces ▸ ht)

/-- The command that ends a request carries its result back. -/
theorem ReadsFit.command (h : ReadsFit w f) (hi : f.Inv w) {i : Nat} {c : Command}
    (hc : f.inflight[i]? = some c) (hreq : c.request = none) {id : Nat}
    (hid : f.serving c.io.tag.toNat = some id) (hop : (f.descs c.io.tag.toNat).op = opRead)
    (hfull : c.io.result.toInt = ((f.descs c.io.tag.toNat).length : Int)) :
    (f.descs c.io.tag.toNat).length ≤ w.bufSize := by
  obtain ⟨htag, -, -⟩ := hi.command hc
  rw [htag] at hid hop hfull ⊢
  refine h c.tag c.io.result ?_ (by rw [hid]; rfl) hop hfull
  rw [Flow.places_inflight hc, Command.place, hreq]
  exact Multiset.mem_cons_self _ _

theorem ReadsFit.boot (w : Worker) (b : Worker.Boot β) : ReadsFit w (Flow.boot b) := by
  intro t result _ hserving
  exact absurd hserving Bool.false_ne_true

/-! ## Who touches what -/

/-- A tag in flight is not in the worker's hand. -/
theorem inflight_ne_hand (hi : f.Inv w) {tag : UInt16} (hpc : f.pc = .handle tag) {i : Nat}
    {c : Command} (hc : f.inflight[i]? = some c) : tag.toNat ≠ c.tag := by
  have hhand : (tag.toNat, Place.pending) ∈ f.placesBut w i := by
    refine Multiset.mem_add.mpr (.inr ?_)
    rw [hpc]
    exact List.mem_singleton.mpr rfl
  exact hi.fst_ne (Flow.places_inflight hc) hhand

/-- Two commands in flight are about two tags. -/
theorem inflight_ne_inflight (hi : f.Inv w) {i j : Nat} {c c' : Command}
    (hc : f.inflight[i]? = some c) (hc' : f.inflight[j]? = some c') (hne : j ≠ i) :
    c'.tag ≠ c.tag := by
  have hmem : c'.place ∈ f.placesBut w i := by
    refine Multiset.mem_add.mpr (.inl (Multiset.mem_add.mpr (.inl ?_)))
    refine Multiset.mem_add.mpr (.inr ?_)
    exact List.mem_map_of_mem (List.mem_eraseIdx_iff_getElem?.mpr ⟨j, hne, hc'⟩)
  exact hi.fst_ne (Flow.places_inflight hc) hmem

section
variable {k kc : Nat} {s s₁ s₂ : World β} {loc : Loc}

/-- The worker touches what belongs to the tag in its hand, or the completion it points to. -/
theorem Touches.work_cases (hm : Models k kc s f) (ht : Touches w s .work loc) :
    (∃ tag, f.pc = .handle tag ∧ loc.Of w tag.toNat) ∨
      ∃ idx, f.pc.slot? = some idx ∧ loc = .cqe idx := by
  have hpcs : s.pc = f.pc := congrArg Core.pc hm.core
  cases ht with
  | getDesc hpc => exact .inl ⟨_, hpcs ▸ hpc, rfl⟩
  | buffer hpc h1 h2 => exact .inl ⟨_, hpcs ▸ hpc, h1, h2⟩
  | completion hslot => exact .inr ⟨_, hpcs ▸ hslot, rfl⟩

/-- The kernel touches what belongs to the tag of the command it acts on, or the slot behind
the unread completions. -/
theorem Touches.kernel_cases (hm : Models k kc s f) (hi : f.Inv w) (hr : ReadsFit w f)
    (hok : Sends (Request.Fits w.bufSize) s.toCore a) (hk : a.ofKernel) (ht : Touches w s a loc) :
    ∃ i c, a.command? = some i ∧ f.inflight[i]? = some c ∧
      (loc.Of w c.tag ∨ loc = .cqe (s.ring.cqTail &&& s.ring.cqMask).toNat) := by
  rw [hm.core] at hok
  have hin : s.inflight = f.inflight := congrArg Core.inflight hm.core
  have hdescs : s.descs = f.descs := congrArg Core.descs hm.core
  have hserving : s.serving = f.serving := congrArg Core.serving hm.core
  cases ht with
  | getDesc _ | buffer _ _ _ | completion _ => cases hk
  | @issue i c req hc =>
    rw [hin] at hc
    exact ⟨i, c, rfl, hc, .inl (hi.command hc).1⟩
  | @payload i c req a hc hop h1 h2 =>
    rw [hin] at hc
    obtain ⟨-, haddr, -⟩ := hi.command hc
    obtain ⟨hlen, hle⟩ := hok hop
    rw [haddr] at h1 h2
    exact ⟨i, c, rfl, hc, .inl ⟨h1, by omega⟩⟩
  | @respond i c id hc _ =>
    rw [hin] at hc
    exact ⟨i, c, rfl, hc, .inl (hi.command hc).1⟩
  | @data i c id a hc hid hop hfull h1 h2 =>
    rw [hin] at hc
    rw [hdescs] at hop hfull h2
    rw [hserving] at hid
    have hle := hr.command hi hc (hok c hc) hid hop hfull
    obtain ⟨-, haddr, -⟩ := hi.command hc
    rw [haddr] at h1 h2
    exact ⟨i, c, rfl, hc, .inl ⟨h1, by omega⟩⟩
  | @post i c res flags hc =>
    rw [hin] at hc
    exact ⟨i, c, rfl, hc, .inr rfl⟩

/-- The slot the worker reads is not the one the kernel fills: something is unread, and there is
room for one more. -/
theorem slot_ne_tail (hm : Models k kc s f) (hi : f.Inv w) (hkc : w.depth.toNat ≤ 2 ^ kc)
    {idx : Nat} (hslot : f.pc.slot? = some idx) {i : Nat} {c : Command}
    (hc : f.inflight[i]? = some c) : idx ≠ (s.ring.cqTail &&& s.ring.cqMask).toNat := by
  obtain ⟨head, hrep, hidx⟩ := hm.cq
  have hroom : f.unread.length < 2 ^ kc := by
    have := hi.card_le
    have := (List.getElem?_eq_some_iff.mp hc).1
    omega
  have hsome : 0 < f.unread.length := by
    rw [List.length_pos_iff]
    have hloc := hi.loc
    revert hslot hloc
    cases f.pc with
    | took origin idx => exact fun _ h => h.2
    | copied origin idx tag =>
      rintro - ⟨-, c, cs, hun, -⟩
      exact hun ▸ List.cons_ne_nil _ _
    | _ => exact fun h => by cases h
  rw [hidx idx hslot, hrep.cqTail, and_mask_ofNat hrep.le hrep.mask]
  intro heq
  have := slot_inj (a := head) (Nat.le_refl _) (by omega) (Nat.le_add_right _ _) (by omega) heq
  omega

theorem slot_lt (hm : Models k kc s f) {idx : Nat} (hslot : f.pc.slot? = some idx) :
    idx < s.ring.cqEntries.toNat := by
  obtain ⟨head, hrep, hidx⟩ := hm.cq
  rw [hidx idx hslot, hrep.entries]
  exact Nat.mod_lt _ (Nat.two_pow_pos _)

theorem tail_lt (hm : Models k kc s f) :
    (s.ring.cqTail &&& s.ring.cqMask).toNat < s.ring.cqEntries.toNat := by
  obtain ⟨head, hrep, -⟩ := hm.cq
  rw [hrep.cqTail, and_mask_ofNat hrep.le hrep.mask, hrep.entries]
  exact Nat.mod_lt _ (Nat.two_pow_pos _)

/-- **The two sides never meet.** -/
theorem touches_apart (hm : Models k kc s f) (hi : f.Inv w) (hr : ReadsFit w f)
    (hkc : w.depth.toNat ≤ 2 ^ kc) (hok : Sends (Request.Fits w.bufSize) s.toCore a)
    (hk : a.ofKernel) (hw : Touches w s .work loc) : ¬ Touches w s a loc := by
  intro ht
  obtain ⟨i, c, -, hc, hof⟩ := ht.kernel_cases hm hi hr hok hk
  rcases hw.work_cases hm with ⟨tag, hpc, htag⟩ | ⟨idx, hslot, rfl⟩
  · rcases hof with hof | rfl
    · exact inflight_ne_hand hi hpc hc (htag.unique hof)
    · exact htag
  · rcases hof with hof | heq
    · exact hof
    · exact slot_ne_tail hm hi hkc hslot hc (Loc.cqe.inj heq)

/-- An action that touches anything is the worker's or the kernel's. -/
theorem Touches.eq_work (ht : Touches w s a loc) (hk : ¬ a.ofKernel) : a = .work := by
  cases ht with
  | getDesc _ | buffer _ _ _ | completion _ => rfl
  | issue _ | payload _ _ _ _ | respond _ _ | data _ _ _ _ _ _ | post _ => exact absurd rfl hk

theorem touches_mapped (hm : Models k kc s f) (hi : f.Inv w) (hr : ReadsFit w f)
    (hok : Sends (Request.Fits w.bufSize) s.toCore a) (ht : Touches w s a loc) :
    loc.Mapped w s := by
  by_cases hk : a.ofKernel
  · obtain ⟨i, c, -, hc, hof | rfl⟩ := ht.kernel_cases hm hi hr hok hk
    · exact hof.mapped (hi.command hc).2.2 s
    · exact tail_lt hm
  · obtain rfl := ht.eq_work hk
    rcases ht.work_cases hm with ⟨tag, hpc, htag⟩ | ⟨idx, hslot, rfl⟩
    · refine htag.mapped (hi.hand_lt ?_) s
      rw [hpc]
      exact List.mem_singleton.mpr rfl
    · exact slot_lt hm hslot

/-- Two commands in flight are not about the same cell of a tag. -/
theorem commands_apart {a' : Action} (hm : Models k kc s f) (hi : f.Inv w) (hr : ReadsFit w f)
    (hkc : w.depth.toNat ≤ 2 ^ kc) (hok : Sends (Request.Fits w.bufSize) s.toCore a)
    (hok' : Sends (Request.Fits w.bufSize) s.toCore a') (hne : a.command? ≠ a'.command?)
    {t : Nat} (hof : loc.Of w t) (ht : Touches w s a loc) : ¬ Touches w s a' loc := by
  intro ht'
  by_cases hk : a.ofKernel
  · by_cases hk' : a'.ofKernel
    · obtain ⟨i, c, hai, hc, h | rfl⟩ := ht.kernel_cases hm hi hr hok hk
      · obtain ⟨j, c', haj, hc', h' | rfl⟩ := ht'.kernel_cases hm hi hr hok' hk'
        · refine inflight_ne_inflight hi hc hc' (fun hji => hne ?_) (h'.unique h)
          rw [hai, haj, hji]
        · exact hof
      · exact hof
    · obtain rfl := ht'.eq_work hk'
      exact touches_apart hm hi hr hkc hok hk ht' ht
  · obtain rfl := ht.eq_work hk
    by_cases hk' : a'.ofKernel
    · exact touches_apart hm hi hr hkc hok' hk' ht ht'
    · obtain rfl := ht'.eq_work hk'
      exact hne rfl

/-! ## Either order -/

theorem append_two_perm {γ : Type} (l : List γ) (x y : γ) :
    (l ++ [x] ++ [y]).Perm (l ++ [y] ++ [x]) := by
  rw [List.append_assoc, List.append_assoc]
  exact (List.Perm.swap y x []).append_left l

/-- The kernel's steps do not look at the worker's position. -/
theorem step_kernel_goto (hk : a.ofKernel) (pc : PC) :
    w.step bk { s with pc := pc } a = (w.step bk s a).map fun s' => { s' with pc := pc } := by
  cases a with
  | issue i req =>
    simp only [Worker.step, Option.map_map]
    rfl
  | respond i =>
    simp only [Worker.step, Option.map_bind, Option.map_map, Function.comp_def]
    rfl
  | post i res flags =>
    simp only [Worker.step, Option.map_map]
    rfl
  | _ => cases hk

/-- **The loads from a completion.**  A post meanwhile is to another slot. -/
theorem commute_load (next : CQE → PC) (hm : Models k kc s f) (hi : f.Inv w)
    (hkc : w.depth.toNat ≤ 2 ^ kc) (hk : a.ofKernel) {idx : Nat} (hslot : f.pc.slot? = some idx)
    (hwork : ∀ s' : World β, s'.pc = s.pc →
      w.step bk s' .work = some { s' with pc := next (s'.ring.cqes idx) })
    (h₁ : w.step bk s .work = some s₁) (h₂ : w.step bk s a = some s₂) :
    ∃ t₁ t₂, w.step bk s₁ a = some t₁ ∧ w.step bk s₂ .work = some t₂ ∧ Alike t₁ t₂ := by
  have hin : s.inflight = f.inflight := congrArg Core.inflight hm.core
  have hkeeps : s₂.pc = s.pc ∧ s₂.ring.cqes idx = s.ring.cqes idx := by
    cases a with
    | issue i req =>
      obtain ⟨c, -, rfl⟩ := Option.map_eq_some_iff.mp h₂
      exact ⟨rfl, rfl⟩
    | respond i =>
      obtain ⟨c, -, h₂⟩ := Option.bind_eq_some_iff.mp h₂
      obtain ⟨id, -, rfl⟩ := Option.map_eq_some_iff.mp h₂
      exact ⟨rfl, rfl⟩
    | post i res flags =>
      obtain ⟨c, hc, rfl⟩ := Option.map_eq_some_iff.mp h₂
      have hne := slot_ne_tail hm hi hkc hslot (hin ▸ hc)
      exact ⟨rfl, Function.update_of_ne hne _ _⟩
    | _ => cases hk
  obtain ⟨hpc, hcqe⟩ := hkeeps
  rw [hwork s rfl] at h₁
  cases h₁
  refine ⟨{ s₂ with pc := next (s.ring.cqes idx) }, _, ?_, hwork s₂ hpc, ?_, List.Perm.refl _⟩
  · rw [step_kernel_goto hk, h₂]
    rfl
  · rw [hcqe]

/-- What `handleIO` finds for its tag does not depend on the cells of another. -/
theorem step_serve {tag : UInt16} (hpc : s.pc = .handle tag) (hlt : tag < w.depth)
    {out : Handled β} (hout : handleIO bk w.bufSize (s.descs tag.toNat)
      (readBytes s.mem (w.bufAddr tag.toNat) w.bufSize) s.backend = some out) :
    w.step bk s .work = some { s with toCore := w.served s.toCore tag out } := by
  simp only [Worker.step, Worker.work, hpc, Worker.serve, if_pos hlt, hout]

section Serve
variable {tag : UInt16} {out : Handled β} {i : Nat} {c : Command}

/-- A request is issued on another tag: another descriptor, another buffer. -/
theorem commute_issue (hpc : s.pc = .handle tag) (hlt : tag < w.depth)
    (hout : handleIO bk w.bufSize (s.descs tag.toNat)
      (readBytes s.mem (w.bufAddr tag.toNat) w.bufSize) s.backend = some out)
    (hc : s.inflight[i]? = some c) (haddr : c.io.addr.toNat = w.bufAddr c.io.tag.toNat)
    (hne : tag.toNat ≠ c.io.tag.toNat) {req : Request} (hreq : req.Fits w.bufSize) :
    ∃ t₁ t₂, w.step bk { s with toCore := w.served s.toCore tag out } (.issue i req) = some t₁ ∧
      w.step bk { s with toCore := s.toCore.issue i c req } .work = some t₂ ∧ Alike t₁ t₂ := by
  have hlen := handleIO_length (length_readBytes _ _ _) hout
  have hapart := bufAddr_apart w hne
  have hpay : req.desc.op = opWrite → req.payload.length ≤ w.bufSize :=
    fun hop => (hreq hop).1 ▸ (hreq hop).2
  have hread : readBytes (s.toCore.issue i c req).mem (w.bufAddr tag.toNat) w.bufSize =
      readBytes s.mem (w.bufAddr tag.toNat) w.bufSize := by
    show readBytes (if req.desc.op = opWrite then _ else _) _ _ = _
    split_ifs with hop
    · have := hpay hop
      exact readBytes_writeBytes_disjoint _ (by rw [haddr]; omega)
    · rfl
  have hdesc : (s.toCore.issue i c req).descs tag.toNat = s.descs tag.toNat :=
    Function.update_of_ne hne _ _
  have hserving : (s.toCore.issue i c req).serving tag.toNat = s.serving tag.toNat :=
    Function.update_of_ne hne _ _
  have hmem : ((w.served s.toCore tag out).issue i c req).mem =
      (w.served (s.toCore.issue i c req) tag out).mem := by
    show (if req.desc.op = opWrite then writeBytes (writeBytes s.mem _ _) _ _ else _) =
      writeBytes (if req.desc.op = opWrite then _ else _) _ _
    split_ifs with hop
    · have := hpay hop
      exact writeBytes_comm _ (by rw [haddr]; omega)
    · rfl
  refine ⟨{ s with toCore := (w.served s.toCore tag out).issue i c req }, _, ?_,
    step_serve (s := { s with toCore := s.toCore.issue i c req }) hpc hlt
      (by rw [hread, hdesc]; exact hout), ?_, ?_⟩
  · show (s.inflight[i]?).map _ = _
    rw [hc]
    rfl
  · exact congrArg (fun m => ({ s with
      toCore := { w.served (s.toCore.issue i c req) tag out with mem := m } } : World β)) hmem
  · show (s.log ++ [_] ++ [_]).Perm (s.log ++ [_] ++ [_])
    rw [hserving, hdesc]
    exact append_two_perm _ _ _

/-- A request of another tag ends: what is copied out is in another buffer. -/
theorem commute_respond (hpc : s.pc = .handle tag) (hlt : tag < w.depth)
    (hout : handleIO bk w.bufSize (s.descs tag.toNat)
      (readBytes s.mem (w.bufAddr tag.toNat) w.bufSize) s.backend = some out)
    (hc : s.inflight[i]? = some c) (haddr : c.io.addr.toNat = w.bufAddr c.io.tag.toNat)
    (hne : tag.toNat ≠ c.io.tag.toNat) {id : Nat} (hid : s.serving c.io.tag.toNat = some id)
    (hle : (s.descs c.io.tag.toNat).op = opRead →
      c.io.result.toInt = ((s.descs c.io.tag.toNat).length : Int) →
      (s.descs c.io.tag.toNat).length ≤ w.bufSize) :
    ∃ t₁ t₂, w.step bk { s with toCore := w.served s.toCore tag out } (.respond i) = some t₁ ∧
      w.step bk { s with toCore := s.toCore.respond c id } .work = some t₂ ∧ Alike t₁ t₂ := by
  have hlen := handleIO_length (length_readBytes _ _ _) hout
  have hapart := bufAddr_apart w hne
  have hserving : (s.toCore.respond c id).serving tag.toNat = s.serving tag.toNat :=
    Function.update_of_ne hne _ _
  have hresp : (w.served s.toCore tag out).response c (s.descs c.io.tag.toNat) =
      s.toCore.response c (s.descs c.io.tag.toNat) := by
    refine congrArg (Response.mk _) ?_
    split_ifs with hfull
    · have := hle hfull.1 hfull.2
      exact readBytes_writeBytes_disjoint _ (by rw [haddr]; omega)
    · rfl
  refine ⟨{ s with toCore := (w.served s.toCore tag out).respond c id }, _, ?_,
    step_serve (s := { s with toCore := s.toCore.respond c id }) hpc hlt hout, rfl, ?_⟩
  · show (s.inflight[i]?).bind _ = _
    rw [hc]
    show (s.serving c.io.tag.toNat).map _ = _
    rw [hid]
    rfl
  · show (s.log ++ [_] ++ [Event.responded id ((w.served s.toCore tag out).response c
      (s.descs c.io.tag.toNat))]).Perm (s.log ++ [_] ++ [_])
    rw [hresp, hserving]
    exact append_two_perm _ _ _

/-- **`handleIO`.**  The kernel meanwhile acts for another tag. -/
theorem commute_serve (hm : Models k kc s f) (hi : f.Inv w) (hr : ReadsFit w f)
    (hok : Sends (Request.Fits w.bufSize) s.toCore a) (hk : a.ofKernel) (hpc : f.pc = .handle tag)
    (h₁ : w.step bk s .work = some s₁) (h₂ : w.step bk s a = some s₂) :
    ∃ t₁ t₂, w.step bk s₁ a = some t₁ ∧ w.step bk s₂ .work = some t₂ ∧ Alike t₁ t₂ := by
  have hpcs : s.pc = .handle tag := (congrArg Core.pc hm.core).trans hpc
  have hin : s.inflight = f.inflight := congrArg Core.inflight hm.core
  have hlt : tag < w.depth := by
    refine UInt16.lt_iff_toNat_lt.mpr (hi.hand_lt ?_)
    rw [hpc]
    exact List.mem_singleton.mpr rfl
  have hcommand : ∀ {i : Nat} {c : Command}, s.inflight[i]? = some c →
      c.io.addr.toNat = w.bufAddr c.io.tag.toNat ∧ tag.toNat ≠ c.io.tag.toNat := by
    intro i c hc
    rw [hin] at hc
    obtain ⟨htag, haddr, -⟩ := hi.command hc
    exact ⟨by rw [htag, haddr], htag.symm ▸ inflight_ne_hand hi hpc hc⟩
  obtain ⟨out, hout⟩ := handleIO_total bk (s.descs tag.toNat)
    (length_readBytes s.mem (w.bufAddr tag.toNat) w.bufSize) s.backend
  rw [step_serve hpcs hlt hout] at h₁
  cases h₁
  cases a with
  | issue i req =>
    obtain ⟨c, hc, rfl⟩ := Option.map_eq_some_iff.mp h₂
    obtain ⟨haddr, hne⟩ := hcommand hc
    exact commute_issue hpcs hlt hout hc haddr hne hok
  | respond i =>
    obtain ⟨c, hc, h₂⟩ := Option.bind_eq_some_iff.mp h₂
    obtain ⟨id, hid, rfl⟩ := Option.map_eq_some_iff.mp h₂
    obtain ⟨haddr, hne⟩ := hcommand hc
    refine commute_respond hpcs hlt hout hc haddr hne hid ?_
    have hreq := hok c hc
    rw [show s.serving = f.serving from congrArg Core.serving hm.core] at hid
    rw [show s.descs = f.descs from congrArg Core.descs hm.core]
    exact hr.command hi (hin ▸ hc) hreq hid
  | post i res flags =>
    obtain ⟨c, hc, rfl⟩ := Option.map_eq_some_iff.mp h₂
    refine ⟨{ s with
      toCore := (w.served s.toCore tag out).post i (c.cqe res flags)
      ring := s.ring.post (c.cqe res flags) }, _, ?_,
      step_serve (s := { s with
        toCore := s.toCore.post i (c.cqe res flags)
        ring := s.ring.post (c.cqe res flags) }) hpcs hlt hout, rfl, append_two_perm _ _ _⟩
    show (s.inflight[i]?).map _ = _
    rw [show s.inflight[i]? = some c from hc]
    rfl
  | _ => cases hk

end Serve

/-- A step of the worker that touches shared memory leaves the commands in flight. -/
theorem Touches.inflight_eq (ht : Touches w s .work loc) (h₁ : w.step bk s .work = some s₁) :
    s₁.inflight = s.inflight := by
  have h₁ : w.work bk s = some s₁ := h₁
  have hhandle : ∀ tag, s.pc = .handle tag → s₁.inflight = s.inflight := by
    intro tag hpc
    simp only [Worker.work, hpc, Option.some_inj] at h₁
    rw [← h₁]
    show (w.serve bk s.toCore tag).inflight = _
    unfold Worker.serve
    split_ifs
    · split <;> rfl
    · rfl
  cases ht with
  | getDesc hpc => exact hhandle _ hpc
  | buffer hpc _ _ => exact hhandle _ hpc
  | completion hslot =>
    revert h₁ hslot
    unfold Worker.work
    cases s.pc with
    | took _ _ | copied _ _ _ =>
      intro h₁ _
      cases h₁
      rfl
    | _ => exact fun _ h => by cases h

/-- **It does not matter who comes first.** -/
theorem touches_commute (hm : Models k kc s f) (hi : f.Inv w) (hr : ReadsFit w f)
    (hkc : w.depth.toNat ≤ 2 ^ kc) (hok : Sends (Request.Fits w.bufSize) s.toCore a)
    (hk : a.ofKernel) (ht : Touches w s .work loc) (h₁ : w.step bk s .work = some s₁)
    (h₂ : w.step bk s a = some s₂) :
    ∃ t₁ t₂, w.step bk s₁ a = some t₁ ∧ w.step bk s₂ .work = some t₂ ∧ Alike t₁ t₂ := by
  have hpcs : s.pc = f.pc := congrArg Core.pc hm.core
  rcases ht.work_cases hm with ⟨tag, hpc, -⟩ | ⟨idx, hslot, -⟩
  · exact commute_serve hm hi hr hok hk hpc h₁ h₂
  · cases hpc : f.pc with
    | took origin idx =>
      refine commute_load (fun c => .copied origin idx c.userData.toUInt16) hm hi hkc hk
        (by rw [hpc]; rfl) (fun s' hs' => ?_) h₁ h₂
      simp only [Worker.step, Worker.work, hs', hpcs, hpc]
    | copied origin idx tag =>
      refine commute_load (fun c => .seen origin tag c.res) hm hi hkc hk
        (by rw [hpc]; rfl) (fun s' hs' => ?_) h₁ h₂
      simp only [Worker.step, Worker.work, hs', hpcs, hpc]
    | _ =>
      rw [hpc] at hslot
      cases hslot

end

/-! ## The result -/

/-- What the kernel may do next does not depend on what the worker does meanwhile. -/
theorem Sends.congr {R : Request → Prop} {s s' : Core β} (h : Sends R s a)
    (hin : s'.inflight = s.inflight) : Sends R s' a := by
  cases a with
  | respond i | post i res flags =>
    unfold Sends
    rw [hin]
    exact h
  | _ => exact h

/-- **The device is free of data races.**  In every state that a run can reach, no access of the
worker to a buffer, a descriptor or a completion meets one of the kernel; commands in flight do
not share any; every access is to memory that is mapped; and the worker's step and the kernel's
give the same state in either order. -/
theorem race_free (w : Worker) (bk : Backend β) (b : Worker.Boot β) (hb : b.Fits w)
    (as : List Action) (s : World β) (h : w.Run bk Anything b as s) : RaceFree w bk s := by
  obtain ⟨k, kc, f, hkc, hp, hm, hi⟩ := h.simulates hb
  have hr : ReadsFit w f :=
    Flow.holds_of_path (P := ReadsFit w) (.boot w b) (fun _ _ _ hi hf _ hs => hf.step hi hs) hp
  refine ⟨fun _ _ hok ht => touches_mapped hm hi hr hok ht,
    fun _ _ hok hk ht => touches_apart hm hi hr hkc hok hk ht,
    fun _ _ _ hok hok' hne _ hof ht => commands_apart hm hi hr hkc hok hok' hne hof ht, ?_⟩
  intro a loc s₁ s₂ hok hk ht h₁ h₂
  obtain ⟨t₁, t₂, ht₁, ht₂, hsame⟩ := touches_commute hm hi hr hkc hok hk ht h₁ h₂
  exact ⟨t₁, t₂, hok.congr (ht.inflight_eq h₁), ht₁, ht₂, hsame⟩

/-- The worker is about to serve a write on tag 0, and may do so before or after the kernel
hands out a write on tag 1. -/
theorem race_free_small : ∃ s : World Unit,
    Worker.small.Run fullBackend Anything Worker.smallBoot
      (Worker.smallStart (.consumed 3) ++
        [.issue 0 (Request.sector opWrite 1 (List.replicate 512 7)), .post 0 0 0] ++
        List.replicate 5 .work) s ∧
    s.pc = .handle 0 ∧ s.inflight.map Command.tag = [1, 2] ∧
    RaceFree Worker.small fullBackend s := by
  have hex : ∃ s : World Unit, Worker.small.Run fullBackend Anything Worker.smallBoot
      (Worker.smallStart (.consumed 3) ++
        [.issue 0 (Request.sector opWrite 1 (List.replicate 512 7)), .post 0 0 0] ++
        List.replicate 5 .work) s ∧
      (s.pc = .handle 0 ∧ s.inflight.map Command.tag = [1, 2]) :=
    exists_run_of_exec (fun s : World Unit => s.pc = .handle 0 ∧
      s.inflight.map Command.tag = [1, 2]) (by decide +kernel)
  obtain ⟨s, hrun, hpc, htags⟩ := hex
  exact ⟨s, hrun, hpc, htags, race_free _ _ _ Worker.small_fits _ s hrun⟩

end
end Ublk
