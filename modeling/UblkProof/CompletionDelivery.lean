import UblkProof.ConsumerMachine

/-! # Completions are delivered once, in order and intact

`Delivery k head unread q` relates the state to the list of completions that are posted and
not yet passed by `SeenCQE`.  Everything posted is what was copied followed by what is unread,
minus the one that is copied and not yet passed (`CallPC.held`).  A pointer in hand is to the
slot of the oldest unread completion, which the kernel does not touch before `SeenCQE`: it
writes the slot after the unread ones, and only while that is another slot.
-/
namespace Ublk
open CircularBuffer
open Runs (exists_run_of_exec)

/-- How many unread completions the consumer has copied. -/
def CallPC.held : CallPC → Nat
  | .read => 1
  | _ => 0

/-- What the consumer's local variables say about the queue. -/
def CallPC.Holds (k head : Nat) (unread : List CQE) : CallPC → Prop
  | .waitTail h | .peekTail h => h = UInt32.ofNat head
  | .took idx => idx = head % 2 ^ k ∧ unread ≠ []
  | .copied idx userData =>
      idx = head % 2 ^ k ∧ ∃ c rest, unread = c :: rest ∧ userData = c.userData
  | .read => unread ≠ []
  | _ => True

theorem CallPC.Holds.append {k head : Nat} {unread : List CQE} {pc : CallPC}
    (h : pc.Holds k head unread) (c : CQE) : pc.Holds k head (unread ++ [c]) := by
  cases pc with
  | took idx => exact ⟨h.1, by simp⟩
  | copied idx userData =>
    obtain ⟨hidx, c', rest, rfl, hud⟩ := h
    exact ⟨hidx, c', rest ++ [c], rfl, hud⟩
  | read =>
    show unread ++ [c] ≠ []
    simp
  | _ => exact h

theorem CallPC.Holds.held_le {k head : Nat} {unread : List CQE} {pc : CallPC}
    (h : pc.Holds k head unread) : pc.held ≤ unread.length := by
  cases pc with
  | read => exact List.length_pos_iff.mpr h
  | _ => exact Nat.zero_le _

namespace Consumer
variable {n : Nat} {fds : PollSet} {q q' : Consumer n} {k head : Nat} {unread : List CQE}

/-- The completions posted and not yet passed are `unread`, from position `head` on. -/
structure Delivery (k head : Nat) (unread : List CQE) (q : Consumer n) : Prop where
  rep : CQRep q.ring k head unread
  written : ∀ c, q.written = some c →
    unread.length < 2 ^ k ∧ q.ring.cqes ((head + unread.length) % 2 ^ k) = c
  posted : q.posted = q.copies ++ (unread.drop q.pc.held).map CQE.fields
  seen : q.seen + q.pc.held = q.copies.length
  pc : q.pc.Holds k head unread
  peeks : ∀ p ∈ q.peeks, p.result = none ↔ p.seen = p.posted

namespace Delivery

theorem start {r : Ring n} (hentries : r.cqEntries.toNat = 2 ^ k)
    (hmask : r.cqMask.toNat = 2 ^ k - 1) (hempty : r.cqHead = r.cqTail) :
    Delivery k r.cqHead.toNat [] (Consumer.start r) where
  rep := {
    entries := hentries
    mask := hmask
    cqHead := UInt32.ofNat_toNat.symm
    cqTail := by
      show r.cqTail = _
      rw [← hempty]
      exact UInt32.ofNat_toNat.symm
    room := Nat.zero_le _
    slots := .nil }
  written _ h := by cases h
  posted := rfl
  seen := rfl
  pc := trivial
  peeks _ h := by cases h

theorem length_posted (h : Delivery k head unread q) :
    q.posted.length = q.seen + unread.length := by
  have hle := h.pc.held_le
  have hseen := h.seen
  rw [h.posted, List.length_append, List.length_map, List.length_drop]
  omega

/-- The consumer moves on without copying or passing anything. -/
theorem goto (h : Delivery k head unread q) (pc : CallPC) (hheld : pc.held = q.pc.held)
    (hpc : pc.Holds k head unread) : Delivery k head unread { q with pc := pc } :=
  { h with
    posted := by
      show q.posted = q.copies ++ (unread.drop pc.held).map CQE.fields
      rw [hheld]
      exact h.posted
    seen := by
      show q.seen + pc.held = _
      rw [hheld]
      exact h.seen
    pc := hpc }

/-- `WaitCQE` returns a pointer to the oldest unread completion, or an error. -/
theorem waitReturns (h : Delivery k head unread q) (hheld : q.pc.held = 0)
    {result : Except UringError Nat}
    (hr : ∀ idx, result = .ok idx → idx = head % 2 ^ k ∧ unread ≠ []) :
    Delivery k head unread (q.waitReturns result) := by
  cases result with
  | ok idx => exact { h.goto (.took idx) hheld.symm (hr idx rfl) with }
  | error e => exact { h.goto .idle hheld.symm trivial with }

/-- `PeekCQE` returns such a pointer, or nil if there is none. -/
theorem peekReturns (h : Delivery k head unread q) (hheld : q.pc.held = 0) {result : Option Nat}
    (hnil : result = none ↔ unread = [])
    (hr : ∀ idx, result = some idx → idx = head % 2 ^ k) :
    Delivery k head unread (q.peekReturns result) := by
  have hpeeks : ∀ p ∈ q.peeks ++ [⟨q.posted.length, q.seen, result⟩],
      p.result = none ↔ p.seen = p.posted := by
    intro p hp
    rcases List.mem_append.mp hp with hp | hp
    · exact h.peeks p hp
    · cases List.mem_singleton.mp hp
      show result = none ↔ q.seen = q.posted.length
      rw [hnil, h.length_posted, ← List.length_eq_zero_iff]
      omega
  cases result with
  | none => exact { h.goto .idle hheld.symm trivial with peeks := hpeeks }
  | some idx =>
    have hne : unread ≠ [] := fun he => by cases hnil.mpr he
    exact { h.goto (.took idx) hheld.symm ⟨hr idx rfl, hne⟩ with peeks := hpeeks }

/-- The head a call has loaded is still the head: nobody else moves it. -/
theorem loaded (h : Delivery k head unread q) {hd : UInt32}
    (hpc : q.pc = .waitTail hd ∨ q.pc = .peekTail hd) :
    (hd = q.ring.cqTail ↔ unread = []) ∧ q.ring.cqeSlot hd = head % 2 ^ k := by
  have he : hd = UInt32.ofNat head := by
    have hholds := h.pc
    rcases hpc with hpc | hpc <;> rw [hpc] at hholds <;> exact hholds
  subst he
  rw [← h.rep.head_eq_tail_iff, h.rep.cqHead]
  exact ⟨Iff.rfl, and_mask_ofNat h.rep.le h.rep.mask head⟩

/-- The consumer's own statements; only `SeenCQE` moves the head. -/
theorem work (h : Delivery k head unread q) (hs : Work fds q q') :
    ∃ head' unread', Delivery k head' unread' q' := by
  cases hs with
  | cancelled hpc hc =>
    exact ⟨head, unread, h.waitReturns (by rw [hpc]; rfl) fun idx he => by cases he⟩
  | notCancelled hpc hc => exact ⟨head, unread, h.goto _ (by rw [hpc]; rfl) trivial⟩
  | waitHead hpc => exact ⟨head, unread, h.goto _ (by rw [hpc]; rfl) h.rep.cqHead⟩
  | found hd hpc hne =>
    obtain ⟨hiff, hslot⟩ := h.loaded (.inl hpc)
    refine ⟨head, unread, h.waitReturns (by rw [hpc]; rfl) fun idx he => ?_⟩
    cases he
    exact ⟨hslot, fun hnil => hne (hiff.mpr hnil)⟩
  | block hd hpc he => exact ⟨head, unread, h.goto _ (by rw [hpc]; rfl) trivial⟩
  | woken events hpc he =>
    exact ⟨head, unread, h.waitReturns (by rw [hpc]; rfl) fun idx he => by cases he⟩
  | again events hpc he => exact ⟨head, unread, h.goto _ (by rw [hpc]; rfl) trivial⟩
  | peekHead hpc => exact ⟨head, unread, h.goto _ (by rw [hpc]; rfl) h.rep.cqHead⟩
  | peekNil hd hpc he =>
    obtain ⟨hiff, hslot⟩ := h.loaded (.inr hpc)
    exact ⟨head, unread, h.peekReturns (by rw [hpc]; rfl) ⟨fun _ => hiff.mp he, fun _ => rfl⟩
      fun idx he => by cases he⟩
  | peeked hd hpc hne =>
    obtain ⟨hiff, hslot⟩ := h.loaded (.inr hpc)
    refine ⟨head, unread, h.peekReturns (by rw [hpc]; rfl)
      ⟨fun he => (by cases he), fun hnil => absurd (hiff.mpr hnil) hne⟩ fun idx he => ?_⟩
    cases he
    exact hslot
  | userData idx hpc =>
    have hpc' := h.pc
    rw [hpc] at hpc'
    obtain ⟨rfl, hne⟩ := hpc'
    obtain ⟨c, rest, rfl⟩ := List.exists_cons_of_ne_nil hne
    exact ⟨head, c :: rest, h.goto _ (by rw [hpc]; rfl)
      ⟨rfl, c, rest, rfl, congrArg CQE.userData h.rep.slot_head⟩⟩
  | res idx userData hpc =>
    -- both halves of the pair come from the head slot, which the kernel does not write while it
    -- is unread
    have hpc' := h.pc
    have hposted := h.posted
    have hseen := h.seen
    rw [hpc] at hpc' hposted hseen
    obtain ⟨rfl, c, rest, rfl, rfl⟩ := hpc'
    have hpair : (c.userData, (q.ring.cqes (head % 2 ^ k)).res) = c.fields := by
      rw [h.rep.slot_head]
      rfl
    refine ⟨head, c :: rest, { h with posted := ?_, seen := ?_, pc := List.cons_ne_nil c rest }⟩
    · show q.posted = (q.copies ++ [(c.userData, (q.ring.cqes (head % 2 ^ k)).res)]) ++ _
      rw [hposted, hpair, List.append_assoc]
      rfl
    · show q.seen + 1 = (q.copies ++ [_]).length
      rw [List.length_append, ← hseen]
      rfl
  | seen hpc =>
    have hpc' := h.pc
    have hposted := h.posted
    have hseen := h.seen
    rw [hpc] at hpc' hposted hseen
    obtain ⟨c, rest, rfl⟩ := List.exists_cons_of_ne_nil hpc'
    refine ⟨head + 1, rest, {
      rep := h.rep.seenCQE
      written := fun c' hc' => ?_
      posted := hposted
      seen := hseen
      pc := trivial
      peeks := h.peeks }⟩
    -- a completion that is written and not yet posted stays where it is
    obtain ⟨hlt, hslot⟩ := h.written c' hc'
    rw [List.length_cons] at hlt hslot
    refine ⟨by omega, ?_⟩
    rw [← hslot, Nat.add_right_comm, Nat.add_assoc]
    rfl

/-- **Every step delivers in order.** -/
theorem step (h : Delivery k head unread q) (hs : Step fds q q') :
    ∃ head' unread', Delivery k head' unread' q' := by
  cases hs with
  | wait hpc =>
    exact ⟨head, unread, { h.goto .waitFlag (by rw [hpc]; rfl) trivial with }⟩
  | peek hpc => exact ⟨head, unread, h.goto _ (by rw [hpc]; rfl) trivial⟩
  | work hw => exact h.work hw
  | interrupted hpc => exact ⟨head, unread, h.goto _ (by rw [hpc]; rfl) trivial⟩
  | failed e hpc =>
    exact ⟨head, unread, h.waitReturns (by rw [hpc]; rfl) fun idx he => by cases he⟩
  | events events hpc hready => exact ⟨head, unread, h.goto _ (by rw [hpc]; rfl) trivial⟩
  | cancelStore => exact ⟨head, unread, { h with rep := h.rep.cancel }⟩
  | cancelWake hw => exact ⟨head, unread, { h with }⟩
  | write c hn hroom =>
    have hlt : unread.length < 2 ^ k := by
      have := UInt32.lt_iff_toNat_lt.mp hroom
      rwa [h.rep.dist, h.rep.entries] at this
    obtain ⟨hrep, hslot⟩ := h.rep.writeCQE hlt c
    refine ⟨head, unread, { h with rep := hrep, written := fun c' hc' => ?_ }⟩
    cases hc'
    exact ⟨hlt, hslot⟩
  | advance c hc =>
    obtain ⟨hlt, hslot⟩ := h.written c hc
    refine ⟨head, unread ++ [c], {
      rep := h.rep.advanceTail hlt hslot
      written := fun c' hc' => by cases hc'
      posted := ?_
      seen := h.seen
      pc := h.pc.append c
      peeks := h.peeks }⟩
    show q.posted ++ [c.fields] = q.copies ++ ((unread ++ [c]).drop q.pc.held).map CQE.fields
    rw [h.posted, List.drop_append_of_le_length h.pc.held_le, List.map_append, List.append_assoc]
    rfl

end Delivery

/-- **The completion queue delivers each completion exactly once, in order and intact**, for
every power-of-two queue, from any common value of its counters, and whatever the kernel, the
consumer and the callers of `Cancel` do in between.

* What the consumer has copied is a prefix of what the kernel has posted, and it has copied
  everything it has passed by `SeenCQE`.
* `PeekCQE` returns nil exactly if everything posted at its tail load had been passed.
* The head does not pass the tail, and follows it by at most the size of the queue. -/
theorem completions_delivered {k : Nat} (fds : PollSet) (r : Ring n)
    (hentries : r.cqEntries.toNat = 2 ^ k) (hmask : r.cqMask.toNat = 2 ^ k - 1)
    (hempty : r.cqHead = r.cqTail) (as : List CallAction) (q : Consumer n)
    (h : Run fds (Consumer.start r) as q) :
    q.copies <+: q.posted ∧
      (q.seen ≤ q.copies.length ∧ q.copies.length ≤ q.seen + 1) ∧
      (∀ p ∈ q.peeks, p.result = none ↔ p.seen = p.posted) ∧
      q.seen ≤ q.posted.length ∧
      (q.ring.cqTail - q.ring.cqHead).toNat = q.posted.length - q.seen ∧
      q.posted.length ≤ q.seen + 2 ^ k := by
  obtain ⟨head, unread, hd⟩ : ∃ head unread, Delivery k head unread q :=
    Runs.Run.invariant (I := fun q => ∃ head unread, Delivery k head unread q)
      ⟨_, _, Delivery.start hentries hmask hempty⟩
      (fun _ _ _ ⟨_, _, hi⟩ _ hs => hi.step (step_cases hs)) h
  have hlen := hd.length_posted
  have hroom := hd.rep.room
  have hheld : q.pc.held ≤ 1 := by cases q.pc <;> simp [CallPC.held]
  have hseen := hd.seen
  refine ⟨⟨_, hd.posted.symm⟩, ⟨by omega, by omega⟩, hd.peeks, by omega, ?_, by omega⟩
  rw [hd.rep.dist, hlen]
  omega

/-- A queue of two entries whose counters wrap: the kernel fills it, and the consumer takes the
first completion with `WaitCQE` and the second with `PeekCQE` while the kernel fills the slot of
the first again. -/
theorem completions_delivered_wrap :
    ∃ q : Consumer 16,
      Run .sample (Consumer.start (Ring.sample 0xFFFFFFFF))
        [.write ⟨7, 512, 0⟩, .advance, .write ⟨8, -5, 0⟩, .advance, .wait, .work, .work, .work,
          .work, .work, .work, .peek, .write ⟨9, 0, 0⟩, .work, .work, .advance, .work, .work] q ∧
      q.ring.cqTail = 2 ∧ q.copies = [(7, 512), (8, -5)] ∧ q.copies <+: q.posted := by
  have hex : ∃ q : Consumer 16,
      Run .sample (Consumer.start (Ring.sample 0xFFFFFFFF))
        [.write ⟨7, 512, 0⟩, .advance, .write ⟨8, -5, 0⟩, .advance, .wait, .work, .work, .work,
          .work, .work, .work, .peek, .write ⟨9, 0, 0⟩, .work, .work, .advance, .work, .work] q ∧
      (q.ring.cqTail = 2 ∧ q.copies = [(7, 512), (8, -5)]) :=
    exists_run_of_exec
      (fun q : Consumer 16 => q.ring.cqTail = 2 ∧ q.copies = [(7, 512), (8, -5)])
      (by decide +kernel)
  obtain ⟨q, hrun, htail, hcopies⟩ := hex
  exact ⟨q, hrun, htail, hcopies,
    (completions_delivered (k := 1) .sample _ (by decide) (by decide) rfl _ q hrun).1⟩

end Consumer
end Ublk
