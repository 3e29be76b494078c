import UblkProof.Ring

/-! # The submission queue as two lists

`SQRep r k head queued waiting` says what a ring's submission side holds: `queued`
are the entries published and not yet consumed, `waiting` the entries handed out and
not yet published, and `head` is the position the kernel reads next.  Positions do
not wrap; the ring's counters are their values modulo `2 ^ 32`.

Each operation has one lemma that says what it does to the two lists.  The only one
with a side condition is `getSQE`: `nextSQE` compares its private counters, which
count `waiting` alone, so it hands out a slot while `waiting` is short of the ring's
size even if `queued` fills the rest of it (`nextSQE_of_lt`).
-/
namespace Ublk
open CircularBuffer

variable {n : Nat}

/-- A ring with `2 ^ k` submission entries: the mask is one less, and the two mappings
have the lengths `mmapRings` asked for. -/
structure SQGeometry (r : Ring n) (k : Nat) : Prop where
  entries : r.sqEntries.toNat = 2 ^ k
  mask : r.sqMask.toNat = 2 ^ k - 1
  ringLength : r.mmapSQ = r.p.sqOffArray.toNat + 2 ^ k * 4
  sqesLength : r.mmapSQEs = 2 ^ k * sqeSize n

theorem SQGeometry.lt {r : Ring n} {k : Nat} (h : SQGeometry r k) : 2 ^ k < 2 ^ 32 :=
  h.entries ▸ r.sqEntries.toNat_lt

theorem SQGeometry.le {r : Ring n} {k : Nat} (h : SQGeometry r k) : k ≤ 32 :=
  Nat.le_of_lt ((Nat.pow_lt_pow_iff_right (by decide)).mp h.lt)

/-- What the submission side of a ring holds. -/
structure SQRep (r : Ring n) (k head : Nat) (queued waiting : List (SQE n)) : Prop where
  geometry : SQGeometry r k
  sqHead : r.sqHead = UInt32.ofNat head
  sqTail : r.sqTail = UInt32.ofNat (head + queued.length)
  localHead : r.sqeLocalHead = UInt32.ofNat (head + queued.length)
  localTail : r.sqeLocalTail = UInt32.ofNat (head + (queued.length + waiting.length))
  room : queued.length + waiting.length ≤ 2 ^ k
  entries : Window r.sqes (2 ^ k) head (queued ++ waiting)
  array : ∀ i, i < queued.length → (r.sqArray ((head + i) % 2 ^ k)).toNat = (head + i) % 2 ^ k

/-- A new ring holds nothing. -/
theorem setup_rep {p : Params} {k : Nat} (hp : p.sqEntries.toNat = 2 ^ k) (sq cq : UInt32)
    (sqArray : Nat → UInt32) (sqes : Nat → SQE n) (cqes : Nat → CQE) :
    SQRep (Ring.setup p sq cq sqArray sqes cqes) k sq.toNat [] [] where
  geometry := by
    refine ⟨hp, ?_, ?_, ?_⟩
    · have : 0 < 2 ^ k := Nat.two_pow_pos k
      show (p.sqEntries - 1).toNat = _
      rw [UInt32.toNat_sub_of_le _ _ (by rw [UInt32.le_iff_toNat_le, hp]; exact this), hp]
      rfl
    · show p.sqRingSize = _
      rw [Params.sqRingSize, hp]
      rfl
    · show p.sqesSize n = _
      rw [Params.sqesSize, hp]
  sqHead := UInt32.ofNat_toNat.symm
  sqTail := UInt32.ofNat_toNat.symm
  localHead := UInt32.ofNat_toNat.symm
  localTail := UInt32.ofNat_toNat.symm
  room := Nat.zero_le _
  entries := .nil
  array := fun _ h => absurd h (Nat.not_lt_zero _)

namespace SQRep
variable {r : Ring n} {k head : Nat} {queued waiting : List (SQE n)}

/-- The private distance counts the unpublished entries. -/
theorem localDist (h : SQRep r k head queued waiting) :
    (r.sqeLocalTail - r.sqeLocalHead).toNat = waiting.length := by
  have := h.geometry.lt
  have := h.room
  rw [h.localTail, h.localHead, dist_ofNat (by omega) (by omega)]
  omega

/-- The shared distance counts the published entries. -/
theorem sharedDist (h : SQRep r k head queued waiting) :
    (r.sqTail - r.sqHead).toNat = queued.length := by
  have := h.geometry.lt
  have := h.room
  rw [h.sqTail, h.sqHead, dist_ofNat (by omega) (by omega)]
  omega

theorem totalDist (h : SQRep r k head queued waiting) :
    (r.sqeLocalTail - r.sqHead).toNat = queued.length + waiting.length := by
  have := h.geometry.lt
  have := h.room
  rw [h.localTail, h.sqHead, dist_ofNat (by omega) (by omega)]
  omega

theorem local_eq_iff (h : SQRep r k head queued waiting) :
    r.sqeLocalHead = r.sqeLocalTail ↔ waiting = [] := by
  have hd := h.localDist
  constructor
  · intro he
    rw [he, UInt32.sub_self] at hd
    exact List.length_eq_zero_iff.mp hd.symm
  · rintro rfl
    rw [h.localHead, h.localTail]
    rfl

/-! ## Obtaining entries -/

/-- While fewer than `2 ^ k` entries wait, `nextSQE` hands out the slot after them,
whatever is still queued. -/
theorem nextSQE_of_lt (h : SQRep r k head queued waiting) (hlt : waiting.length < 2 ^ k) :
    r.nextSQE = (some ((head + (queued.length + waiting.length)) % 2 ^ k),
      { r with sqeLocalTail := r.sqeLocalTail + 1 }) := by
  have hnot : ¬ r.sqeLocalTail - r.sqeLocalHead ≥ r.sqEntries := by
    rw [ge_iff_le, UInt32.le_iff_toNat_le, h.localDist, h.geometry.entries]
    omega
  have hidx : (r.sqeLocalTail &&& r.sqMask).toNat =
      (head + (queued.length + waiting.length)) % 2 ^ k := by
    rw [h.localTail, and_mask_ofNat h.geometry.le h.geometry.mask]
  simp only [Ring.nextSQE, if_neg hnot, hidx]

/-- With `2 ^ k` entries waiting nothing is queued, so reading the kernel's head
changes nothing and the queue is full. -/
theorem nextSQE_of_full (h : SQRep r k head queued waiting) (hfull : waiting.length = 2 ^ k) :
    r.nextSQE = (none, r) := by
  have hq : queued.length = 0 := by have := h.room; omega
  have hhead : r.sqHead = r.sqeLocalHead := by rw [h.sqHead, h.localHead, hq, Nat.add_zero]
  have hge : r.sqeLocalTail - r.sqeLocalHead ≥ r.sqEntries := by
    rw [ge_iff_le, UInt32.le_iff_toNat_le, h.localDist, h.geometry.entries]
    omega
  have hge' : r.sqeLocalTail - r.sqHead ≥ r.sqEntries := hhead ▸ hge
  have hsame : { r with sqeLocalHead := r.sqHead } = r := by
    cases r
    simp only at hhead
    subst hhead
    rfl
  simp only [Ring.nextSQE, if_pos hge, if_pos hge', hsame]

theorem getSQE_of_lt (h : SQRep r k head queued waiting) (hlt : waiting.length < 2 ^ k) :
    r.getSQE = (some ((head + (queued.length + waiting.length)) % 2 ^ k),
      Ring.writeSQE { r with sqeLocalTail := r.sqeLocalTail + 1 }
        ((head + (queued.length + waiting.length)) % 2 ^ k) (SQE.zero n)) := by
  simp only [Ring.getSQE, h.nextSQE_of_lt hlt]

theorem getSQE_of_full (h : SQRep r k head queued waiting) (hfull : waiting.length = 2 ^ k) :
    r.getSQE = (none, r) := by
  simp only [Ring.getSQE, h.nextSQE_of_full hfull]

/-- **`GetSQE` appends a zeroed entry**, provided the ring has a slot that is neither
waiting nor queued. -/
theorem getSQE (h : SQRep r k head queued waiting) (hlt : queued.length + waiting.length < 2 ^ k) :
    SQRep r.getSQE.2 k head queued (waiting ++ [SQE.zero n]) := by
  rw [h.getSQE_of_lt (by omega)]
  refine ⟨⟨h.geometry.entries, h.geometry.mask, h.geometry.ringLength, h.geometry.sqesLength⟩,
    h.sqHead, h.sqTail, h.localHead, ?_, ?_, ?_, h.array⟩
  · show r.sqeLocalTail + 1 = _
    rw [h.localTail, ofNat_add_one, List.length_append, List.length_singleton]
    congr 1
  · rw [List.length_append, List.length_singleton]
    omega
  · rw [← List.append_assoc]
    have := h.entries.push (by rwa [List.length_append]) (SQE.zero n)
    rwa [List.length_append] at this

/-- Storing through the pointer of the `j`-th waiting entry replaces that entry. -/
theorem writeSQE (h : SQRep r k head queued waiting) {j : Nat} (hj : j < waiting.length)
    (sqe : SQE n) :
    SQRep (r.writeSQE ((head + (queued.length + j)) % 2 ^ k) sqe) k head queued
      (waiting.set j sqe) where
  geometry := ⟨h.geometry.entries, h.geometry.mask, h.geometry.ringLength, h.geometry.sqesLength⟩
  sqHead := h.sqHead
  sqTail := h.sqTail
  localHead := h.localHead
  localTail := by rw [List.length_set]; exact h.localTail
  room := by rw [List.length_set]; exact h.room
  entries := by
    have := h.entries.set (by rw [List.length_append]; exact h.room)
      (j := queued.length + j) (by rw [List.length_append]; omega) sqe
    rwa [List.set_append_right _ _ (Nat.le_add_right _ _), Nat.add_sub_cancel_left] at this
  array := h.array

/-! ## Publishing -/

/-- The slots `flushSQ` stores to are those of the waiting entries. -/
theorem flushSlots (h : SQRep r k head queued waiting) :
    r.flushSlots.map UInt32.toNat =
      (List.range waiting.length).map fun i => (head + (queued.length + i)) % 2 ^ k := by
  rw [Ring.flushSlots, h.localDist, List.map_map]
  refine List.map_congr_left fun i _ => ?_
  show ((r.sqeLocalHead + UInt32.ofNat i) &&& r.sqMask).toNat = _
  rw [h.localHead, ← UInt32.ofNat_add, and_mask_ofNat h.geometry.le h.geometry.mask, Nat.add_assoc]

/-- A slot stored to by the identity fill holds its own number. -/
theorem fill_mem : ∀ (l : List UInt32) (a : Nat → UInt32) (x : UInt32), x ∈ l →
    l.foldl (fun a idx => Function.update a idx.toNat idx) a x.toNat = x := by
  intro l
  induction l using List.reverseRecOn with
  | nil => intro _ _ h; cases h
  | append_singleton l y ih =>
    intro a x hx
    rw [List.foldl_append]
    by_cases hxy : x = y
    · subst hxy; exact Function.update_self ..
    · rw [List.foldl_cons, List.foldl_nil,
        Function.update_of_ne (fun he => hxy (UInt32.toNat_inj.mp he))]
      exact ih a x ((List.mem_append.mp hx).resolve_right (by simpa using hxy))

theorem fill_not_mem : ∀ (l : List UInt32) (a : Nat → UInt32) (j : Nat), j ∉ l.map UInt32.toNat →
    l.foldl (fun a idx => Function.update a idx.toNat idx) a j = a j
  | [], _, _, _ => rfl
  | x :: l, a, j, h => by
      rw [List.map_cons, List.mem_cons, not_or] at h
      rw [List.foldl_cons, fill_not_mem l _ j h.2, Function.update_of_ne h.1]

/-- **`flushSQ` queues everything that waits.** -/
theorem flushSQ (h : SQRep r k head queued waiting) :
    r.flushSQ.1.toNat = waiting.length ∧ SQRep r.flushSQ.2 k head (queued ++ waiting) [] := by
  have hcount := h.localDist
  unfold Ring.flushSQ
  by_cases h0 : r.sqeLocalTail - r.sqeLocalHead = 0
  · rw [h0] at hcount
    have hw : waiting = [] := List.length_eq_zero_iff.mp hcount.symm
    subst hw
    simp only [if_pos h0, List.append_nil]
    exact ⟨rfl, h⟩
  · simp only [if_neg h0]
    refine ⟨hcount, ⟨h.geometry.entries, h.geometry.mask, h.geometry.ringLength,
      h.geometry.sqesLength⟩, h.sqHead, ?_, ?_, ?_, ?_, ?_, ?_⟩
    · show r.sqeLocalTail = _
      rw [h.localTail, List.length_append]
    · show r.sqeLocalTail = _
      rw [h.localTail, List.length_append]
    · show r.sqeLocalTail = _
      rw [h.localTail, List.length_append]
      rfl
    · simpa using h.room
    · simpa using h.entries
    · -- stored by this flush, or queued before it and then not stored to
      intro i hi
      have hmem : ∀ j, j < waiting.length →
          (head + (queued.length + j)) % 2 ^ k ∈ r.flushSlots.map UInt32.toNat := by
        intro j hj
        rw [h.flushSlots]
        exact List.mem_map.mpr ⟨j, List.mem_range.mpr hj, rfl⟩
      rw [List.length_append] at hi
      by_cases hold : i < queued.length
      · refine (congrArg UInt32.toNat (fill_not_mem _ _ _ ?_)).trans (h.array i hold)
        rw [h.flushSlots]
        intro hin
        obtain ⟨j, hj, he⟩ := List.mem_map.mp hin
        have hroom := h.room
        have := slot_inj (a := head) (by omega) (by have := List.mem_range.mp hj; omega)
          (by omega) (by omega) he
        omega
      · obtain ⟨x, hx, he⟩ := List.mem_map.mp (hmem (i - queued.length) (by omega))
        rw [Nat.add_sub_cancel' (by omega)] at he
        rw [← he]
        exact congrArg UInt32.toNat (fill_mem _ _ x hx)

/-! ## Consumption -/

theorem consumeOne {sqe : SQE n} (h : SQRep r k head (sqe :: queued) waiting) :
    r.consumeOne.1 = sqe ∧ SQRep r.consumeOne.2 k (head + 1) queued waiting := by
  have harr := h.array 0 (Nat.zero_lt_succ _)
  rw [Nat.add_zero] at harr
  have hroom := h.room
  rw [List.length_cons] at hroom
  refine ⟨?_, ⟨h.geometry.entries, h.geometry.mask, h.geometry.ringLength,
    h.geometry.sqesLength⟩, ?_, ?_, ?_, ?_, ?_, ?_, ?_⟩
  · show r.sqes (r.sqArray (r.sqHead &&& r.sqMask).toNat).toNat = sqe
    rw [h.sqHead, and_mask_ofNat h.geometry.le h.geometry.mask, harr]
    exact Window.head_eq (l := queued ++ waiting) h.entries
  · show r.sqHead + 1 = _
    rw [h.sqHead, ofNat_add_one]
  · show r.sqTail = _
    rw [h.sqTail, List.length_cons]; congr 1; omega
  · show r.sqeLocalHead = _
    rw [h.localHead, List.length_cons]; congr 1; omega
  · show r.sqeLocalTail = _
    rw [h.localTail, List.length_cons]; congr 1; omega
  · omega
  · exact h.entries.drop 1
  · intro i hi
    have := h.array (i + 1) (by rw [List.length_cons]; omega)
    rwa [show head + (i + 1) = head + 1 + i from by omega] at this

/-- **The kernel reads the oldest queued entries, in order.** -/
theorem consume : ∀ {j head : Nat} {r : Ring n} {queued : List (SQE n)},
    SQRep r k head queued waiting → j ≤ queued.length →
    (r.consume j).1 = queued.take j ∧ SQRep (r.consume j).2 k (head + j) (queued.drop j) waiting
  | 0, _, _, _, h, _ => ⟨rfl, h⟩
  | j + 1, head, r, [], _, hj => absurd hj (Nat.not_succ_le_zero _)
  | j + 1, head, r, sqe :: queued, h, hj => by
      obtain ⟨h1, h2⟩ := h.consumeOne
      obtain ⟨h3, h4⟩ := consume h2 (Nat.le_of_succ_le_succ hj)
      refine ⟨?_, ?_⟩
      · show r.consumeOne.1 :: (r.consumeOne.2.consume j).1 = _
        rw [h1, h3, List.take_succ_cons]
      · rw [show head + (j + 1) = head + 1 + j from by omega]
        exact h4

/-- The system call takes the oldest queued entries, as many as the reply says. -/
theorem enter (h : SQRep r k head queued waiting) (count : UInt32)
    (wrap : Errno → UringError) {reply : Ring.EnterReply} (hle : reply.amount ≤ queued.length) :
    (r.enter count wrap reply).read = queued.take reply.amount ∧
      SQRep (r.enter count wrap reply).ring k (head + reply.amount) (queued.drop reply.amount)
        waiting :=
  h.consume hle

/-! ## The two lists, read off the ring -/

theorem unpublished_eq (h : SQRep r k head queued waiting) : r.unpublished = waiting := by
  have hslots : r.unpublished = (r.flushSlots.map UInt32.toNat).map r.sqes := by
    rw [List.map_map]; rfl
  have hwait : Window r.sqes (2 ^ k) (head + queued.length) waiting := by
    have := h.entries.drop queued.length
    rwa [List.drop_left] at this
  rw [hslots, h.flushSlots, List.map_map, ← hwait.map_range]
  simp only [List.length_map, List.length_range, Function.comp_def, Nat.add_assoc]

theorem unconsumedSlots_eq (h : SQRep r k head queued waiting) :
    r.unconsumedSlots = (List.range queued.length).map fun i => (head + i) % 2 ^ k := by
  rw [Ring.unconsumedSlots, h.sharedDist]
  refine List.map_congr_left fun i _ => ?_
  rw [h.sqHead, ← UInt32.ofNat_add, and_mask_ofNat h.geometry.le h.geometry.mask]

theorem unconsumed_eq (h : SQRep r k head queued waiting) : r.unconsumed = queued := by
  have hread : r.unconsumed =
      (List.range queued.length).map fun i => r.sqes ((head + i) % 2 ^ k) := by
    rw [Ring.unconsumed, h.unconsumedSlots_eq, List.map_map]
    refine List.map_congr_left fun i hi => ?_
    rw [Function.comp_apply, h.array i (List.mem_range.mp hi)]
  rw [hread, h.entries.append_left.map_range]

/-! ## Bounds of the mapped areas -/

/-- The slot `GetSQE` returns lies in the mapped entry area. -/
theorem slot_in_sqes (h : SQRep r k head queued waiting) (p : Nat) :
    p % 2 ^ k * sqeSize n + sqeSize n ≤ r.mmapSQEs := by
  rw [h.geometry.sqesLength, ← Nat.succ_mul]
  exact Nat.mul_le_mul_right _ (Nat.mod_lt _ (Nat.two_pow_pos k))

/-- The index array word of a slot lies in the mapped ring. -/
theorem slot_in_ring (h : SQRep r k head queued waiting) (p : Nat) :
    r.p.sqOffArray.toNat + p % 2 ^ k * 4 + 4 ≤ r.mmapSQ := by
  have := Nat.mod_lt p (Nat.two_pow_pos k)
  rw [h.geometry.ringLength]
  omega

end SQRep
end Ublk
