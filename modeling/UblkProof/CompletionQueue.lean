import UblkProof.SubmissionQueue

/-! # The completion queue as a list

`CQRep r k head unread` says what a ring's completion side holds: the completions
posted and not yet passed by `SeenCQE`, oldest first.  The kernel writes the slot
after them and advances the tail; the consumer reads the slot at the head and advances
the head.  Neither side touches the other's list, and neither queue of a ring touches
the other queue.
-/
namespace Ublk
open CircularBuffer

variable {n : Nat}

/-- What the completion side of a ring with `2 ^ k` completion entries holds. -/
structure CQRep (r : Ring n) (k head : Nat) (unread : List CQE) : Prop where
  entries : r.cqEntries.toNat = 2 ^ k
  mask : r.cqMask.toNat = 2 ^ k - 1
  cqHead : r.cqHead = UInt32.ofNat head
  cqTail : r.cqTail = UInt32.ofNat (head + unread.length)
  room : unread.length ≤ 2 ^ k
  slots : Window r.cqes (2 ^ k) head unread

theorem setup_cqRep {p : Params} {k : Nat} (hp : p.cqEntries.toNat = 2 ^ k) (sq cq : UInt32)
    (sqArray : Nat → UInt32) (sqes : Nat → SQE n) (cqes : Nat → CQE) :
    CQRep (Ring.setup p sq cq sqArray sqes cqes) k cq.toNat [] where
  entries := hp
  mask := by
    have : 0 < 2 ^ k := Nat.two_pow_pos k
    show (p.cqEntries - 1).toNat = _
    rw [UInt32.toNat_sub_of_le _ _ (by rw [UInt32.le_iff_toNat_le, hp]; exact this), hp]
    rfl
  cqHead := UInt32.ofNat_toNat.symm
  cqTail := UInt32.ofNat_toNat.symm
  room := Nat.zero_le _
  slots := .nil

namespace CQRep
variable {r : Ring n} {k head : Nat} {unread : List CQE}

theorem lt (h : CQRep r k head unread) : 2 ^ k < 2 ^ 32 := h.entries ▸ r.cqEntries.toNat_lt

theorem le (h : CQRep r k head unread) : k ≤ 32 :=
  Nat.le_of_lt ((Nat.pow_lt_pow_iff_right (by decide)).mp h.lt)

theorem dist (h : CQRep r k head unread) : (r.cqTail - r.cqHead).toNat = unread.length := by
  have := h.lt
  have := h.room
  rw [h.cqTail, h.cqHead, dist_ofNat (by omega) (by omega)]
  omega

/-- Head and tail are equal only if nothing is unread: a full ring is less than a turn
of the counters. -/
theorem head_eq_tail_iff (h : CQRep r k head unread) : r.cqHead = r.cqTail ↔ unread = [] := by
  have hd := h.dist
  constructor
  · intro he
    rw [he, UInt32.sub_self] at hd
    exact List.length_eq_zero_iff.mp hd.symm
  · rintro rfl
    rw [h.cqHead, h.cqTail]
    rfl

theorem peekCQE_nil (h : CQRep r k head []) : r.peekCQE = none := by
  rw [Ring.peekCQE, if_pos (h.head_eq_tail_iff.mpr rfl)]

theorem peekCQE_cons {c : CQE} (h : CQRep r k head (c :: unread)) :
    r.peekCQE = some (head % 2 ^ k) := by
  have hne : r.cqHead ≠ r.cqTail := fun he => by cases h.head_eq_tail_iff.mp he
  rw [Ring.peekCQE, if_neg hne, h.cqHead, and_mask_ofNat h.le h.mask]

theorem slot_head {c : CQE} (h : CQRep r k head (c :: unread)) : r.cqes (head % 2 ^ k) = c :=
  h.slots.head_eq

theorem unread_eq (h : CQRep r k head unread) : r.unread = unread := by
  have hread : r.unread = (List.range unread.length).map fun i => r.cqes ((head + i) % 2 ^ k) := by
    rw [Ring.unread, h.dist]
    refine List.map_congr_left fun i _ => ?_
    rw [h.cqHead, ← UInt32.ofNat_add, and_mask_ofNat h.le h.mask]
  rw [hread, h.slots.map_range]

/-- Filling the slot at the tail changes nothing yet, while the ring is not full. -/
theorem writeCQE (h : CQRep r k head unread) (hlt : unread.length < 2 ^ k) (c : CQE) :
    CQRep (r.writeCQE c) k head unread ∧
      (r.writeCQE c).cqes ((head + unread.length) % 2 ^ k) = c := by
  have hslot : (r.cqTail &&& r.cqMask).toNat = (head + unread.length) % 2 ^ k := by
    rw [h.cqTail, and_mask_ofNat h.le h.mask]
  refine ⟨⟨h.entries, h.mask, h.cqHead, h.cqTail, h.room, ?_⟩, ?_⟩
  · show Window (Function.update r.cqes (r.cqTail &&& r.cqMask).toNat c) _ _ _
    rw [hslot]
    exact h.slots.update_tail hlt c
  · show Function.update r.cqes (r.cqTail &&& r.cqMask).toNat c _ = c
    rw [hslot, Function.update_self]

/-- Advancing the tail appends what the slot there holds. -/
theorem advanceTail (h : CQRep r k head unread) (hlt : unread.length < 2 ^ k) {c : CQE}
    (hc : r.cqes ((head + unread.length) % 2 ^ k) = c) :
    CQRep r.advanceTail k head (unread ++ [c]) where
  entries := h.entries
  mask := h.mask
  cqHead := h.cqHead
  cqTail := by
    show r.cqTail + 1 = _
    rw [h.cqTail, ofNat_add_one, List.length_append]
    rfl
  room := by rw [List.length_append]; exact hlt
  slots := h.slots.concat hc

/-- **A post appends**, while the ring is not full. -/
theorem post (h : CQRep r k head unread) (hlt : unread.length < 2 ^ k) (c : CQE) :
    CQRep (r.post c) k head (unread ++ [c]) := by
  obtain ⟨hw, hc⟩ := h.writeCQE hlt c
  rw [Ring.post_eq]
  exact hw.advanceTail hlt hc

/-- **`SeenCQE` drops the oldest.** -/
theorem seenCQE {c : CQE} (h : CQRep r k head (c :: unread)) :
    CQRep r.seenCQE k (head + 1) unread where
  entries := h.entries
  mask := h.mask
  cqHead := by
    show r.cqHead + 1 = _
    rw [h.cqHead, ofNat_add_one]
  cqTail := by
    show r.cqTail = _
    rw [h.cqTail, List.length_cons]; congr 1; omega
  room := Nat.le_of_succ_le h.room
  slots := h.slots.drop 1

/-! ## The submission side leaves the list alone -/

theorem getSQE (h : CQRep r k head unread) : CQRep r.getSQE.2 k head unread := by
  rw [Ring.getSQE_frame]
  exact ⟨h.entries, h.mask, h.cqHead, h.cqTail, h.room, h.slots⟩

theorem writeSQE (h : CQRep r k head unread) (idx : Nat) (sqe : SQE n) :
    CQRep (r.writeSQE idx sqe) k head unread :=
  ⟨h.entries, h.mask, h.cqHead, h.cqTail, h.room, h.slots⟩

theorem flushSQ (h : CQRep r k head unread) : CQRep r.flushSQ.2 k head unread := by
  rw [Ring.flushSQ_frame]
  exact ⟨h.entries, h.mask, h.cqHead, h.cqTail, h.room, h.slots⟩

theorem enter (h : CQRep r k head unread) (count : UInt32) (wrap : Errno → UringError)
    (reply : Ring.EnterReply) : CQRep (r.enter count wrap reply).ring k head unread := by
  rw [Ring.enter_frame]
  exact ⟨h.entries, h.mask, h.cqHead, h.cqTail, h.room, h.slots⟩

theorem cancel (h : CQRep r k head unread) : CQRep r.cancel k head unread :=
  ⟨h.entries, h.mask, h.cqHead, h.cqTail, h.room, h.slots⟩

end CQRep

/-! ## The completion side leaves the submission lists alone -/

namespace SQRep
variable {r : Ring n} {k head : Nat} {queued waiting : List (SQE n)}

theorem post (h : SQRep r k head queued waiting) (c : CQE) :
    SQRep (r.post c) k head queued waiting :=
  ⟨⟨h.geometry.entries, h.geometry.mask, h.geometry.ringLength, h.geometry.sqesLength⟩,
    h.sqHead, h.sqTail, h.localHead, h.localTail, h.room, h.entries, h.array⟩

theorem seenCQE (h : SQRep r k head queued waiting) : SQRep r.seenCQE k head queued waiting :=
  ⟨⟨h.geometry.entries, h.geometry.mask, h.geometry.ringLength, h.geometry.sqesLength⟩,
    h.sqHead, h.sqTail, h.localHead, h.localTail, h.room, h.entries, h.array⟩

theorem cancel (h : SQRep r k head queued waiting) : SQRep r.cancel k head queued waiting :=
  ⟨⟨h.geometry.entries, h.geometry.mask, h.geometry.ringLength, h.geometry.sqesLength⟩,
    h.sqHead, h.sqTail, h.localHead, h.localTail, h.room, h.entries, h.array⟩

end SQRep
end Ublk
