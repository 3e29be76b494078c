import Mathlib.Algebra.BigOperators.Group.Finset.Basic
import Mathlib.Algebra.Group.Action.Defs
import Mathlib.Algebra.Order.BigOperators.Group.Finset
import Mathlib.Data.Fintype.Card

/-! # A function that is called once

A once-object is a flag and a lock.  `Do(f)` returns if the flag is set; otherwise it takes the
lock, looks at the flag again and, if it still is not set, calls `f` and sets the flag; then it
unlocks.  Any number of callers may be in `Do` at a time.

What `f` does is left open: a caller is in `f` (`At.body`) until it leaves it with a result.
`Status` is the point of the construction: `f` has not been called, one caller is in it, that
caller has left it, or it is over.  Every step of a caller keeps the status or moves it to the
next (`Inv.next`), and nobody is back from `Do` before it is over (`Inv.over_of_returned`).
-/
namespace Once

/-- Where a call of `Do` is: not begun, at the first load of the flag, at the lock, at the second
load, in the function, at the store of the flag, at the unlock, back.  The call that ran the
function knows its result. -/
inductive At (ρ : Type)
  | outside
  | load
  | lock
  | recheck
  | body
  | store (r : ρ)
  | unlock (r : Option ρ)
  | returned (r : Option ρ)
  deriving DecidableEq

namespace At
variable {ρ : Type}

/-- The call is between `Lock` and `Unlock`. -/
def holds : At ρ → Bool
  | .recheck | .body | .store _ | .unlock _ => true
  | _ => false

/-- The steps a call can still make. -/
def left : At ρ → Nat
  | .outside => 7
  | .load => 6
  | .lock => 5
  | .recheck => 4
  | .body => 3
  | .store _ => 2
  | .unlock _ => 1
  | .returned _ => 0

end At

/-- `done`, the holder of the mutex, and where each call is. -/
structure State (ι ρ : Type) where
  done : Bool
  holder : Option ι
  pos : ι → At ρ

/-- A step of one call. -/
inductive Act (ρ : Type)
  /-- The call begins. -/
  | call
  /-- The next statement of `Do`. -/
  | next
  /-- The function returns. -/
  | leave (r : ρ)

namespace State
variable {ι ρ : Type} [DecidableEq ι]

/-- Nobody has called `Do`. -/
def fresh : State ι ρ := ⟨false, none, fun _ => .outside⟩

/-- Call `i` goes on at `p`. -/
def goto (s : State ι ρ) (i : ι) (p : At ρ) : State ι ρ :=
  { s with pos := Function.update s.pos i p }

/-- The next step of call `i`, if it can be made. -/
def step (s : State ι ρ) (i : ι) : Act ρ → Option (State ι ρ)
  | .call =>
      match s.pos i with
      | .outside => some (s.goto i .load)
      | _ => none
  | .next =>
      match s.pos i with
      | .load => some (s.goto i (if s.done then .returned none else .lock))
      | .lock =>
          match s.holder with
          | none => some { s.goto i .recheck with holder := some i }
          | some _ => none
      | .recheck => some (s.goto i (if s.done then .unlock none else .body))
      | .store r => some { s.goto i (.unlock (some r)) with done := true }
      | .unlock r => some { s.goto i (.returned r) with holder := none }
      | _ => none
  | .leave r =>
      match s.pos i with
      | .body => some (s.goto i (.store r))
      | _ => none

/-! ## What a step can do -/

/-- The steps of a call, one constructor for each. -/
inductive Step (s : State ι ρ) (i : ι) : Act ρ → State ι ρ → Prop
  | call (h : s.pos i = .outside) : Step s i .call (s.goto i .load)
  | skip (h : s.pos i = .load) (hd : s.done = true) : Step s i .next (s.goto i (.returned none))
  | slow (h : s.pos i = .load) (hd : s.done = false) : Step s i .next (s.goto i .lock)
  | lock (h : s.pos i = .lock) (hh : s.holder = none) :
      Step s i .next { s.goto i .recheck with holder := some i }
  | late (h : s.pos i = .recheck) (hd : s.done = true) : Step s i .next (s.goto i (.unlock none))
  | enter (h : s.pos i = .recheck) (hd : s.done = false) : Step s i .next (s.goto i .body)
  | leave {r : ρ} (h : s.pos i = .body) : Step s i (.leave r) (s.goto i (.store r))
  | store {r : ρ} (h : s.pos i = .store r) :
      Step s i .next { s.goto i (.unlock (some r)) with done := true }
  | unlock {r : Option ρ} (h : s.pos i = .unlock r) :
      Step s i .next { s.goto i (.returned r) with holder := none }

variable {s s' : State ι ρ} {i : ι} {a : Act ρ}

theorem step_cases (h : s.step i a = some s') : Step s i a s' := by
  cases a with
  | call =>
    rw [step] at h
    split at h
    next hp => cases h; exact .call hp
    · cases h
  | leave r =>
    rw [step] at h
    split at h
    next hp => cases h; exact .leave hp
    · cases h
  | next =>
    rw [step] at h
    split at h
    next hp =>
      cases h
      cases hd : s.done with
      | false => exact .slow hp hd
      | true => exact .skip hp hd
    next hp =>
      split at h
      next hh => cases h; exact .lock hp hh
      · cases h
    next hp =>
      cases h
      cases hd : s.done with
      | false => exact .enter hp hd
      | true => exact .late hp hd
    next hp => cases h; exact .store hp
    next hp => cases h; exact .unlock hp
    · cases h

end State

/-! ## The invariant -/

/-- How far the one execution of the function has come, and which call it belongs to; `left` is
before `done` is set. -/
inductive Status (ι ρ : Type)
  | notStarted
  | running (i : ι)
  | left (i : ι) (r : ρ)
  | ended (i : ι) (r : ρ)

namespace Status
variable {ι ρ : Type}

/-- Who called the function. -/
def runner : Status ι ρ → Option ι
  | .notStarted => none
  | .running i | .left i _ | .ended i _ => some i

/-- Has `done` been set? -/
def isOver : Status ι ρ → Bool
  | .ended _ _ => true
  | _ => false

/-- The status is the same or the next one. -/
inductive Le : Status ι ρ → Status ι ρ → Prop
  | same {st} : Le st st
  | start {i} : Le .notStarted (.running i)
  | leave {i r} : Le (.running i) (.left i r)
  | finish {i r} : Le (.left i r) (.ended i r)

variable {st st' : Status ι ρ} {i : ι}

theorem Le.runner (h : st.Le st') (hr : st.runner = some i) : st'.runner = some i := by
  cases h with
  | start => cases hr
  | same | leave | finish => exact hr

theorem Le.isOver (h : st.Le st') (ho : st.isOver = true) : st'.isOver = true := by
  cases h with
  | same => exact ho
  | start | leave | finish => cases ho

end Status

/-- What the position of the call `i` says about the status. -/
def At.Fits {ι ρ : Type} (st : Status ι ρ) (i : ι) : At ρ → Prop
  | .outside | .load | .lock | .recheck => st.runner ≠ some i
  | .body => st = .running i
  | .store r => st = .left i r
  | .unlock none | .returned none => st.isOver = true ∧ st.runner ≠ some i
  | .unlock (some r) | .returned (some r) => st = .ended i r

/-- What a statement of `Do`, after which the call `i` is at `p`, makes of the status. -/
inductive Moves {ι ρ : Type} (i : ι) (p : At ρ) : Status ι ρ → Status ι ρ → Prop
  | same {st} : p ≠ .body → Moves i p st st
  | start : p = .body → Moves i p .notStarted (.running i)
  | finish {r} : p ≠ .body → Moves i p (.left i r) (.ended i r)

/-- The state agrees with the status: `done`, the mutex, and every call. -/
structure Inv {ι ρ : Type} (s : State ι ρ) (st : Status ι ρ) : Prop where
  done : s.done = st.isOver
  holder : ∀ i, s.holder = some i ↔ (s.pos i).holds = true
  fits : ∀ i, (s.pos i).Fits st i

namespace Inv
variable {ι ρ : Type} {s s' : State ι ρ} {st st' : Status ι ρ} {i j : ι} {a : Act ρ}

theorem fresh : Inv (State.fresh : State ι ρ) .notStarted where
  done := rfl
  holder := fun _ => ⟨nofun, nofun⟩
  fits := fun _ => nofun

/-- Whoever is back finds it over. -/
theorem over_of_returned (h : Inv s st) {r : Option ρ} (hp : s.pos i = .returned r) :
    st.isOver = true := by
  have hfits := h.fits i
  rw [hp] at hfits
  cases r with
  | none => exact hfits.1
  | some r => rw [show st = _ from hfits]; rfl

/-- While the function runs, its caller is in it. -/
theorem pos_running (h : Inv s (.running i)) : s.pos i = .body := by
  have hfits := h.fits i
  revert hfits
  cases s.pos i with
  | outside | load | lock | recheck => exact fun hj => absurd rfl hj
  | body => exact fun _ => rfl
  | store r => exact nofun
  | unlock r | returned r => cases r <;> exact nofun

theorem pos_left {r : ρ} (h : Inv s (.left i r)) : s.pos i = .store r := by
  have hfits := h.fits i
  revert hfits
  cases s.pos i with
  | outside | load | lock | recheck => exact fun hj => absurd rfl hj
  | body => exact nofun
  | store r' =>
    intro hj
    cases hj
    rfl
  | unlock r | returned r => cases r <;> exact nofun

/-- With the lock and without the flag, nobody is further. -/
theorem notStarted (h : Inv s st) (hp : s.pos i = .recheck) (hd : s.done = false) :
    st = .notStarted := by
  have hfits := h.fits i
  rw [hp] at hfits
  have hlock : s.holder = some i := (h.holder i).mpr (by rw [hp]; rfl)
  have hout : ∀ j, st.runner = some j → (s.pos j).holds = false := by
    intro j hj
    by_contra hh
    have hboth := (h.holder j).mpr (Bool.not_eq_false _ ▸ hh)
    rw [hlock, Option.some_inj] at hboth
    exact hfits (hboth ▸ hj)
  rw [h.done] at hd
  cases st with
  | notStarted => rfl
  | ended j r => cases hd
  | running j =>
    have hj := hout j rfl
    rw [h.pos_running] at hj
    cases hj
  | left j r =>
    have hj := hout j rfl
    rw [h.pos_left] at hj
    cases hj

/-- Only the holder of the lock moves the status, and no other call notices but by the flag. -/
theorem fits_other (h : Inv s st) (hle : st.Le st') (hne : j ≠ i)
    (hmine : st' = st ∨ st'.runner = some i) : (s.pos j).Fits st' j := by
  have hj := h.fits j
  rcases hmine with rfl | hrun
  · exact hj
  have hother : st'.runner ≠ some j := fun hr => hne (Option.some_inj.mp (hr.symm.trans hrun))
  have hnot : st.runner ≠ some j := fun hr => hother (hle.runner hr)
  revert hj
  cases s.pos j with
  | outside | load | lock | recheck => exact fun _ => hother
  | body | store r =>
    intro hj
    rw [show st = _ from hj] at hnot
    exact absurd rfl hnot
  | unlock r | returned r =>
    cases r with
    | none => exact fun hj => ⟨hle.isOver hj.1, hother⟩
    | some r =>
      intro hj
      rw [show st = _ from hj] at hnot
      exact absurd rfl hnot

variable [DecidableEq ι]

/-- The call `i` moves to `p`. -/
theorem goto (h : Inv s st) (hle : st.Le st') (hmine : st' = st ∨ st'.runner = some i) {p : At ρ}
    (hp : p.Fits st' i) (hdone : s'.done = st'.isOver)
    (hpos : s'.pos = Function.update s.pos i p)
    (hi : s'.holder = some i ↔ p.holds = true)
    (hother : ∀ j, j ≠ i → (s'.holder = some j ↔ s.holder = some j)) : Inv s' st' where
  done := hdone
  holder := by
    intro j
    rw [hpos]
    by_cases hj : j = i
    · rw [hj, Function.update_self]
      exact hi
    · rw [Function.update_of_ne hj, hother j hj]
      exact h.holder j
  fits := by
    intro j
    rw [hpos]
    by_cases hj : j = i
    · rw [hj, Function.update_self]
      exact hp
    · rw [Function.update_of_ne hj]
      exact h.fits_other hle hj hmine

/-- The call `i` moves to `p`, on the same side of the lock. -/
theorem goto_same (h : Inv s st) (hle : st.Le st') (hmine : st' = st ∨ st'.runner = some i)
    {p : At ρ} (hp : p.Fits st' i) {d : Bool} (hdone : d = st'.isOver)
    (hside : p.holds = (s.pos i).holds) :
    Inv { s.goto i p with done := d } st' :=
  h.goto hle hmine hp hdone rfl (by rw [hside]; exact h.holder i) fun _ _ => Iff.rfl

/-- A call begins. -/
theorem call (h : Inv s st) (hp : s.pos i = .outside) : Inv (s.goto i .load) st := by
  have hfits := h.fits i
  rw [hp] at hfits
  exact h.goto_same .same (.inl rfl) (p := .load) hfits h.done (by rw [hp]; rfl)

/-- The function returns, to the one call that is in it. -/
theorem leave (h : Inv s st) (hp : s.pos i = .body) (r : ρ) :
    st = .running i ∧ Inv (s.goto i (.store r)) (.left i r) := by
  have hfits := h.fits i
  rw [hp] at hfits
  cases hfits
  exact ⟨rfl, h.goto_same .leave (.inr rfl) (p := .store r) rfl h.done (by rw [hp]; rfl)⟩

/-- **A statement of `Do` keeps the status, starts the function or makes it over.** -/
theorem next (h : Inv s st) (hs : State.Step s i .next s') :
    ∃ st', Moves i (s'.pos i) st st' ∧ Inv s' st' := by
  have hfits := h.fits i
  cases hs with
  | slow hp _ =>
    rw [hp] at hfits
    exact ⟨st, .same (by simp [State.goto]),
      h.goto_same .same (.inl rfl) (p := .lock) hfits h.done (by rw [hp]; rfl)⟩
  | skip hp hd =>
    rw [hp] at hfits
    exact ⟨st, .same (by simp [State.goto]), h.goto_same .same (.inl rfl) (p := .returned none)
      ⟨h.done ▸ hd, hfits⟩ h.done (by rw [hp]; rfl)⟩
  | late hp hd =>
    rw [hp] at hfits
    exact ⟨st, .same (by simp [State.goto]), h.goto_same .same (.inl rfl) (p := .unlock none)
      ⟨h.done ▸ hd, hfits⟩ h.done (by rw [hp]; rfl)⟩
  | lock hp hh =>
    rw [hp] at hfits
    refine ⟨st, .same (by simp [State.goto]),
      h.goto .same (.inl rfl) (p := .recheck) hfits h.done rfl ⟨fun _ => rfl, fun _ => rfl⟩ ?_⟩
    intro j hj
    show some i = some j ↔ _
    rw [hh, Option.some_inj]
    exact ⟨fun he => absurd he.symm hj, nofun⟩
  | enter hp hd =>
    obtain rfl := h.notStarted hp hd
    exact ⟨.running i, .start (by simp [State.goto]),
      h.goto_same .start (.inr rfl) (p := .body) rfl h.done (by rw [hp]; rfl)⟩
  | @store r hp =>
    rw [hp] at hfits
    cases hfits
    exact ⟨.ended i r, .finish (by simp [State.goto]),
      h.goto_same .finish (.inr rfl) (p := .unlock (some r)) rfl rfl (by rw [hp]; rfl)⟩
  | @unlock r hp =>
    rw [hp] at hfits
    have hlock : s.holder = some i := (h.holder i).mpr (by rw [hp]; rfl)
    refine ⟨st, .same (by simp [State.goto]),
      h.goto .same (.inl rfl) (p := .returned r) ?_ h.done rfl ⟨nofun, nofun⟩ ?_⟩
    · cases r <;> exact hfits
    · intro j hj
      rw [hlock, Option.some_inj]
      exact ⟨nofun, fun he => absurd he.symm hj⟩

end Inv

/-! ## How long it takes -/

section
variable {ι ρ : Type} [Fintype ι] {s s' : State ι ρ} {i : ι} {a : Act ρ}

/-- The steps that all calls together can still make. -/
def State.left (s : State ι ρ) : Nat := ∑ i, (s.pos i).left

theorem At.left_le (p : At ρ) : p.left ≤ 7 := by
  cases p <;> simp only [At.left, Nat.reduceLeDiff]

theorem State.left_le (s : State ι ρ) : s.left ≤ 7 * Fintype.card ι := by
  refine (Finset.sum_le_card_nsmul _ _ 7 fun i _ => (s.pos i).left_le).trans ?_
  rw [smul_eq_mul, Nat.mul_comm]
  exact Nat.le_refl _

variable [DecidableEq ι]

theorem State.Step.left_lt (hs : State.Step s i a s') : s'.left + 1 ≤ s.left := by
  -- the call that moves has less to do, and the others are where they were
  have hpos : ∃ p : At ρ, s'.pos = Function.update s.pos i p ∧ p.left < (s.pos i).left := by
    cases hs with
    | call hp | skip hp _ | slow hp _ | lock hp _ | late hp _ | enter hp _ | leave hp | store hp
    | unlock hp =>
      refine ⟨_, rfl, ?_⟩
      rw [hp]
      simp only [At.left, Nat.reduceLT]
  obtain ⟨p, hpos, hlt⟩ := hpos
  refine Nat.succ_le_of_lt (Finset.sum_lt_sum (fun j _ => ?_) ⟨i, Finset.mem_univ i, ?_⟩)
  · rw [hpos]
    by_cases hj : j = i
    · rw [hj, Function.update_self]
      exact Nat.le_of_lt hlt
    · rw [Function.update_of_ne hj]
  · rw [hpos, Function.update_self]
    exact hlt

end
end Once
