import Mathlib.Data.List.Nodup

/-! # Linearization points

A run of a concurrent object is recorded as a list of events: the invocation of an
operation, its response, and, invisible to clients, the instant it takes effect.
Operations are told apart by an identity.

`Linearizes` is the usual definition, on the visible events: there is a sequential
order `S` of operations that contains every completed one with the value it returned,
that is legal for the sequential object, and that respects the order of operations that
do not overlap.  Operations still pending may appear in `S` or not.

**The method of linearization points** (`Points.linearizes`): if every operation takes
effect once, after its invocation and before its response, then taking operations in the
order in which they took effect is such an order.
-/
namespace Linearization
variable {σ Op Ret : Type}

/-- A sequential object. -/
structure SeqObject (σ Op Ret : Type) where
  init : σ
  apply : σ → Op → σ × Ret

namespace SeqObject
variable (O : SeqObject σ Op Ret)

/-- The operations of `S`, executed in order from `s`, return what `S` records. -/
def Legal (s : σ) : List (Nat × Op × Ret) → Prop
  | [] => True
  | e :: S => (O.apply s e.2.1).2 = e.2.2 ∧ Legal (O.apply s e.2.1).1 S

/-- The state after the operations of `S`. -/
def final (s : σ) (S : List (Nat × Op × Ret)) : σ := S.foldl (fun s e => (O.apply s e.2.1).1) s

theorem final_concat (s : σ) (S : List (Nat × Op × Ret)) (e : Nat × Op × Ret) :
    O.final s (S ++ [e]) = (O.apply (O.final s S) e.2.1).1 := by
  rw [final, List.foldl_append]; rfl

theorem legal_concat (S : List (Nat × Op × Ret)) (e : Nat × Op × Ret) : ∀ s : σ,
    O.Legal s (S ++ [e]) ↔ O.Legal s S ∧ (O.apply (O.final s S) e.2.1).2 = e.2.2 := by
  induction S with
  | nil => intro s; exact ⟨fun h => ⟨trivial, h.1⟩, fun h => ⟨h.2, trivial⟩⟩
  | cons x S ih =>
    intro s
    rw [List.cons_append, Legal, Legal, ih, and_assoc]
    rfl

/-- **Failed operations have no effect.**  If every operation either fails and leaves what `α`
shows of the state, or is one of `O'` there, the ones that do not fail are a legal sequence
of `O'`. -/
theorem legal_filter {τ : Type} (O' : SeqObject τ Op Ret) (α : σ → τ) (failed : Ret → Bool)
    {R : Op → Prop}
    (hfail : ∀ s op, R op → failed (O.apply s op).2 = true → α (O.apply s op).1 = α s)
    (hdone : ∀ s op, R op → failed (O.apply s op).2 = false →
      O'.apply (α s) op = (α (O.apply s op).1, (O.apply s op).2))
    (S : List (Nat × Op × Ret)) : ∀ s : σ, (∀ e ∈ S, R e.2.1) → O.Legal s S →
      O'.Legal (α s) (S.filter fun e => !failed e.2.2) ∧
        O'.final (α s) (S.filter fun e => !failed e.2.2) = α (O.final s S) := by
  induction S with
  | nil => exact fun _ _ _ => ⟨trivial, rfl⟩
  | cons e S ih =>
    intro s hR ⟨hret, hlegal⟩
    have hRe : R e.2.1 := hR e List.mem_cons_self
    obtain ⟨hl, hf⟩ := ih _ (fun x hx => hR x (List.mem_cons_of_mem e hx)) hlegal
    cases hfe : failed e.2.2 with
    | true =>
      rw [List.filter_cons_of_neg (by simp [hfe])]
      rw [hfail s e.2.1 hRe (by rw [hret, hfe])] at hl hf
      exact ⟨hl, hf⟩
    | false =>
      have happly := hdone s e.2.1 hRe (by rw [hret, hfe])
      rw [List.filter_cons_of_pos (by simp [hfe])]
      refine ⟨⟨by rw [happly, hret], by rw [happly]; exact hl⟩, ?_⟩
      show O'.final (O'.apply (α s) e.2.1).1 _ = α (O.final (O.apply s e.2.1).1 S)
      rw [happly]
      exact hf

theorem final_append (s : σ) (S S' : List (Nat × Op × Ret)) :
    O.final s (S ++ S') = O.final (O.final s S) S' := List.foldl_append

theorem legal_append (S : List (Nat × Op × Ret)) {S' : List (Nat × Op × Ret)} : ∀ s : σ,
    O.Legal s (S ++ S') ↔ O.Legal s S ∧ O.Legal (O.final s S) S' := by
  induction S with
  | nil => exact fun _ => ⟨fun h => ⟨trivial, h⟩, fun h => h.2⟩
  | cons e S ih =>
    intro s
    rw [List.cons_append, Legal, Legal, ih, and_assoc]
    rfl

/-- The same object with another initial state. -/
def startAt (s : σ) : SeqObject σ Op Ret := { O with init := s }

theorem legal_startAt (s₀ : σ) (S : List (Nat × Op × Ret)) : ∀ s : σ,
    ((O.startAt s₀).Legal s S ↔ O.Legal s S) ∧ (O.startAt s₀).final s S = O.final s S := by
  induction S with
  | nil => exact fun _ => ⟨Iff.rfl, rfl⟩
  | cons e S ih => exact fun s => ⟨and_congr_right fun _ => (ih _).1, (ih _).2⟩

/-- A counter of any kind that each operation for which `p` holds increments; `grow c n` is what
`n` increments make of `c`. -/
theorem final_count {α : Type} {n : σ → α} {grow : α → Nat → α} {p : Op × Ret → Bool}
    {R : Op → Prop} (hzero : ∀ c, grow c 0 = c)
    (hadd : ∀ c i j, grow (grow c i) j = grow c (i + j))
    (h : ∀ s op, R op → n (O.apply s op).1 = grow (n s) (p (op, (O.apply s op).2)).toNat)
    (S : List (Nat × Op × Ret)) : ∀ s : σ, (∀ e ∈ S, R e.2.1) → O.Legal s S →
      n (O.final s S) = grow (n s) (S.countP fun e => p e.2) := by
  induction S with
  | nil => exact fun s _ _ => (hzero (n s)).symm
  | cons e S ih =>
    intro s hR ⟨hret, hlegal⟩
    have hstep := h s e.2.1 (hR e List.mem_cons_self)
    rw [hret] at hstep
    have hrest := ih _ (fun x hx => hR x (List.mem_cons_of_mem e hx)) hlegal
    rw [show O.final s (e :: S) = O.final (O.apply s e.2.1).1 S from rfl, hrest, hstep, hadd,
      List.countP_cons, Nat.add_comm]
    cases p e.2 <;> rfl

/-- What a legal sequence records was returned in some state. -/
theorem legal_mem (S : List (Nat × Op × Ret)) : ∀ s : σ, O.Legal s S → ∀ e ∈ S,
    ∃ s', (O.apply s' e.2.1).2 = e.2.2 := by
  induction S with
  | nil => exact fun _ _ _ he => by cases he
  | cons x S ih =>
    intro s ⟨hret, hlegal⟩ e he
    rcases List.mem_cons.mp he with rfl | he
    · exact ⟨s, hret⟩
    · exact ih _ hlegal e he

end SeqObject

/-- An event of a run. -/
inductive Event (Op Ret : Type)
  | inv (id : Nat) (op : Op)
  | lin (id : Nat)
  | res (id : Nat) (ret : Ret)

/-- The operations invoked, with their identities. -/
def calls : List (Event Op Ret) → List (Nat × Op)
  | [] => []
  | .inv id op :: E => (id, op) :: calls E
  | .lin _ :: E | .res _ _ :: E => calls E

/-- The operations answered, with what they returned. -/
def results : List (Event Op Ret) → List (Nat × Ret)
  | [] => []
  | .res id ret :: E => (id, ret) :: results E
  | .lin _ :: E | .inv _ _ :: E => results E

/-- The identities that took effect, in order. -/
def lins : List (Event Op Ret) → List Nat
  | [] => []
  | .lin id :: E => id :: lins E
  | .inv _ _ :: E | .res _ _ :: E => lins E

/-- Events the clients see. -/
def Event.visible : Event Op Ret → Bool
  | .lin _ => false
  | .inv _ _ | .res _ _ => true

/-- What clients see of a run. -/
def history (E : List (Event Op Ret)) : List (Event Op Ret) := E.filter Event.visible

/-- **`S` is a linearization of the history `H`.**  The last field is on prefixes of `H`:
if `a` has responded where `b` has not been invoked, `a` comes first. -/
structure Linearizes (O : SeqObject σ Op Ret) (H : List (Event Op Ret))
    (S : List (Nat × Op × Ret)) : Prop where
  unique : (S.map Prod.fst).Nodup
  legal : O.Legal O.init S
  invoked : ∀ e ∈ S, .inv e.1 e.2.1 ∈ H
  completed : ∀ id ret, .res id ret ∈ H → ∃ op, (id, op, ret) ∈ S
  realTime : ∀ a b, a ∈ S.map Prod.fst → b ∈ S.map Prod.fst →
    (∃ H₁, H₁ <+: H ∧ (∃ ret, .res a ret ∈ H₁) ∧ ∀ op, .inv b op ∉ H₁) →
    (S.map Prod.fst).idxOf a < (S.map Prod.fst).idxOf b

/-- The operations of `S` took effect in the run `E`, in this order, each between its
invocation and its response. -/
structure Points (O : SeqObject σ Op Ret) (E : List (Event Op Ret))
    (S : List (Nat × Op × Ret)) : Prop where
  order : S.map Prod.fst = lins E
  unique : (lins E).Nodup
  legal : O.Legal O.init S
  invoked : ∀ e ∈ S, .inv e.1 e.2.1 ∈ E
  after_inv : ∀ E₁ id, E₁ ++ [.lin id] <+: E → ∃ op, .inv id op ∈ E₁
  before_res : ∀ E₁ id ret, E₁ ++ [.res id ret] <+: E → id ∈ lins E₁ ∧ ∃ op, (id, op, ret) ∈ S

theorem lins_append (E E' : List (Event Op Ret)) : lins (E ++ E') = lins E ++ lins E' := by
  induction E with
  | nil => rfl
  | cons e E ih =>
    cases e with
    | lin id => rw [List.cons_append, lins, lins, ih, List.cons_append]
    | inv id op => rw [List.cons_append, lins, lins, ih]
    | res id ret => rw [List.cons_append, lins, lins, ih]

theorem calls_append (E E' : List (Event Op Ret)) : calls (E ++ E') = calls E ++ calls E' := by
  induction E with
  | nil => rfl
  | cons e E ih =>
    cases e with
    | inv id op => rw [List.cons_append, calls, calls, ih, List.cons_append]
    | lin id => rw [List.cons_append, calls, calls, ih]
    | res id ret => rw [List.cons_append, calls, calls, ih]

theorem mem_calls {E : List (Event Op Ret)} {id : Nat} {op : Op} :
    (id, op) ∈ calls E ↔ .inv id op ∈ E := by
  induction E with
  | nil => simp [calls]
  | cons e E ih => cases e <;> simp [calls, ih]

theorem mem_results {E : List (Event Op Ret)} {id : Nat} {ret : Ret} :
    (id, ret) ∈ results E ↔ .res id ret ∈ E := by
  induction E with
  | nil => simp [results]
  | cons e E ih => cases e <;> simp [results, ih]

theorem calls_history (E : List (Event Op Ret)) : calls (history E) = calls E := by
  induction E with
  | nil => rfl
  | cons e E ih =>
    cases e with
    | inv id op => exact congrArg (List.cons _) ih
    | lin id => exact ih
    | res id ret => exact ih

theorem mem_lins_iff {E : List (Event Op Ret)} {id : Nat} : id ∈ lins E ↔ .lin id ∈ E := by
  induction E with
  | nil => simp [lins]
  | cons e E ih => cases e <;> simp [lins, ih]

/-- An element of a list ends a prefix of it. -/
theorem prefix_of_mem {α : Type} {l : List α} {x : α} (h : x ∈ l) :
    ∃ l₁, l₁ ++ [x] <+: l ∧ l₁ <+: l := by
  obtain ⟨l₁, l₂, rfl⟩ := List.append_of_mem h
  exact ⟨l₁, ⟨l₂, by simp⟩, ⟨x :: l₂, rfl⟩⟩

/-- **The method of linearization points.** -/
theorem Points.linearizes {O : SeqObject σ Op Ret} {E : List (Event Op Ret)}
    {S : List (Nat × Op × Ret)} (h : Points O E S) : Linearizes O (history E) S where
  unique := h.order ▸ h.unique
  legal := h.legal
  invoked := fun e he => List.mem_filter.mpr ⟨h.invoked e he, rfl⟩
  completed := by
    intro id ret hres
    obtain ⟨E₁, hE₁, -⟩ := prefix_of_mem (List.mem_filter.mp hres).1
    exact (h.before_res E₁ id ret hE₁).2
  realTime := by
    rintro a b - hb ⟨H₁, ⟨H₂, hH⟩, ⟨ret, hres⟩, hinv⟩
    obtain ⟨E₁, E₂, rfl, rfl, rfl⟩ := List.filter_eq_append_iff.mp hH.symm
    -- `a` took effect in the prefix, `b` did not
    have ha : a ∈ lins E₁ := by
      obtain ⟨E', hE', hpre⟩ := prefix_of_mem (List.mem_filter.mp hres).1
      have := (h.before_res E' a ret (hE'.trans ⟨E₂, rfl⟩)).1
      obtain ⟨E'', rfl⟩ := hpre
      rw [lins_append]
      exact List.mem_append_left _ this
    have hb' : b ∉ lins E₁ := by
      intro hmem
      obtain ⟨E', hE', hpre⟩ := prefix_of_mem (mem_lins_iff.mp hmem)
      obtain ⟨op, hop⟩ := h.after_inv E' b (hE'.trans ⟨E₂, rfl⟩)
      exact hinv op (List.mem_filter.mpr ⟨hpre.subset hop, rfl⟩)
    rw [h.order, lins_append] at hb ⊢
    rw [List.idxOf_append_of_mem ha, List.idxOf_append_of_notMem hb']
    exact Nat.lt_of_lt_of_le (List.idxOf_lt_length_of_mem ha) (Nat.le_add_right _ _)

/-! ## Extending a run by one event -/

namespace Points
variable {O : SeqObject σ Op Ret} {E : List (Event Op Ret)} {S : List (Nat × Op × Ret)}

theorem nil (O : SeqObject σ Op Ret) : Points O [] [] where
  order := rfl
  unique := List.nodup_nil
  legal := trivial
  invoked := fun _ h => by cases h
  after_inv := fun E₁ id h => by simp at h
  before_res := fun E₁ id ret h => by simp at h

/-- A prefix of a list extended by one element ends there or earlier. -/
theorem prefix_concat_cases {α : Type} {l l₁ : List α} {x y : α} (h : l₁ ++ [x] <+: l ++ [y]) :
    (l₁ = l ∧ x = y) ∨ l₁ ++ [x] <+: l := by
  rcases List.prefix_concat_iff.mp h with he | hp
  · exact Or.inl ⟨(List.append_inj' he rfl).1, by simpa using (List.append_inj' he rfl).2⟩
  · exact Or.inr hp

theorem concat_inv (h : Points O E S) (id : Nat) (op : Op) : Points O (E ++ [.inv id op]) S where
  order := by rw [lins_append]; simpa [lins] using h.order
  unique := by rw [lins_append]; simpa [lins] using h.unique
  legal := h.legal
  invoked := fun e he => List.mem_append_left _ (h.invoked e he)
  after_inv := by
    intro E₁ id' hp
    rcases prefix_concat_cases hp with ⟨-, he⟩ | hp
    · cases he
    · exact h.after_inv E₁ id' hp
  before_res := by
    intro E₁ id' ret hp
    rcases prefix_concat_cases hp with ⟨-, he⟩ | hp
    · cases he
    · exact h.before_res E₁ id' ret hp

/-- An operation takes effect: it was invoked, has not taken effect, and returns what the
object returns now. -/
theorem concat_lin (h : Points O E S) {id : Nat} {op : Op} (hinv : .inv id op ∈ E)
    (hnew : id ∉ lins E) :
    Points O (E ++ [.lin id]) (S ++ [(id, op, (O.apply (O.final O.init S) op).2)]) where
  order := by rw [List.map_append, lins_append, h.order]; rfl
  unique := by
    rw [lins_append]
    exact List.Nodup.append h.unique (List.nodup_singleton _)
      (List.disjoint_singleton.mpr hnew)
  legal := (O.legal_concat S _ O.init).mpr ⟨h.legal, rfl⟩
  invoked := by
    intro e he
    rcases List.mem_append.mp he with he | he
    · exact List.mem_append_left _ (h.invoked e he)
    · rw [List.mem_singleton.mp he]
      exact List.mem_append_left _ hinv
  after_inv := by
    intro E₁ id' hp
    rcases prefix_concat_cases hp with ⟨rfl, he⟩ | hp
    · cases he; exact ⟨op, hinv⟩
    · exact h.after_inv E₁ id' hp
  before_res := by
    intro E₁ id' ret hp
    rcases prefix_concat_cases hp with ⟨-, he⟩ | hp
    · cases he
    · obtain ⟨h1, op', h2⟩ := h.before_res E₁ id' ret hp
      exact ⟨h1, op', List.mem_append_left _ h2⟩

theorem concat_res (h : Points O E S) {id : Nat} {op : Op} {ret : Ret} (hS : (id, op, ret) ∈ S) :
    Points O (E ++ [.res id ret]) S where
  order := by rw [lins_append]; simpa [lins] using h.order
  unique := by rw [lins_append]; simpa [lins] using h.unique
  legal := h.legal
  invoked := fun e he => List.mem_append_left _ (h.invoked e he)
  after_inv := by
    intro E₁ id' hp
    rcases prefix_concat_cases hp with ⟨-, he⟩ | hp
    · cases he
    · exact h.after_inv E₁ id' hp
  before_res := by
    intro E₁ id' ret' hp
    rcases prefix_concat_cases hp with ⟨rfl, he⟩ | hp
    · cases he
      exact ⟨h.order ▸ List.mem_map.mpr ⟨_, hS, rfl⟩, op, hS⟩
    · exact h.before_res E₁ id' ret' hp

end Points
end Linearization
