import HeapShape.Defect
import HeapShape.Heap.Shape

/-!
# States

What is known at a point of a path: a heap, and the type and value of each variable in
scope.

* `State.subst`: a value in the place of a location, wherever it is mentioned;
* `State.equate`: the assumption that two values are equal, by which one takes the place of the
  other (`State.equate_replaces`). It needs no new facts (`State.factCount_equate_le`).
-/

namespace HeapShape

/-- The number of a path. -/
abbrev PathId := Nat

/-- A variable in scope. -/
structure Binding where
  /-- Its type. -/
  ty : Ty
  /-- Its value. -/
  value : Value
  deriving DecidableEq, Inhabited

/-- What is known at a point of a path. -/
structure State where
  /-- The path. -/
  path : PathId
  /-- The heap. -/
  heap : Heap
  /-- The variables in scope. -/
  env : NameMap Binding
  deriving DecidableEq, Inhabited

namespace State

/-- The state at the start of a path. -/
def initial (path : PathId) : State := ⟨path, .empty, .empty⟩

/-! ### Variables -/

/-- The value of a variable. -/
def lookup (s : State) (var : String) : Except Defect Value :=
  match s.env.get? var with
  | some b => .ok b.value
  | none => .error (.undefined var)

/-- Bring a variable into scope. A pointer starts with a new location of which nothing is
    known. -/
def declare (s : State) (var : String) (ty : Ty) : State :=
  match ty with
  | .ptr _ =>
    let (loc, heap) := s.heap.fresh
    { s with heap, env := s.env.insert var ⟨ty, .ptr loc⟩ }
  | .int => { s with env := s.env.insert var ⟨ty, .int⟩ }

/-- Set the value of a variable. -/
def set (s : State) (var : String) (value : Value) : Except Defect State :=
  match s.env.get? var with
  | some b => .ok { s with env := s.env.insert var { b with value } }
  | none => .error (.undefined var)

/-- Take variables out of scope. -/
def kill (s : State) (vars : List String) : State :=
  { s with env := vars.foldl NameMap.erase s.env }

/-- The values of the variables, in the order of their names. -/
def roots (s : State) : List (String × Value) := s.env.entries.map fun (var, b) => (var, b.value)

/-- The shape of what the variables lead to. -/
def shape (s : State) : String := s.heap.shape s.roots

/-! ### Equal values -/

/-- Put a value in the place of a location, in the heap and in the variables. -/
def subst (s : State) (loc : Loc) (w : Value) : State :=
  { s with
    heap := s.heap.subst loc w
    env := s.env.map fun b => { b with value := b.value.subst loc w } }

/-- The state where what was at a location is empty, and the location is another value. -/
def emptied (s : State) (loc : Loc) (w : Value) : State :=
  { s with heap := s.heap.write loc .vacant }.subst loc w

/-- Assume that a location of which no cell is known is null. -/
def setNull (s : State) (loc : Loc) : Except Misuse State := do
  let (_, heap) ← s.heap.take loc
  return { s with heap }.subst loc .null

/-- Assume that two values are equal. The result is nothing if they are not. -/
def equate (s : State) (a b : Value) : Except Misuse (Option State) :=
  if a = b then .ok (some s)
  else match a, b with
    | .null, .ptr loc | .ptr loc, .null =>
      match s.heap.slot loc with
      | .vacant | .occupied (.member ..) => (s.setNull loc).map some
      | _ => .ok none
    | .ptr x, .ptr y =>
      if s.heap.isOpaque x then .ok (some (s.subst x b))
      else if s.heap.isOpaque y then .ok (some (s.subst y a))
      else .ok none
    | _, _ => .ok none

/-- Assume that the values of each pair are equal. -/
def equateAll : State → List (Value × Value) → Except Misuse (Option State)
  | s, [] => .ok (some s)
  | s, (a, b) :: l => do
    match ← s.equate a b with
    | some s => s.equateAll l
    | none => return none

variable {s s' : State} {loc : Loc} {a b w : Value} {p : Value × Value} {l : List (Value × Value)}

theorem setNull_eq_emptied (h : s.setNull loc = .ok s') (hs : s.heap.slot loc ≠ .tombstone) :
    s' = s.emptied loc .null := by
  simp only [setNull, Heap.take, Arena.take, Arena.entry, bind, Except.bind, pure, Except.pure] at h
  by_cases hl : loc.index < s.heap.arena.size
  · rw [if_pos hl] at h
    have hslot : s.heap.arena.slot loc.index = s.heap.slot loc := rfl
    rw [hslot] at h
    cases hs' : s.heap.slot loc with
    | vacant =>
      rw [hs'] at h
      cases h
      rw [emptied, Heap.write_vacant_eq_self hs']
    | tombstone => exact absurd hs' hs
    | occupied f =>
      rw [hs'] at h
      cases h
      rfl
  · rw [if_neg hl] at h
    cases h

/-- Two values are made equal by putting one in the place of the other, which is a location
    of which nothing is known, or a member. -/
theorem equate_replaces (h : s.equate a b = .ok (some s')) :
    s' = s ∨ ∃ k w, s' = s.emptied k w ∧ s.heap.Undetermined k ∧
      ((a = .ptr k ∧ b = w) ∨ (b = .ptr k ∧ a = w)) := by
  have null {k : Loc} (h : (s.setNull k).map some = .ok (some s')) (hk : s.heap.Undetermined k) :
      s' = s.emptied k .null := by
    have hne : s.heap.slot k ≠ .tombstone := by
      intro hs
      rcases hk with hk | ⟨set, ty, hk⟩
      · cases hs.symm.trans hk
      · cases hs.symm.trans hk
    obtain ⟨t, hn, ht⟩ := ok_of_map h
    cases ht
    exact setNull_eq_emptied hn hne
  unfold equate at h
  split at h
  · cases h
    exact .inl rfl
  · split at h
    · split at h
      · exact .inr ⟨_, _, null h (.inl ‹_›), .inl ‹_›, .inr ⟨rfl, rfl⟩⟩
      · exact .inr ⟨_, _, null h (.inr ⟨_, _, ‹_›⟩), .inr ⟨_, _, ‹_›⟩, .inr ⟨rfl, rfl⟩⟩
      · cases h
    · split at h
      · exact .inr ⟨_, _, null h (.inl ‹_›), .inl ‹_›, .inl ⟨rfl, rfl⟩⟩
      · exact .inr ⟨_, _, null h (.inr ⟨_, _, ‹_›⟩), .inr ⟨_, _, ‹_›⟩, .inl ⟨rfl, rfl⟩⟩
      · cases h
    · rename_i x y _
      split at h
      · rename_i hx
        have hx : s.heap.slot x = .vacant := of_decide_eq_true hx
        cases h
        refine .inr ⟨x, .ptr y, ?_, .inl hx, .inl ⟨rfl, rfl⟩⟩
        rw [emptied, Heap.write_vacant_eq_self hx]
      · split at h
        · rename_i hy
          have hy : s.heap.slot y = .vacant := of_decide_eq_true hy
          cases h
          refine .inr ⟨y, .ptr x, ?_, .inl hy, .inr ⟨rfl, rfl⟩⟩
          rw [emptied, Heap.write_vacant_eq_self hy]
        · cases h
    · cases h

theorem equateAll_cons (h : s.equateAll (p :: l) = .ok (some s')) :
    ∃ s₁, s.equate p.1 p.2 = .ok (some s₁) ∧ s₁.equateAll l = .ok (some s') := by
  obtain ⟨r, he, h⟩ := ok_of_bind h
  rcases r with _ | s₁
  · cases h
  · exact ⟨s₁, he, h⟩

theorem factCount_emptied_lt {f : Fact} (hs : s.heap.slot loc = .occupied f) :
    (s.emptied loc w).heap.factCount < s.heap.factCount := by
  simpa [emptied, subst] using Heap.factCount_write_lt hs (s := .vacant) rfl

theorem factCount_equate_le (h : s.equate a b = .ok (some s')) :
    s'.heap.factCount ≤ s.heap.factCount := by
  rcases equate_replaces h with rfl | ⟨k, w, rfl, hk | ⟨set, ty, hk⟩, -⟩
  · exact Nat.le_refl _
  · simp [emptied, Heap.write_vacant_eq_self hk, subst]
  · exact Nat.le_of_lt (factCount_emptied_lt hk)

theorem factCount_equateAll_le (h : s.equateAll l = .ok (some s')) :
    s'.heap.factCount ≤ s.heap.factCount := by
  induction l generalizing s with
  | nil =>
    cases h
    exact Nat.le_refl _
  | cons p l ih =>
    obtain ⟨s₁, he, h⟩ := equateAll_cons h
    exact Nat.le_trans (ih h) (factCount_equate_le he)

end State

end HeapShape
