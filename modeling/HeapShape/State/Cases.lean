import HeapShape.Heap.Unfold
import HeapShape.State.Exec

/-!
# The cases of a pointer

What a pointer points to may be folded, and it may be null. To use it, the cases are
taken apart. A full summary is empty, and its root null, or it unfolds into a cell. A
segment is empty, and its root the hole, or it unfolds into a cell for each successor that
the hole can be below.

* `State.discharge`: a full summary is empty;
* `State.closeSegment`: a segment is empty. This takes away a fact
  (`State.factCount_closeSegment_lt`), so the search through segments ends;
* `State.materialize`: the cases where a pointer points to a cell;
* `State.testNull`: the cases where a pointer is null, and those where it is not.
-/

namespace HeapShape

namespace State

/-! ### Empty summaries -/

/-- The full summary at a location is empty, so the location is null. -/
def discharge (s : State) (loc : Loc) (sum : Summary) : Option State :=
  let heap := s.heap.write loc .vacant
  (sum.pred.baseCase sum.params heap.sets).map fun sets => { s with heap := { heap with sets } }.subst loc .null

/-- Assume that the sets of each pair are equal. -/
def equateSets : SetStore → List (SetVar × SetVar) → Except Misuse SetStore
  | sets, [] => .ok sets
  | sets, (a, b) :: l => do equateSets (← sets.equate a b) l

/-- The segment at a location is empty, so the location is the hole, and the parameters are
    those of the hole. -/
def closeSegment (s : State) (loc : Loc) (sum : Summary) (o : Hole) : Except Misuse (Option State) := do
  let closed := { s with heap := s.heap.write loc .vacant }.subst loc o.value
  let pairs := (sum.params.ptrs.zip o.params.ptrs).map fun (a, b) =>
    (a.subst loc o.value, b.subst loc o.value)
  match ← closed.equateAll pairs with
  | none => return none
  | some s =>
    let sets ← equateSets s.heap.sets (sum.params.sets.zip o.params.sets)
    return some { s with heap := { s.heap with sets } }

theorem closeSegment_eq_some {s s' : State} {loc : Loc} {sum : Summary} {o : Hole}
    (h : s.closeSegment loc sum o = .ok (some s')) :
    ∃ s₁ sets, (s.emptied loc o.value).equateAll ((sum.params.ptrs.zip o.params.ptrs).map fun q =>
        (q.1.subst loc o.value, q.2.subst loc o.value)) = .ok (some s₁) ∧
      s' = { s₁ with heap := { s₁.heap with sets } } := by
  obtain ⟨r, he, h⟩ := ok_of_bind h
  rcases r with _ | s₁
  · cases h
  · obtain ⟨sets, -, h⟩ := ok_of_bind h
    cases h
    exact ⟨s₁, sets, he, rfl⟩

theorem factCount_closeSegment_lt {s s' : State} {loc : Loc} {sum : Summary} {o : Hole}
    (hs : s.heap.slot loc = .occupied (.summary sum))
    (h : s.closeSegment loc sum o = .ok (some s')) : s'.heap.factCount < s.heap.factCount := by
  obtain ⟨s₁, sets, he, rfl⟩ := closeSegment_eq_some h
  have h₁ := factCount_equateAll_le he
  exact Nat.lt_of_le_of_lt h₁ (factCount_emptied_lt hs)

/-! ### Cells -/

/-- The states where the summary at a location, of the given predicate, is taken apart. If
    there is no case with a cell, a full summary is empty. -/
def unfold (s : State) (structs : Structs) (loc : Loc) (pred : Predicate) : Except Defect (List State) :=
  match s.heap.slot loc with
  | .occupied (.summary sum) =>
    if sum.pred ≠ pred then .error (.mismatchAt loc (.otherPredicate pred sum.pred))
    else match s.heap.unfold structs loc with
      | .error m => .error (.mismatch m)
      | .ok heaps =>
        let cells := heaps.map fun heap => { s with heap }
        match sum.hole with
        | some o =>
          match s.closeSegment loc sum o with
          | .ok closed => .ok (cells ++ closed.toList)
          | .error m => .error (.misuse m)
        | none => .ok (if cells.isEmpty then (s.discharge loc sum).toList else cells)
  | _ => .error (.mismatchAt loc (.notFoldedInto pred))

/-- The cases where a value points to a cell, which is its location. -/
def materialize (structs : Structs) (s : State) (value : Value) : Outcomes Loc :=
  match value with
  | .null => [(s, .error .nullDeref)]
  | .int => [(s, .error (.mismatchOf .derefScalar))]
  | .ptr loc =>
    match _hs : s.heap.slot loc with
    | .occupied (.cell _) => [(s, .ok loc)]
    | .tombstone => [(s, .error (.useAfterFree loc))]
    | .vacant => [(s, .error (.mismatchAt loc .derefUnknown))]
    | .occupied (.member ..) => [(s, .error (.mismatchAt loc .writeShared))]
    | .occupied (.summary sum) =>
      match s.heap.unfold structs loc with
      | .error m => [(s, .error (.mismatch m))]
      | .ok heaps =>
        let cells := heaps.map fun heap => ({ s with heap }, .ok loc)
        match sum.hole with
        | some o =>
          match _hc : s.closeSegment loc sum o with
          | .ok (some closed) => cells ++ closed.materialize structs o.value
          | .ok none => cells
          | .error m => cells ++ [(s, .error (.misuse m))]
        | none =>
          match s.discharge loc sum with
          | some base => cells ++ [(base, .error .nullDeref)]
          | none => cells
  termination_by s.heap.factCount
  decreasing_by exact factCount_closeSegment_lt _hs _hc

/-- The cases where a value is null, and those where it is not. -/
def testNull (structs : Structs) (s : State) (value : Value) : Outcomes Bool :=
  match value with
  | .null => [(s, .ok true)]
  | .int => [(s, .error (.mismatchOf .testScalar))]
  | .ptr loc =>
    match _hs : s.heap.slot loc with
    | .occupied (.cell _) | .tombstone => [(s, .ok false)]
    | .vacant | .occupied (.member ..) =>
      match s.setNull loc with
      | .ok null => [(null, .ok true), (s, .ok false)]
      | .error m => [(s, .error (.misuse m))]
    | .occupied (.summary sum) =>
      match s.heap.unfold structs loc with
      | .error m => [(s, .error (.mismatch m))]
      | .ok heaps =>
        let cells := heaps.map fun heap => ({ s with heap }, .ok false)
        match sum.hole with
        | some o =>
          match _hc : s.closeSegment loc sum o with
          | .ok (some closed) => closed.testNull structs o.value ++ cells
          | .ok none => cells
          | .error m => [(s, .error (.misuse m))]
        | none =>
          match s.discharge loc sum with
          | some base => (base, .ok true) :: cells
          | none => cells
  termination_by s.heap.factCount
  decreasing_by exact factCount_closeSegment_lt _hs _hc

end State

end HeapShape
