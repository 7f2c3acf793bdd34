import HeapShape.Heap.Fold
import HeapShape.Heap.Reachable

/-!
# Widening

At the head of a loop a heap is brought to one of few shapes, by folding what no variable
holds. The locations that variables hold are *cuts*. They stay as they are. Below them, in
the order of the variables, cells are folded into summaries, which end at cuts. Where a
cell cannot be folded it stays, and folding goes on below it. A segment whose hole is not
a cut any more is extended through it. In the end, what the variables do not lead to is
forgotten.

* `Heap.extend`: moves the hole of a segment forward;
* `Heap.widen`: the widened heap.
-/

namespace HeapShape

namespace Heap

/-- Set the hole of the summary at a location, if there is one. -/
def setHole (h : Heap) (loc : Loc) (hole : Option Hole) : Heap :=
  match h.summary? loc with
  | some s => h.write loc (.occupied (.summary { s with hole }))
  | none => h

theorem factCount_setHole_le (h : Heap) (loc : Loc) (hole : Option Hole) :
    (h.setHole loc hole).factCount ≤ h.factCount := by
  unfold setHole
  split
  · rename_i s hs
    exact Nat.le_of_eq (Nat.succ.inj (Arena.count_write_of_occupied (slot_of_summary? hs) _))
  · exact Nat.le_refl _

/-- Take what a segment goes on with out of the heap: the structure at the location where
    its hole is. The result is nothing if it does not go on as the segment does. -/
def takeRest (h : Heap) (structs : Structs) (cuts : List Loc) (s : Summary) (next : Loc)
    (params : Params) : Except Misuse (Option (Summary × Heap)) :=
  match h.slot next with
  | .occupied (.cell _) =>
    match h.gather structs next s.pred (some params) cuts with
    | .ok r => .ok (some r)
    | .error (.mismatch _) => .ok none
    | .error (.misuse m) => .error m
  | .occupied (.summary rest) =>
    if rest.pred = s.pred ∧ rest.ty = s.ty ∧ rest.params = params then
      .ok (some (rest, h.write next .vacant))
    else
      .ok none
  | _ => .ok none

theorem factCount_takeRest_lt {h h' : Heap} {structs : Structs} {cuts : List Loc} {s rest : Summary}
    {next : Loc} {params : Params}
    (ht : h.takeRest structs cuts s next params = .ok (some (rest, h'))) :
    h'.factCount < h.factCount := by
  unfold takeRest at ht
  split at ht
  · split at ht
    · rename_i r hg
      simp only [Except.ok.injEq, Option.some.injEq] at ht
      exact factCount_gather_lt (ht ▸ hg)
    · simp at ht
    · simp at ht
  · rename_i inner hs
    split at ht
    · simp only [Except.ok.injEq, Option.some.injEq, Prod.mk.injEq] at ht
      exact ht.2 ▸ factCount_write_lt hs rfl
    · simp at ht
  · simp at ht

/-- Move the hole of the segment at a location forward while it is at no cut. -/
def extend (h : Heap) (structs : Structs) (cuts : List Loc) (loc : Loc) : Except Misuse Heap :=
  match h.summary? loc with
  | some s =>
    match s.hole with
    | some ⟨.ptr next, params⟩ =>
      if next = loc ∨ next ∈ cuts then .ok h
      else
        match _ht : h.takeRest structs cuts s next params with
        | .ok (some (rest, h')) => (h'.setHole loc rest.hole).extend structs cuts loc
        | .ok none => .ok h
        | .error m => .error m
    | _ => .ok h
  | none => .ok h
  termination_by h.factCount
  decreasing_by
    exact Nat.lt_of_le_of_lt (factCount_setHole_le ..) (factCount_takeRest_lt _ht)

/-- Fold a cell into the first predicate that it can be folded into. -/
def foldFirst (h : Heap) (structs : Structs) (cuts : List Loc) (loc : Loc) :
    List Predicate → Except Misuse (Option Heap)
  | [] => .ok none
  | p :: ps =>
    match h.fold structs (.ptr loc) p none cuts with
    | .ok (h, _) => .ok (some h)
    | .error (.mismatch _) => h.foldFirst structs cuts loc ps
    | .error (.misuse m) => .error m

/-- The locations below a cell where folding goes on. -/
def below (c : Cell) (cuts : List Loc) : List Loc :=
  (c.fields.filterMap Value.loc?).filter (· ∉ cuts)

/-- Widen at one location: the heap, and the locations where folding goes on. -/
def widenAt (h : Heap) (structs : Structs) (cuts : List Loc) (loc : Loc) :
    Except Misuse (Heap × List Loc) :=
  match h.slot loc with
  | .occupied (.cell c) => do
    let folded ← if loc ∈ cuts then .ok none
      else h.foldFirst structs cuts loc (Predicate.candidates structs c.ty)
    match folded with
    | some h => return (← h.extend structs cuts loc, [])
    | none => return (h, below c cuts)
  | .occupied (.summary _) => do
    return (← h.extend structs cuts loc, [])
  | _ => .ok (h, [])

/-- Widen at waiting locations, depth first, each one once. -/
def widenAll (structs : Structs) (cuts : List Loc) (h : Heap) (unseen waiting : List Loc) :
    Except Misuse Heap :=
  match waiting with
  | [] => .ok h
  | loc :: waiting =>
    if loc ∈ unseen then
      match h.widenAt structs cuts loc with
      | .ok (h, new) => widenAll structs cuts h (unseen.erase loc) (new ++ waiting)
      | .error m => .error m
    else
      widenAll structs cuts h unseen waiting
  termination_by (unseen.length, waiting.length)
  decreasing_by
    · have hpos := List.length_pos_of_mem ‹loc ∈ unseen›
      exact Prod.Lex.left _ _ (by rw [List.length_erase_of_mem ‹loc ∈ unseen›]; omega)
    · exact Prod.Lex.right _ (by simp)

/-- The locations that were given out. -/
def locs (h : Heap) : List Loc := (List.range h.size).map Loc.mk

/-- Widen a heap where variables hold some values. -/
def widen (h : Heap) (structs : Structs) (roots : List Value) : Except Misuse Heap := do
  let cuts := roots.filterMap Value.loc?
  let h ← widenAll structs cuts h h.locs cuts
  return h.collect roots

end Heap

end HeapShape
