import HeapShape.Defect
import HeapShape.Instance

/-!
# Unfolding

A summary whose root is not null is a cell with smaller summaries below it. For a segment
there is one such heap for each successor that its hole can be below. A case in which the
set of nodes has no element is left out: no heap at all means that the root is null.

* `Heap.unfoldCase`: one case;
* `Heap.unfold`: all cases.
-/

namespace HeapShape

namespace Summary

/-- The successors that the hole can be below: none is chosen for a full summary. -/
def ways (s : Summary) (layout : Layout) : List (Option Nat) :=
  if s.isSegment then layout.successors.map some else [none]

/-- What a field of the root holds, if the hole is below the successor `way`. -/
def content (s : Summary) (layout : Layout) (step : Step) (way : Option Nat) (index : Nat)
    (field : FieldDecl) : Content :=
  match layout.part index with
  | .successor => .fact (.summary ⟨s.pred, s.ty, step.succ, if way = some index then s.hole else none⟩)
  | .back => .value (s.params.ptrs.headD .null)
  | .nested pred target => .fact (.summary ⟨pred, target, step.nested, none⟩)
  | .ref target =>
    match step.refs with
    | some set => .fact (.member set target)
    | none => .unknown
  | .plain => Heap.unknownField field

end Summary

namespace Heap

/-- The heap where the summary at a location is a cell, if the hole is below the
    successor `way`. -/
def unfoldCase (h : Heap) (loc : Loc) (s : Summary) (decl : StructDecl) (layout : Layout)
    (way : Option Nat) : Option Heap :=
  let (sets, step?) := s.pred.step loc s.params h.sets
  step?.map fun step =>
    let (fields, h) := { h with sets }.grow (decl.fields.mapIdx (s.content layout step way))
    h.write loc (.occupied (.cell ⟨s.ty, fields⟩))

/-- The heaps where the summary at a location is a cell. -/
def unfold (h : Heap) (structs : Structs) (loc : Loc) : Except Mismatch (List Heap) :=
  match h.summary? loc with
  | none => .error ⟨some loc, .notFolded⟩
  | some s =>
    match structs.decl? s.ty, s.pred.layout? structs s.ty with
    | some decl, some layout => .ok ((s.ways layout).filterMap (h.unfoldCase loc s decl layout))
    | _, _ => .error ⟨some loc, .summaryLayout s.pred s.ty⟩

end Heap

end HeapShape
