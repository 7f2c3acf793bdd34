import HeapShape.Proofs.Clearing
import HeapShape.Proofs.Folding

/-!
# Lists and trees of cells

A structure of which every record is known as a cell, at locations that are all different, folds into
an instance of its predicate. The search takes the cells in the order in which they are reached: one
after the other in a list, and in a tree the root, all of the left tree, all of the right tree.

* `Heap.CellList`, `Heap.CellTree`: lists and trees of cells, with their locations in this order;
* `Heap.CellList.clears`, `Heap.CellTree.clears`: a search for them goes through;
* `Heap.Condensed`: a structure gave way to a summary at its root;
* `Heap.check_cells`: lists and trees of cells fold, whether or not the parameters are given.
-/

namespace HeapShape

namespace Heap

/-- A list of cells of one structure, linked by the field `next` and ended by null. -/
inductive CellList (h : Heap) (ty : StructId) (next : Nat) : Value → List Loc → Prop
  | nil : CellList h ty next .null []
  | cons {loc : Loc} {c : Cell} {v : Value} {locs : List Loc} (hs : h.slot loc = .occupied (.cell c))
      (hty : c.ty = ty) (hv : c.fields[next]? = some v) (tail : CellList h ty next v locs) :
      CellList h ty next (.ptr loc) (loc :: locs)

/-- A tree of cells of one structure below a value, where the field `up` of each cell holds its
    parent and that of the root a given value. -/
inductive CellTree (h : Heap) (ty : StructId) (left right up : Nat) : Value → Value → List Loc → Prop
  | empty {parent : Value} : CellTree h ty left right up parent .null []
  | node {parent : Value} {loc : Loc} {c : Cell} {v w : Value} {ls rs : List Loc}
      (hs : h.slot loc = .occupied (.cell c)) (hty : c.ty = ty) (hv : c.fields[left]? = some v)
      (hw : c.fields[right]? = some w) (hup : c.fields[up]? = some parent)
      (ltree : CellTree h ty left right up (.ptr loc) v ls)
      (rtree : CellTree h ty left right up (.ptr loc) w rs) :
      CellTree h ty left right up parent (.ptr loc) (loc :: (ls ++ rs))

/-- The structure at some locations gave way to a summary at its root: the other locations of it
    are opaque, and all else is as it was. -/
structure Condensed (h : Heap) (loc : Loc) (locs : List Loc) (s : Summary) (h' : Heap) : Prop where
  size : h'.size = h.size
  root : h'.slot loc = .occupied (.summary s)
  inner : ∀ k ∈ locs, k ≠ loc → h'.slot k = .vacant
  outer : ∀ k, k ≠ loc → k ∉ locs → h'.slot k = h.slot k

open Folding

variable {structs : Structs} {h : Heap} {ty : StructId} {v parent : Value} {locs : List Loc}
  {s : SetStore} {cfg : Setting} {goals : List Goal} {params : Option Params}

/-- A search for a list goes through the cells of a list. -/
theorem CellList.clears {next : Nat} (hc : h.CellList ty next v locs)
    (hl : Predicate.list.layout? cfg.structs ty = some (Shape.list next).layout) (hstops : cfg.stops = []) :
    Clears cfg h s (.inst v .list ty .none :: goals) locs none s goals := by
  induction hc with
  | nil => exact .null rfl .nil
  | @cons loc c v locs hs hty hv tail ih =>
    subst hty
    have hm : meet cfg.structs s loc (.cell c) .list c.ty .none = .ok (s, [.inst v .list c.ty .none]) := by
      rw [meet, meetCell_list hl, Goal.ofField, hv]
    exact .fact hs (fun _ => hstops ▸ List.not_mem_nil) hm ih

/-- A search for a tree goes through the cells of a tree. -/
theorem CellTree.clears {left right up : Nat} (hc : h.CellTree ty left right up parent v locs)
    (hl : Predicate.tree.layout? cfg.structs ty = some (Shape.tree left right up).layout)
    (hstops : cfg.stops = []) :
    Clears cfg h s (.inst v .tree ty ⟨[parent], []⟩ :: goals) locs none s goals := by
  induction hc generalizing goals with
  | empty => exact .null rfl .nil
  | @node parent loc c v w ls rs hs hty hv hw hup _ _ ihl ihr =>
    subst hty
    have hback : checkBack loc c (Shape.tree left right up).layout ⟨[parent], []⟩ = .ok () := by
      simp [Shape.layout, checkBack, hup]
    have hm : meet cfg.structs s loc (.cell c) .tree c.ty ⟨[parent], []⟩ =
        .ok (s, [.inst v .tree c.ty ⟨[.ptr loc], []⟩, .inst w .tree c.ty ⟨[.ptr loc], []⟩]) := by
      rw [meet, meetCell_tree hl, hback]
      simp only [Goal.ofField, hv, hw, Except.bind]
    -- The right tree waits until all of the left tree is taken.
    exact .fact hs (fun _ => hstops ▸ List.not_mem_nil) hm (ihl.trans ihr (.inl rfl))

theorem condensed_of_slots {h' : Heap} {loc : Loc} {q : Summary} (hsize : h'.size = h.size)
    (hslot : ∀ k, h'.slot k = if k = loc then .occupied (.summary q)
      else if k ∈ locs then .vacant else h.slot k) : h.Condensed loc locs q h' where
  size := hsize
  root := (hslot loc).trans (if_pos rfl)
  inner k hk hne := by rw [hslot, if_neg hne, if_pos hk]
  outer k hne hk := by rw [hslot, if_neg hne, if_neg hk]

/-- A structure without sets that a search goes through becomes a full summary. -/
theorem condensed_of_clears {loc : Loc} {pred : Predicate} {layout : Layout} {ptrs : List Value}
    (ha : checkArity pred params (some loc) = .ok ()) (hty : h.rootStruct loc = .ok ty)
    (hl : pred.layout? structs ty = some layout)
    (hp : h.chooseParams loc pred layout params = .ok (⟨ptrs, []⟩, h.sets))
    (hc : Clears ⟨structs, [], loc, pred⟩ h h.sets [.inst (.ptr loc) pred ty ⟨ptrs, []⟩] locs none h.sets [])
    (hn : locs.Nodup) :
    ∃ h', h.check structs (.ptr loc) pred params = .ok h' ∧ h'.sets = h.sets ∧
      h.Condensed loc locs ⟨pred, ty, ⟨ptrs, []⟩, none⟩ h' := by
  obtain ⟨h', hf, hsize, hsets, hslot⟩ := fold_of_clears ha hty hl hp hc hn
  exact ⟨h', check_of_fold hf, hsets, condensed_of_slots hsize hslot⟩

/-- A list of cells folds without parameters, and a tree of cells with its parent as the parameter
    or without parameters, into a full instance at the root. -/
theorem check_cells (structs : Structs) (h : Heap) :
    (∀ ty next loc locs, Predicate.list.layout? structs ty = some (Shape.list next).layout →
      h.CellList ty next (.ptr loc) locs → locs.Nodup →
      ∃ h', h.check structs (.ptr loc) .list none = .ok h' ∧ h'.sets = h.sets ∧
        h.Condensed loc locs ⟨.list, ty, .none, none⟩ h') ∧
    ∀ ty left right up parent loc locs,
      Predicate.tree.layout? structs ty = some (Shape.tree left right up).layout →
      h.CellTree ty left right up parent (.ptr loc) locs → locs.Nodup →
      ∀ params ∈ [none, some ⟨[parent], []⟩],
        ∃ h', h.check structs (.ptr loc) .tree params = .ok h' ∧ h'.sets = h.sets ∧
          h.Condensed loc locs ⟨.tree, ty, ⟨[parent], []⟩, none⟩ h' := by
  refine ⟨fun ty next loc locs hl hc hn => ?_, fun ty left right up parent loc locs hl hc hn params hp => ?_⟩
  · have hclears : Clears ⟨structs, [], loc, .list⟩ h h.sets [.inst (.ptr loc) .list ty .none] locs none
        h.sets [] := hc.clears hl rfl
    cases hc with
    | cons hs hty hv tail =>
      have hroot : h.rootStruct loc = .ok ty := by rw [rootStruct, hs, ← hty]
      have hparams : h.chooseParams loc .list (Shape.list next).layout none = .ok (.none, h.sets) := by
        rw [chooseParams, inferParams, summary?_of_cell hs]
      exact condensed_of_clears rfl hroot hl hparams hclears hn
  · have hclears : Clears ⟨structs, [], loc, .tree⟩ h h.sets [.inst (.ptr loc) .tree ty ⟨[parent], []⟩]
        locs none h.sets [] := hc.clears hl rfl
    cases hc with
    | node hs hty hv hw hup ltree rtree =>
      have hroot : h.rootStruct loc = .ok ty := by rw [rootStruct, hs, ← hty]
      -- Without parameters the parent is read off the root.
      have hparams : checkArity .tree params (some loc) = .ok () ∧
          h.chooseParams loc .tree (Shape.tree left right up).layout params =
            .ok (⟨[parent], []⟩, h.sets) := by
        rcases List.mem_pair.1 hp with rfl | rfl
        · refine ⟨rfl, ?_⟩
          simp only [chooseParams, inferParams, summary?_of_cell hs, Shape.layout, cell?_of_slot hs, hup,
            Option.bind_some]
        · exact ⟨rfl, rfl⟩
      exact condensed_of_clears hparams.1 hroot hl hparams.2 hclears hn

end Heap

namespace Sample

/-- A table with a structure for lists and a structure for trees. -/
def listAndTree : Structs :=
  [⟨"a", [⟨"next", .ptr ⟨0⟩⟩]⟩, ⟨"b", [⟨"l", .ptr ⟨1⟩⟩, ⟨"r", .ptr ⟨1⟩⟩, ⟨"p", .ptr ⟨1⟩⟩]⟩]

/-- A list of two cells, from the second location to the first, and a tree of three cells whose
    root has a parent that nothing is known of. -/
def orchard : Heap :=
  ⟨.ofSlots [.occupied (.cell ⟨⟨0⟩, [.null]⟩), .occupied (.cell ⟨⟨0⟩, [.ptr ⟨0⟩]⟩),
    .occupied (.cell ⟨⟨1⟩, [.ptr ⟨4⟩, .ptr ⟨3⟩, .ptr ⟨5⟩]⟩),
    .occupied (.cell ⟨⟨1⟩, [.null, .null, .ptr ⟨2⟩]⟩),
    .occupied (.cell ⟨⟨1⟩, [.null, .null, .ptr ⟨2⟩]⟩), .vacant], .empty⟩

theorem orchard_list : orchard.CellList ⟨0⟩ 0 (.ptr ⟨1⟩) [⟨1⟩, ⟨0⟩] :=
  .cons rfl rfl rfl (.cons rfl rfl rfl .nil)

theorem orchard_tree : orchard.CellTree ⟨1⟩ 0 1 2 (.ptr ⟨5⟩) (.ptr ⟨2⟩) [⟨2⟩, ⟨4⟩, ⟨3⟩] :=
  have leaf {k : Loc} (hs : orchard.slot k = .occupied (.cell ⟨⟨1⟩, [.null, .null, .ptr ⟨2⟩]⟩)) :
      orchard.CellTree ⟨1⟩ 0 1 2 (.ptr ⟨2⟩) (.ptr k) [k] := .node hs rfl rfl rfl rfl .empty .empty
  have hs : orchard.slot ⟨2⟩ = .occupied (.cell ⟨⟨1⟩, [.ptr ⟨4⟩, .ptr ⟨3⟩, .ptr ⟨5⟩]⟩) := rfl
  .node hs rfl rfl rfl rfl (leaf rfl) (leaf rfl)

end Sample

/-- The list and the tree of a heap with both fold, and the tree also without its parameter. -/
theorem Heap.check_cells_orchard :
    (∃ h', Sample.orchard.check Sample.listAndTree (.ptr ⟨1⟩) .list none = .ok h' ∧
      h'.sets = Sample.orchard.sets ∧ Sample.orchard.Condensed ⟨1⟩ [⟨1⟩, ⟨0⟩] ⟨.list, ⟨0⟩, .none, none⟩ h') ∧
    ∀ params ∈ [none, some ⟨[.ptr ⟨5⟩], []⟩],
      ∃ h', Sample.orchard.check Sample.listAndTree (.ptr ⟨2⟩) .tree params = .ok h' ∧
        h'.sets = Sample.orchard.sets ∧ Sample.orchard.Condensed ⟨2⟩ [⟨2⟩, ⟨4⟩, ⟨3⟩] ⟨.tree, ⟨1⟩, ⟨[.ptr ⟨5⟩], []⟩, none⟩ h' :=
  ⟨(check_cells Sample.listAndTree Sample.orchard).1 ⟨0⟩ 0 ⟨1⟩ _ rfl Sample.orchard_list (by decide),
    (check_cells Sample.listAndTree Sample.orchard).2 ⟨1⟩ 0 1 2 _ ⟨2⟩ _ rfl Sample.orchard_tree
      (by decide)⟩

end HeapShape
