import HeapShape.Heap

/-!
# What a heap reaches

The locations that some values lead to through the facts of a heap. What no variable
leads to can never be used again, so it may be forgotten.

* `Heap.reach`: the locations in the order in which a search breadth first meets them;
* `Heap.collect`: the heap without what the given values do not lead to.
-/

namespace HeapShape

namespace Heap

/-- The pairs of a location and one that its fact mentions. -/
def links (h : Heap) : List (Loc × Loc) :=
  h.facts.flatMap fun (loc, f) => f.locs.map fun next => (loc, next)

/-- The locations that some values lead to, in the order in which they are met. -/
def reach (h : Heap) (roots : List Value) : List Loc :=
  Reach.closure h.links (roots.filterMap Value.loc?)

/-- The locations that some values lead to, in the order of locations. -/
def reachable (h : Heap) (roots : List Value) : List Loc := Sorted.ofList (h.reach roots)

/-- The heap where only the given locations are known. -/
def keep (h : Heap) (locs : List Loc) : Heap :=
  let arena := h.arena.keep fun i => locs.contains ⟨i⟩
  let vars := arena.values.flatMap fun (_, f) => f.sets
  { arena, sets := h.sets.retain vars locs }

/-- Forget what some values do not lead to: facts, tombstones and constraints. -/
def collect (h : Heap) (roots : List Value) : Heap := h.keep (h.reach roots)

end Heap

end HeapShape
