import HeapShape.Heap

/-!
# The two cases of a predicate

What the base case and the inductive case of a predicate ask of sets, and which
parameters the instances below a root have. Both only speak of set constraints: which
fields of a record hold which instance is the layout of the predicate.

* `Predicate.baseCase`: the instance is empty. A `graphc` has no nodes then;
* `Predicate.step`: the instance has a root. A `graphc` takes it out of its set of nodes,
  along the split that is recorded for it if there is one.
-/

namespace HeapShape

/-- The parameters of the instances below a root. -/
structure Step where
  /-- Those of the instances of the same predicate. -/
  succ : Params
  /-- Those of the instances of another predicate. -/
  nested : Params
  /-- The set that references point into. -/
  refs : Option SetVar
  deriving DecidableEq

/-- Take an element out of a set: what is left by the split that is recorded, or a new
    variable for it. There is no such split of a set that is known to be empty. -/
def SetStore.takeOut (s : SetStore) (whole : SetVar) (elem : Loc) : SetStore × Option SetVar :=
  match s.splitOf? whole elem with
  | some rest => (s, some rest)
  | none =>
    let (rest, s) := s.fresh
    match s.addSplit? whole elem rest with
    | some s => (s, some rest)
    | none => (s, none)

namespace Predicate

/-- The parameters below a root, in a store where it is taken out of the set of nodes.
    There are none if that set is known to be empty, or if parameters are missing. -/
def step (p : Predicate) (root : Loc) (params : Params) (s : SetStore) : SetStore × Option Step :=
  match p, params.sets with
  | .list, _ => (s, some ⟨.none, .none, none⟩)
  | .tree, _ => (s, some ⟨⟨[.ptr root], []⟩, .none, none⟩)
  | .graph, nodes :: targets :: _ =>
    let (s, rest?) := s.takeOut nodes root
    (s, rest?.map fun rest => ⟨⟨[], [rest, targets]⟩, ⟨[], [targets]⟩, none⟩)
  | .graph, _ => (s, none)
  | .edges, targets :: _ => (s, some ⟨⟨[], [targets]⟩, .none, some targets⟩)
  | .edges, [] => (s, none)

/-- The store where an instance is empty, unless it is known not to be. -/
def baseCase (p : Predicate) (params : Params) (s : SetStore) : Option SetStore :=
  match p, params.sets with
  | .graph, nodes :: _ => s.setEmpty? nodes
  | .graph, [] => none
  | _, _ => some s

end Predicate

end HeapShape
