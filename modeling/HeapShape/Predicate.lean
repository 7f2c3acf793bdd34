import HeapShape.Program.Types

/-!
# Inductive predicates

The shapes that a data structure can be folded into. A predicate holds of a root
in one of two cases. In the *base case* the root is null. In the *inductive case*
it is a cell whose pointer fields each play one part:

| predicate      | parameters  | inductive case                                              |
|----------------|-------------|-------------------------------------------------------------|
| `list`         | none        | `next` is a `list`                                          |
| `bintreep_o`   | pointer `π` | `p = π`, and `l` and `r` are `bintreep_o` with the root     |
| `graphc`       | sets `F, E` | `F` is the root and `F'`, `next` is a `graphc` of `F', E`, `edges` is a `graphc_edges` of `E` |
| `graphc_edges` | set `E`     | `next` is a `graphc_edges` of `E`, `dest` is null or in `E` |

The base case of `graphc` requires moreover that `F` is empty.

* `Predicate.layout?`: the parts that the fields of a structure play, if the
  structure has exactly the pointer fields that the predicate speaks of;
* `Predicate.candidates`: the predicates that a structure is laid out for.
-/

namespace HeapShape

/-- An inductive predicate of the catalog. -/
inductive Predicate where
  /-- A list. -/
  | list
  /-- A binary tree with pointers to the parent. -/
  | tree
  /-- A list of graph nodes, each with its edges. -/
  | graph
  /-- The edges of a graph node. -/
  | edges
  deriving DecidableEq, Inhabited

/-- The parameters of a predicate, and the parts of the fields by name. -/
structure Signature where
  /-- The name of the predicate. -/
  name : String
  /-- The number of pointer parameters. -/
  ptrArity : Nat
  /-- The number of set parameters. -/
  setArity : Nat
  /-- The fields that hold an instance of the same predicate. -/
  successors : List String
  /-- The field that equals the first pointer parameter. -/
  back : Option String
  /-- The fields that hold an instance of another predicate. -/
  nested : List (String × Predicate)
  /-- The fields that are null or point into the first set parameter. -/
  refs : List String

/-- The parts that the fields of a structure play for a predicate, by place. -/
structure Layout where
  /-- The fields that hold an instance of the same predicate. -/
  successors : List Nat
  /-- The field that equals the first pointer parameter. -/
  back : Option Nat
  /-- The fields that hold an instance of another predicate, with it and with
      the structure they point to. -/
  nested : List (Nat × Predicate × StructId)
  /-- The fields that do not own what they point to, with its structure. -/
  refs : List (Nat × StructId)
  deriving DecidableEq

/-- The part of one field. -/
inductive Layout.Part where
  /-- An instance of the same predicate. -/
  | successor
  /-- The first pointer parameter. -/
  | back
  /-- An instance of another predicate. -/
  | nested (pred : Predicate) (target : StructId)
  /-- A pointer into the first set parameter. -/
  | ref (target : StructId)
  /-- None. -/
  | plain
  deriving DecidableEq

/-- The part of the field at a place. -/
def Layout.part (layout : Layout) (index : Nat) : Layout.Part :=
  if layout.successors.contains index then .successor
  else if layout.back = some index then .back
  else match layout.nested.find? (·.1 = index) with
    | some (_, pred, target) => .nested pred target
    | none => match layout.refs.find? (·.1 = index) with
      | some (_, target) => .ref target
      | none => .plain

namespace Predicate

/-- What each predicate asks for. -/
def signature : Predicate → Signature
  | .list => ⟨"list", 0, 0, ["next"], none, [], []⟩
  | .tree => ⟨"bintreep_o", 1, 0, ["l", "r"], some "p", [], []⟩
  | .graph => ⟨"graphc", 0, 2, ["next"], none, [("edges", .edges)], []⟩
  | .edges => ⟨"graphc_edges", 0, 1, ["next"], none, [], ["dest"]⟩

/-- The name of a predicate. -/
def name (p : Predicate) : String := p.signature.name

/-- The catalog. -/
def all : List Predicate := [.list, .tree, .graph, .edges]

/-- The predicate with a name. -/
def ofName? (name : String) : Option Predicate := all.find? (·.name = name)

/-- The number of pointer fields that a predicate speaks of. -/
def fieldCount (p : Predicate) : Nat :=
  p.signature.successors.length + p.signature.back.toList.length + p.signature.nested.length +
    p.signature.refs.length

/-- The place of a pointer field to the structure itself. -/
def selfField? (decl : StructDecl) (ty : StructId) (name : String) : Option Nat := do
  let (index, target) ← decl.pointer? name
  if target = ty then some index else none

/-- The parts of the fields of a structure, where `fits` tells which structures
    the nested fields may point to. -/
def layoutBy (fits : Predicate → StructId → Bool) (structs : Structs) (p : Predicate)
    (ty : StructId) : Option Layout := do
  let decl ← structs.decl? ty
  let successors ← p.signature.successors.mapM (selfField? decl ty)
  let back ← p.signature.back.mapM (selfField? decl ty)
  let nested ← p.signature.nested.mapM fun (name, q) => do
    let (index, target) ← decl.pointer? name
    if fits q target then some (index, q, target) else none
  let refs ← p.signature.refs.mapM decl.pointer?
  if decl.pointerCount = p.fieldCount then some ⟨successors, back, nested, refs⟩ else none

/-- The parts that the fields of a structure play: successor and back fields point
    to the structure itself, nested fields to a structure laid out for their own
    predicate, and no other field is a pointer. A nested predicate has no nested
    fields in turn. -/
def layout? (p : Predicate) (structs : Structs) (ty : StructId) : Option Layout :=
  layoutBy (fun q target => (layoutBy (fun _ _ => false) structs q target).isSome) structs p ty

/-- The predicates that a structure is laid out for, those with more fields first. -/
def candidates (structs : Structs) (ty : StructId) : List Predicate :=
  [.tree, .graph, .edges, .list].filter fun p => (p.layout? structs ty).isSome

end Predicate

end HeapShape
