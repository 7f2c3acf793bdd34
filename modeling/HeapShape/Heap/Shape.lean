import HeapShape.Heap.Reachable

/-!
# The shape of a heap

A heap up to the numbers of its locations and of its nameless sets, as a text. Locations
are named `#0`, `#1`, … in the order in which a search from the variables meets them, and
sets without a name `?0`, `?1`, … in the order in which the facts about these locations
mention them. Two heaps that differ in numbers only have the same shape, so a loop comes
back to a heap that it was at before when it comes back to its shape.

* `Naming`: the names of locations and sets;
* `Heap.shape`: the text.
-/

namespace HeapShape

/-- The order that locations and nameless sets are named by. -/
structure Naming where
  /-- The locations in the order of their names. -/
  locs : List Loc
  /-- The sets without a name, in the order of the names that they are given. -/
  sets : List SetVar

namespace Naming

/-- The name of a location, by its place. -/
def place (i : Nat) : String := "#" ++ toString i

/-- The name of a location, if it has one. -/
def loc? (n : Naming) (loc : Loc) : Option String := (n.locs.idxOf? loc).map place

/-- The name of a set without a name, if it is given one. -/
def set? (n : Naming) (v : SetVar) : Option String :=
  (n.sets.idxOf? v).map fun i => "?" ++ toString i

/-- How a value is named. -/
def value (n : Naming) : Value → String
  | .null => "null"
  | .int => "int"
  | .ptr loc => (n.loc? loc).getD ""

end Naming

namespace Heap

/-- The sets without a name that the facts at some locations mention, each once. -/
def anonymous (h : Heap) (locs : List Loc) : List SetVar :=
  let mentioned := locs.flatMap fun loc => (h.fact? loc).toList.flatMap Fact.sets
  ((mentioned.map h.sets.resolve).filter fun v => !h.sets.isDeclared v).eraseDups

/-- The names for what some values lead to. -/
def naming (h : Heap) (roots : List Value) : Naming :=
  let locs := h.reach roots
  ⟨locs, h.anonymous locs⟩

/-- The name of the representative of a set, if it has one or is given one. -/
def setName? (h : Heap) (n : Naming) (v : SetVar) : Option String :=
  h.sets.nameOf? v <|> n.set? (h.sets.resolve v)

/-- How parameters are named. -/
def paramsShape (h : Heap) (n : Naming) (p : Params) : String :=
  "[" ++ ",".intercalate (p.ptrs.map n.value) ++ "|" ++
    ",".intercalate (p.sets.map fun v => (h.setName? n v).getD "") ++ "]"

/-- How the state of a location is described. -/
def slotShape (h : Heap) (n : Naming) : Slot → String
  | .vacant => "opaque"
  | .tombstone => "freed"
  | .occupied (.member set ty) => "member " ++ ty.text ++ " of " ++ (h.setName? n set).getD ""
  | .occupied (.cell c) => c.ty.text ++ "\x7b" ++ ",".intercalate (c.fields.map n.value) ++ "\x7d"
  | .occupied (.summary s) =>
    let hole := match s.hole with
      | some o => " ~> " ++ n.value o.value ++ h.paramsShape n o.params
      | none => ""
    s.pred.name ++ ":" ++ s.ty.text ++ h.paramsShape n s.params ++ hole

/-- The shape of what some named values lead to: the values, the locations in order, and
    the constraints between sets that are named. -/
def shape (h : Heap) (roots : List (String × Value)) : String :=
  let n := h.naming (roots.map Prod.snd)
  let values := roots.map fun (var, v) => var ++ "=" ++ n.value v ++ " "
  let slots := n.locs.zipIdx.map fun (loc, i) =>
    "| " ++ Naming.place i ++ ": " ++ h.slotShape n (h.slot loc) ++ " "
  let constraints := h.sets.render (h.setName? n) n.loc?
  String.join values ++ String.join slots ++ "| " ++ ", ".intercalate constraints

end Heap

end HeapShape
