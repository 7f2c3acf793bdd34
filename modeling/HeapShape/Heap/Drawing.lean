import HeapShape.Heap.Reachable

/-!
# Drawings of heaps

A heap as a graph in the DOT language. Each named value is a node at the top. Each
location that they lead to is a node: a cell is a record with a box for each field, a
summary a box, a member an ellipse, and what is unknown or freed a circle. Pointers are
edges, and null is one point.

* `Drawing.Style`: the choices that a drawing leaves open;
* `Heap.draw`: the text of a drawing.
-/

namespace HeapShape

/-- The choices that a drawing leaves open. -/
structure Drawing.Style where
  /-- The form of the node of a named value. -/
  rootShape : String
  /-- The form of the node of a summary. -/
  summaryShape : String
  /-- The line of an edge for a value. -/
  fieldEdge : String
  /-- The line of the edge to the hole of a segment. -/
  holeEdge : String
  /-- The line of an edge for a parameter. -/
  paramEdge : String
  /-- Whether null is drawn. -/
  showNull : Bool

namespace Drawing

/-- Plain names, boxes for summaries, dashed holes, dotted parameters, and null. -/
def Style.standard : Style := ⟨"plaintext", "box", "solid", "dashed", "dotted", true⟩

/-- An edge of a drawing. -/
structure Edge where
  /-- The node, or the box of a field in it, where it starts. -/
  source : String
  /-- The value that it leads to. -/
  target : Value
  /-- Its line. -/
  line : String
  /-- Its label, empty for none. -/
  label : String

/-- A piece of a drawing. -/
inductive Item where
  /-- A line of text. -/
  | line (text : String)
  /-- An edge. -/
  | edge (e : Edge)

/-- The node of a location. -/
def node (loc : Loc) : String := "n" ++ toString loc.index

/-- The node that an edge leads to, if it is drawn. -/
def target? (style : Style) : Value → Option String
  | .ptr loc => some (node loc)
  | .null => if style.showNull then some "null" else none
  | .int => none

/-- The line for a piece, if it is drawn. -/
def Item.line? (style : Style) : Item → Option String
  | .line text => some text
  | .edge e => (target? style e.target).map fun target =>
    let label := if e.label.isEmpty then "" else ", label=\"" ++ e.label ++ "\""
    e.source ++ " -> " ++ target ++ " [style=" ++ e.line ++ label ++ "];"

/-- Whether a piece leads to null. -/
def Item.usesNull : Item → Bool
  | .edge e => e.target = .null
  | .line _ => false

/-- The pieces for a cell. -/
def cellItems (style : Style) (structs : Structs) (loc : Loc) (c : Cell) : List Item :=
  let fields := c.fields.zipIdx
  let name (i : Nat) : String :=
    match (structs.decl? c.ty).bind (·.fields[i]?) with
    | some f => f.name
    | none => "#" ++ toString i
  let boxes := fields.map fun (_, i) => "|<f" ++ toString i ++ "> " ++ name i
  .line (node loc ++ " [shape=record, label=\"" ++ loc.text ++ String.join boxes ++ "\"];") ::
    fields.map fun (v, i) => .edge ⟨node loc ++ ":f" ++ toString i, v, style.fieldEdge, ""⟩

/-- The pieces for a summary. -/
def summaryItems (style : Style) (loc : Loc) (s : Summary) : List Item :=
  let sets := if s.params.sets.isEmpty then ""
    else "[" ++ ", ".intercalate (s.params.sets.map SetVar.text) ++ "]"
  let label := loc.text ++ " " ++ s.pred.name ++ sets
  .line (node loc ++ " [shape=" ++ style.summaryShape ++ ", label=\"" ++ label ++ "\"];") ::
    s.params.ptrs.map (fun v => .edge ⟨node loc, v, style.paramEdge, "param"⟩) ++
    s.hole.toList.map fun o => .edge ⟨node loc, o.value, style.holeEdge, "hole"⟩

/-- The pieces for a location. -/
def slotItems (style : Style) (structs : Structs) (loc : Loc) : Slot → List Item
  | .occupied (.cell c) => cellItems style structs loc c
  | .occupied (.summary s) => summaryItems style loc s
  | .occupied (.member set _) =>
    [.line (node loc ++ " [shape=ellipse, style=dotted, label=\"" ++ loc.text ++ " in " ++ set.text ++ "\"];")]
  | .vacant => [.line (node loc ++ " [shape=circle, color=grey, label=\"?\"];")]
  | .tombstone => [.line (node loc ++ " [shape=circle, color=grey, label=\"freed\"];")]

/-- The pieces for named values. -/
def rootItems (style : Style) (roots : List (String × Value)) : List Item :=
  let numbered := roots.zipIdx
  [.line "\x7b rank=source"] ++
    numbered.map (fun ((name, _), i) =>
      .line ("r" ++ toString i ++ " [shape=" ++ style.rootShape ++ ", label=\"" ++ name ++ "\"];")) ++
    [.line "\x7d"] ++
    numbered.map fun ((_, v), i) => .edge ⟨"r" ++ toString i, v, style.fieldEdge, ""⟩

end Drawing

open Drawing in
/-- The drawing of what some named values lead to. The structures give the names of
    fields; a field without one has its number. -/
def Heap.draw (h : Heap) (style : Style) (structs : Structs) (roots : List (String × Value)) : String :=
  let items := rootItems style roots ++
    (h.reachable (roots.map Prod.snd)).flatMap fun loc => slotItems style structs loc (h.slot loc)
  let null := if style.showNull && items.any Item.usesNull then ["null [shape=point];"] else []
  let lines := ["digraph heap \x7b", "node [fontname=\"monospace\"];"] ++
    items.filterMap (Item.line? style) ++ null ++ ["\x7d"]
  String.join (lines.map (· ++ "\n"))

end HeapShape
