import HeapShape.Arena
import HeapShape.Predicate
import HeapShape.SetStore

/-!
# Symbolic heaps

What is known about memory: one slot for each location, and constraints between sets of
locations. A location is

* *opaque* (a vacant slot): nothing is known of it;
* a *cell*: a record of which every field is known;
* the root of a *summary*: of a structure that a predicate describes, or of a *segment*
  of one, which ends at a hole where the rest of the structure goes on;
* a *member*: some element of a set, which belongs to another structure;
* *freed* (a tombstone).

The cells and summaries of a heap describe separate parts of memory.

* `Heap.slot`: the view of a heap by location;
* `Heap.grow`: new locations for the fields of a cell.
-/

namespace HeapShape

/-- The parameters of an instance of a predicate. -/
structure Params where
  /-- The pointers. -/
  ptrs : List Value
  /-- The sets. -/
  sets : List SetVar
  deriving DecidableEq, Inhabited

/-- No parameters. -/
def Params.none : Params := ⟨[], []⟩

/-- The end of a segment. -/
structure Hole where
  /-- Where the rest of the structure starts. -/
  value : Value
  /-- The parameters that the rest has as an instance. -/
  params : Params
  deriving DecidableEq, Inhabited

/-- A structure, or a segment of one, known only as an instance of a predicate. -/
structure Summary where
  /-- The predicate. -/
  pred : Predicate
  /-- The structure of its records. -/
  ty : StructId
  /-- The parameters of the instance. -/
  params : Params
  /-- The end of a segment. A summary without one is *full*. -/
  hole : Option Hole
  deriving DecidableEq, Inhabited

/-- Whether a summary is a segment. -/
def Summary.isSegment (s : Summary) : Bool := s.hole.isSome

/-- A record of which every field is known. -/
structure Cell where
  /-- Its structure. -/
  ty : StructId
  /-- The values of its fields. -/
  fields : List Value
  deriving DecidableEq, Inhabited

/-- What is known of a location. -/
inductive Fact where
  /-- It is a record. -/
  | cell (c : Cell)
  /-- It is the root of a summary. -/
  | summary (s : Summary)
  /-- It is null or a record that is in a set. -/
  | member (set : SetVar) (ty : StructId)
  deriving DecidableEq, Inhabited

namespace Fact

/-- The values that a fact mentions. -/
def values : Fact → List Value
  | .cell c => c.fields
  | .summary s => s.params.ptrs ++ s.hole.toList.flatMap fun o => o.value :: o.params.ptrs
  | .member .. => []

/-- The locations that a fact mentions. -/
def locs (f : Fact) : List Loc := f.values.filterMap Value.loc?

/-- The sets that a fact mentions. -/
def sets : Fact → List SetVar
  | .cell _ => []
  | .summary s => s.params.sets ++ s.hole.toList.flatMap fun o => o.params.sets
  | .member set _ => [set]

/-- Change every value that a fact mentions. -/
def mapValues (f : Value → Value) : Fact → Fact
  | .cell c => .cell { c with fields := c.fields.map f }
  | .summary s => .summary { s with
      params := { s.params with ptrs := s.params.ptrs.map f }
      hole := s.hole.map fun o =>
        { value := f o.value, params := { o.params with ptrs := o.params.ptrs.map f } } }
  | .member set ty => .member set ty

theorem values_mapValues (f : Value → Value) (fact : Fact) :
    (fact.mapValues f).values = fact.values.map f := by
  obtain _ | ⟨_, _, _, _ | _⟩ | _ := fact <;> simp [values, mapValues]

/-- The line for a fact. -/
def text (loc : Loc) : Fact → String
  | .cell c => loc.text ++ " |-> " ++ c.ty.text ++ "(" ++ ", ".intercalate (c.fields.map Value.text) ++ ")"
  | .summary s =>
    let args := loc.text :: s.params.ptrs.map Value.text ++ s.params.sets.map SetVar.text
    let hole := match s.hole with
      | some o => " * hole(" ++ o.value.text ++ ")"
      | none => ""
    s.pred.name ++ "(" ++ ", ".intercalate args ++ ")" ++ hole
  | .member set ty => loc.text ++ " in " ++ set.text ++ " : " ++ ty.text

end Fact

/-- The state of a location. -/
abbrev Slot := Arena.Slot Fact

/-- A symbolic heap. -/
structure Heap where
  /-- The locations and their facts. -/
  arena : Arena Fact
  /-- What is known about sets of locations. -/
  sets : SetStore
  deriving DecidableEq, Inhabited

/-- What a field of a new cell holds. -/
inductive Content where
  /-- A value. -/
  | value (v : Value)
  /-- A new location of which nothing is known. -/
  | unknown
  /-- A new location with a fact. -/
  | fact (f : Fact)
  deriving DecidableEq

namespace Heap

/-- The heap without locations. -/
def empty : Heap := ⟨.empty, .empty⟩

/-! ### Looking at a heap -/

/-- The number of locations given out. -/
def size (h : Heap) : Nat := h.arena.size

/-- The number of facts. -/
def factCount (h : Heap) : Nat := h.arena.count

/-- The state of a location. -/
def slot (h : Heap) (loc : Loc) : Slot := h.arena.slot loc.index

/-- The fact about a location. -/
def fact? (h : Heap) (loc : Loc) : Option Fact := (h.slot loc).value?

/-- The cell at a location. -/
def cell? (h : Heap) (loc : Loc) : Option Cell :=
  match h.fact? loc with
  | some (.cell c) => some c
  | _ => none

/-- The summary at a location. -/
def summary? (h : Heap) (loc : Loc) : Option Summary :=
  match h.fact? loc with
  | some (.summary s) => some s
  | _ => none

/-- Whether nothing is known of a location. -/
def isOpaque (h : Heap) (loc : Loc) : Bool := h.slot loc = .vacant

/-- Nothing is known of a location, or only the set that it is a member of. -/
def Undetermined (h : Heap) (loc : Loc) : Prop :=
  h.slot loc = .vacant ∨ ∃ set ty, h.slot loc = .occupied (.member set ty)

/-- The facts and their locations, in order. -/
def facts (h : Heap) : List (Loc × Fact) := h.arena.values.map fun (i, f) => (⟨i⟩, f)

/-- Whether a fact mentions a location. -/
def isReferenced (h : Heap) (loc : Loc) : Bool := h.facts.any fun (_, f) => f.locs.contains loc

/-- Parameters with the representatives of their sets. -/
def resolveParams (h : Heap) (p : Params) : Params := { p with sets := p.sets.map h.sets.resolve }

/-! ### New locations -/

/-- A new location of which nothing is known. -/
def fresh (h : Heap) : Loc × Heap :=
  let (i, arena) := h.arena.alloc
  (⟨i⟩, { h with arena })

/-- A new location with a fact. -/
def add (h : Heap) (f : Fact) : Loc × Heap :=
  let (i, arena) := h.arena.add f
  (⟨i⟩, { h with arena })

/-- The value that a field of a new cell holds, in a heap with the location that it needs. -/
def place (h : Heap) : Content → Value × Heap
  | .value v => (v, h)
  | .unknown =>
    let (loc, h) := h.fresh
    (.ptr loc, h)
  | .fact f =>
    let (loc, h) := h.add f
    (.ptr loc, h)

/-- The values of the fields of a new cell, in a heap with the locations that they need. -/
def grow : Heap → List Content → List Value × Heap
  | h, [] => ([], h)
  | h, c :: cs =>
    let (v, h) := h.place c
    let (vs, h) := h.grow cs
    (v :: vs, h)

/-! ### Changing a location -/

/-- Set the state of a location that was given out. -/
def write (h : Heap) (loc : Loc) (s : Slot) : Heap := { h with arena := h.arena.write loc.index s }

/-- A field of which only the type is known. -/
def unknownField (f : FieldDecl) : Content :=
  match f.ty with
  | .ptr _ => .unknown
  | .int => .value .int

/-- A new cell, with fields of which nothing is known. -/
def allocCell (h : Heap) (ty : StructId) (decl : StructDecl) : Loc × Heap :=
  let (loc, h) := h.fresh
  let (fields, h) := h.grow (decl.fields.map unknownField)
  (loc, h.write loc (.occupied (.cell ⟨ty, fields⟩)))

/-- Attach a fact to an opaque location. -/
def put (h : Heap) (loc : Loc) (f : Fact) : Except Misuse Heap := do
  return { h with arena := ← h.arena.put loc.index f }

/-- Detach the fact from a location, which is opaque then. -/
def take (h : Heap) (loc : Loc) : Except Misuse (Option Fact × Heap) := do
  let (f, arena) ← h.arena.take loc.index
  return (f, { h with arena })

/-- Free a location, and tell the fact that it had. -/
def release (h : Heap) (loc : Loc) : Except Misuse (Option Fact × Heap) := do
  let (f, arena) ← h.arena.release loc.index
  return (f, { h with arena })

/-- Set a field of the cell at a location, if there is one. -/
def setField? (h : Heap) (loc : Loc) (index : Nat) (v : Value) : Option Heap := do
  let c ← h.cell? loc
  if index < c.fields.length then
    some (h.write loc (.occupied (.cell { c with fields := c.fields.set index v })))
  else
    none

/-- Put a value in the place of a location. -/
def subst (h : Heap) (loc : Loc) (w : Value) : Heap :=
  { arena := h.arena.map (Fact.mapValues (·.subst loc w)), sets := h.sets.substLoc loc w }

/-! ### Writing a heap -/

/-- A heap as lines: its facts, and its constraints between sets. -/
def text (h : Heap) : String :=
  String.join (h.facts.map fun (loc, f) => f.text loc ++ "\n") ++ "sets: " ++ h.sets.text ++ "\n"

/-! ### The number of facts -/

@[simp] theorem factCount_subst (h : Heap) (loc : Loc) (w : Value) :
    (h.subst loc w).factCount = h.factCount := by
  simp [factCount, subst]

theorem factCount_write_lt {h : Heap} {loc : Loc} {f : Fact} (hs : h.slot loc = .occupied f)
    {s : Slot} (hf : s.isOccupied = false) : (h.write loc s).factCount < h.factCount := by
  have hcount := Arena.count_write_of_occupied (i := loc.index) hs s
  rw [hf] at hcount
  exact Nat.lt_of_succ_le (Nat.le_of_eq hcount)

/-- To write what is there changes nothing. -/
theorem write_slot (h : Heap) (loc : Loc) : h.write loc (h.slot loc) = h :=
  congrArg ({ h with arena := · }) (Arena.write_slot ..)

theorem write_vacant_eq_self {h : Heap} {loc : Loc} (hs : h.slot loc = .vacant) :
    h.write loc .vacant = h := by
  rw [← hs, write_slot]

theorem slot_of_cell? {h : Heap} {loc : Loc} {c : Cell} (hc : h.cell? loc = some c) :
    h.slot loc = .occupied (.cell c) := by
  unfold cell? fact? at hc
  cases hs : h.slot loc with
  | vacant => simp [hs, Arena.Slot.value?] at hc
  | tombstone => simp [hs, Arena.Slot.value?] at hc
  | occupied f => cases f <;> simp_all [Arena.Slot.value?]

theorem slot_of_summary? {h : Heap} {loc : Loc} {s : Summary} (hs : h.summary? loc = some s) :
    h.slot loc = .occupied (.summary s) := by
  unfold summary? fact? at hs
  cases hl : h.slot loc with
  | vacant => simp [hl, Arena.Slot.value?] at hs
  | tombstone => simp [hl, Arena.Slot.value?] at hs
  | occupied f => cases f <;> simp_all [Arena.Slot.value?]

end Heap

end HeapShape
