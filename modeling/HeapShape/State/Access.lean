import HeapShape.State.Cases

/-!
# Reading and writing

What expressions and assignments do to a state. Each pointer that is followed is taken
apart into its cases first.

* `Exec.read`, `Exec.write`: an access path;
* `Exec.eval`: an expression. Of scalars only their reads matter;
* `Exec.assign`, `Exec.alloc`, `Exec.free`: the statements.
-/

namespace HeapShape

namespace Exec

variable (structs : Structs)

/-- The location of the cell that a value points to. -/
def materialize (value : Value) : Exec Loc := fun s => s.materialize structs value

/-- Whether a value is null. -/
def testNull (value : Value) : Exec Bool := fun s => s.testNull structs value

/-! ### Fields -/

/-- The value of a field of a member: a pointer in it leads to a member of the same set. -/
def loadMember (loc : Loc) (set : SetVar) (ty : StructId) (index : Nat) : Exec Value := fun s =>
  match (structs.decl? ty).bind (·.fields[index]?) with
  | some ⟨_, .ptr target⟩ =>
    let (new, heap) := s.heap.add (.member set target)
    [({ s with heap }, .ok (.ptr new))]
  | some ⟨_, .int⟩ => [(s, .ok .int)]
  | none => [(s, .error (.mismatchAt loc (.noMemberField index ty)))]

/-- The value of a field of the cell at a location. -/
def loadCell (index : Nat) (loc : Loc) : Exec Value :=
  ask fun s =>
    match (s.heap.cell? loc).bind (·.fields[index]?) with
    | some v => .ok v
    | none => .error (.mismatchAt loc (.noField index))

/-- The value of a field of what a value points to. -/
def loadField (value : Value) (index : Nat) : Exec Value := fun s =>
  match value.loc?.map fun loc => (loc, s.heap.slot loc) with
  | some (loc, .occupied (.member set ty)) => loadMember structs loc set ty index s
  | _ => (materialize structs value >>= loadCell index) s

/-- Set a field of the cell at a location. -/
def storeCell (index : Nat) (new : Value) (loc : Loc) : Exec Unit :=
  update fun s =>
    match s.heap.setField? loc index new with
    | some heap => .ok { s with heap }
    | none => .error (.mismatchAt loc (.noField index))

/-- Set a field of what a value points to. -/
def storeField (value : Value) (index : Nat) (new : Value) : Exec Unit :=
  materialize structs value >>= storeCell index new

/-! ### Paths and expressions -/

/-- Follow fields from a value. -/
def follow : Value → List FieldRef → Exec Value
  | v, [] => pure v
  | v, f :: fs => do follow (← loadField structs v f.index) fs

/-- The value at a path. -/
def read (p : Path) : Exec Value := do
  follow structs (← ask fun s => s.lookup p.var) p.fields

/-- Read paths, for the defects that this can show. -/
def readAll : List Path → Exec Unit
  | [] => pure ()
  | p :: ps => do
    let _ ← read structs p
    readAll ps

/-- The value of an expression. -/
def eval : Expr → Exec Value
  | .null => pure .null
  | .path p => read structs p
  | .scalar ps => do
    readAll structs ps
    return .int

/-- Set the value at a path. -/
def write (p : Path) (value : Value) : Exec Unit :=
  match p.splitLast? with
  | none => update fun s => s.set p.var value
  | some (parent, last) => do storeField structs (← read structs parent) last.index value

/-! ### Statements -/

/-- Set the value at a path to that of an expression. -/
def assign (lhs : Path) (rhs : Expr) : Exec Unit := do
  write structs lhs (← eval structs rhs)

/-- A new cell. -/
def newCell (ty : StructId) : Exec Value := fun s =>
  match structs.decl? ty with
  | some decl =>
    let (loc, heap) := s.heap.allocCell ty decl
    [({ s with heap }, .ok (.ptr loc))]
  | none => [(s, .error (.mismatchOf (.unknownStruct ty)))]

/-- Set the value at a path to a new cell. -/
def alloc (lhs : Path) (ty : StructId) : Exec Unit := do
  write structs lhs (← newCell structs ty)

/-- Free what a value points to. -/
def freeValue (value : Value) : Exec Unit :=
  update fun s =>
    match value with
    | .null => .error .nullDeref
    | .int => .error (.mismatchOf .freeScalar)
    | .ptr loc =>
      match s.heap.slot loc with
      | .occupied (.cell _) => .ok { s with heap := s.heap.write loc .tombstone }
      | .tombstone => .error (.doubleFree loc)
      | .occupied (.summary sum) => .error (.mismatchAt loc (.freeFolded sum.pred))
      | .occupied (.member ..) => .error (.mismatchAt loc .freeShared)
      | .vacant => .error (.mismatchAt loc .freeUnknown)

/-- Free what the value at a path points to. -/
def free (p : Path) : Exec Unit := do
  freeValue (← read structs p)

end Exec

end HeapShape
