import HeapShape.Program
import HeapShape.Token.Cursor

/-!
# What has been declared

While a program is read, its declarations are kept: the structures, the names given
to types, and the variables of every open scope. A structure is numbered at its first
mention, also when only a pointer to it is declared, and may be defined later.
-/

namespace HeapShape

/-- A type before the stars of a declaration are counted. -/
inductive BaseType where
  /-- No type. -/
  | void
  /-- A scalar type. -/
  | int
  /-- A structure. -/
  | struct (id : StructId)
  /-- A pointer to a structure, by a name given to it. -/
  | ptr (id : StructId)
  deriving DecidableEq

/-- A structure that has been mentioned. -/
structure Mention where
  /-- The tag of the structure. -/
  tag : String
  /-- Where it was first mentioned. -/
  span : Span
  /-- Its fields, once it is defined. -/
  fields : Option (List FieldDecl)

/-- The declarations read so far. -/
structure Scope where
  /-- The structures, each at the place that its number says. -/
  structs : List Mention
  /-- The names of types, the latest first. -/
  aliases : List (String × BaseType)
  /-- The variables of the open scopes, the innermost first. -/
  vars : List (List (String × Ty))

namespace Scope

/-- Nothing declared, and the scope of the global variables open. -/
def empty : Scope := ⟨[], [], [[]]⟩

/-- The type that a name was given to. -/
def alias? (s : Scope) (name : String) : Option BaseType := s.aliases.lookup name

/-- The type of a variable, in the innermost scope that has it. -/
def var? (s : Scope) (name : String) : Option Ty := s.vars.findSome? (·.lookup name)

/-- The number of the structure with a tag, which is mentioned at a position. -/
def mention (s : Scope) (tag : String) (span : Span) : StructId × Scope :=
  match s.structs.findIdx? (·.tag = tag) with
  | some index => (⟨index⟩, s)
  | none => (⟨s.structs.length⟩, { s with structs := s.structs ++ [⟨tag, span, none⟩] })

/-- The structure with a number, if it is defined. -/
def decl? (s : Scope) (id : StructId) : Option StructDecl := do
  let m ← s.structs[id.index]?
  let fields ← m.fields
  return ⟨m.tag, fields⟩

/-- Give the structure with a number its fields. -/
def define (s : Scope) (id : StructId) (fields : List FieldDecl) : Scope :=
  { s with structs := s.structs.modify id.index fun m => { m with fields := some fields } }

/-- The structures, all of which must be defined. -/
def table (s : Scope) : Except SourceError Structs :=
  s.structs.mapM fun m =>
    match m.fields with
    | some fields => .ok ⟨m.tag, fields⟩
    | none => .error (.malformed m.span (.neverDefined m.tag))

/-- Open an inner scope. -/
def push (s : Scope) : Scope := { s with vars := [] :: s.vars }

/-- Close the innermost scope. -/
def pop (s : Scope) : Scope := { s with vars := s.vars.tail }

/-- Declare a variable in the innermost scope, unless it is declared there. -/
def declare? (s : Scope) (name : String) (ty : Ty) : Option Scope :=
  match s.vars with
  | [] => none
  | inner :: outer =>
    if (inner.lookup name).isSome then none else some { s with vars := ((name, ty) :: inner) :: outer }

end Scope

/-- The type that a base type and some stars make, declared at a position. -/
def BaseType.withStars (base : BaseType) (stars : Nat) (span : Span) : Except SourceError Ty :=
  match base, stars with
  | .int, 0 => .ok .int
  | .struct id, 1 => .ok (.ptr id)
  | .ptr id, 0 => .ok (.ptr id)
  | .struct _, 0 => .error (.unsupported span .structureValue)
  | .void, _ => .error (.unsupported span .voidObject)
  | .int, _ => .error (.unsupported span .pointerToScalar)
  | _, _ => .error (.unsupported span .pointerToPointer)

/-- The type that is given a name, from a base type and some stars. -/
def BaseType.aliased (base : BaseType) (stars : Nat) (span : Span) : Except SourceError BaseType :=
  match base, stars with
  | base, 0 => .ok base
  | .struct id, 1 => .ok (.ptr id)
  | _, _ => .error (.unsupported span .pointerToPointerType)

end HeapShape
