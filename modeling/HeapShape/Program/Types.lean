/-!
# Structures and types

A program declares structures, which are numbered in the order of their first
mention. A variable or a field is a scalar, whose number is not followed, or a
pointer to one of the structures.
-/

namespace HeapShape

/-- The number of a structure. -/
structure StructId where
  /-- The place of the structure in the table. -/
  index : Nat
  deriving DecidableEq, Inhabited

/-- How a structure is named by its number. -/
def StructId.text (id : StructId) : String := "struct#" ++ toString id.index

/-- The type of a variable or a field. -/
inductive Ty where
  /-- A scalar. -/
  | int
  /-- A pointer to a structure. -/
  | ptr (target : StructId)
  deriving DecidableEq, Inhabited

namespace Ty

/-- The structure a pointer points to. -/
def pointee? : Ty → Option StructId
  | .int => none
  | .ptr target => some target

/-- Whether values of the type are pointers. -/
def isPtr (ty : Ty) : Bool := ty.pointee?.isSome

end Ty

/-- A field of a structure. -/
structure FieldDecl where
  /-- The name of the field. -/
  name : String
  /-- Its type. -/
  ty : Ty
  deriving DecidableEq, Inhabited

/-- A structure: its name and its fields in order. -/
structure StructDecl where
  /-- The name of the structure. -/
  name : String
  /-- Its fields. -/
  fields : List FieldDecl
  deriving DecidableEq, Inhabited

namespace StructDecl

/-- The place of the first field with a name. -/
def fieldIndex? (decl : StructDecl) (name : String) : Option Nat :=
  decl.fields.findIdx? (·.name = name)

/-- The type of the first field with a name. -/
def fieldType? (decl : StructDecl) (name : String) : Option Ty :=
  (decl.fields.find? (·.name = name)).map FieldDecl.ty

/-- The place and the target of the first field with a name, if it is a pointer. -/
def pointer? (decl : StructDecl) (name : String) : Option (Nat × StructId) := do
  let index ← decl.fieldIndex? name
  let field ← decl.fields[index]?
  let target ← field.ty.pointee?
  return (index, target)

/-- The number of pointer fields. -/
def pointerCount (decl : StructDecl) : Nat :=
  decl.fields.countP (·.ty.isPtr)

end StructDecl

/-- A table of structures, each at the place that its number says. -/
abbrev Structs := List StructDecl

namespace Structs

/-- The structure with a number. -/
def decl? (structs : Structs) (id : StructId) : Option StructDecl := structs[id.index]?

/-- The number of the first structure with a name. -/
def find? (structs : Structs) (name : String) : Option StructId :=
  (structs.findIdx? (·.name = name)).map StructId.mk

end Structs

end HeapShape
