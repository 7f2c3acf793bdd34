/-!
# Locations, set variables and values

A *location* stands for an address of the heap that is not known, or for null if nothing
rules that out. A *set variable* stands for a set of addresses. A *value* is what a
variable or a field holds: null, a pointer to a location, or a scalar, of which nothing
more is known.
-/

namespace HeapShape

/-- A location of the symbolic heap. -/
structure Loc where
  /-- The number of its slot. -/
  index : Nat
  deriving DecidableEq, Inhabited

/-- Locations are ordered by number. -/
instance : LT Loc := ⟨fun a b => a.index < b.index⟩

instance : DecidableLT Loc := fun a b => inferInstanceAs (Decidable (a.index < b.index))

/-- How a location is written. -/
def Loc.text (loc : Loc) : String := "@" ++ toString loc.index

/-- A set variable. -/
structure SetVar where
  /-- Its number. -/
  id : Nat
  deriving DecidableEq, Inhabited

/-- Set variables are ordered by number. -/
instance : LT SetVar := ⟨fun a b => a.id < b.id⟩

instance : DecidableLT SetVar := fun a b => inferInstanceAs (Decidable (a.id < b.id))

/-- How a set variable without a name is written. -/
def SetVar.text (v : SetVar) : String := "S" ++ toString v.id

/-- What a variable or a field holds. -/
inductive Value where
  /-- The null pointer. -/
  | null
  /-- A pointer to a location. -/
  | ptr (loc : Loc)
  /-- Some scalar. -/
  | int
  deriving DecidableEq, Inhabited

namespace Value

/-- The location that a pointer points to. -/
def loc? : Value → Option Loc
  | .ptr loc => some loc
  | _ => none

/-- Put `w` in the place of a pointer to `loc`. -/
def subst (v : Value) (loc : Loc) (w : Value) : Value :=
  if v = .ptr loc then w else v

/-- How a value is written. -/
def text : Value → String
  | .null => "null"
  | .ptr loc => loc.text
  | .int => "int"

@[simp] theorem subst_self (loc : Loc) (w : Value) : subst (.ptr loc) loc w = w := by
  simp [subst]

end Value

end HeapShape
