import HeapShape.Heap
import HeapShape.Program

/-!
# What can be wrong on a path

A *mismatch* says that a heap does not have a shape that it should have. A *defect* is
what ends a path of a program: a use of memory that is an error, a mismatch, a condition
that may fail, or a loop that does not settle. Each is kept as its cause, and `message`
gives the wording.
-/

namespace HeapShape

/-- Why a heap does not have a shape. -/
inductive Mismatch.Cause where
  /-- A location that should be folded is not. -/
  | notFolded
  /-- A location that should be folded into a predicate is not folded. -/
  | notFoldedInto (pred : Predicate)
  /-- The structure of a summary is not laid out for its predicate. -/
  | summaryLayout (pred : Predicate) (ty : StructId)
  /-- The structure of a root is not laid out for a predicate. -/
  | layout (pred : Predicate) (ty : StructId)
  /-- A summary is of another predicate. -/
  | otherPredicate (expected found : Predicate)
  /-- A record is of another structure. -/
  | otherStruct (expected found : StructId)
  /-- The numbers of parameters are not those of the predicate. -/
  | arity (pred : Predicate)
  /-- Null with parameters that no empty instance has. -/
  | nullNotEmpty (pred : Predicate)
  /-- A scalar in the place of a pointer. -/
  | scalar
  /-- The root of a fold is unknown. -/
  | rootUnknown
  /-- The root of a fold is freed. -/
  | rootFreed
  /-- The root of a fold belongs to another structure. -/
  | rootShared
  /-- The root has no back pointer. -/
  | noBack
  /-- A structure ends, and its set of nodes does not. -/
  | nodesLeft (pred : Predicate)
  /-- A structure goes on, and its set of nodes does not. -/
  | nodesEmpty (pred : Predicate)
  /-- A location is held by a variable. -/
  | heldByVariable
  /-- A location is met twice. -/
  | cycle
  /-- A part of a structure is unknown. -/
  | insideUnknown
  /-- A part of a structure is freed. -/
  | insideFreed
  /-- A part of a structure belongs to another one. -/
  | insideShared
  /-- A back pointer is not the one expected. -/
  | back (found expected : Value)
  /-- A reference where none can be. -/
  | unexpectedReference
  /-- A reference to what is not in the set. -/
  | outside (set : String)
  /-- Pointer parameters that are not those expected. -/
  | ptrsDiffer
  /-- Another number of set parameters. -/
  | setsDiffer
  /-- A set parameter that is not the one expected. -/
  | setDiffers (found expected : String)
  /-- A structure that should be whole ends at a shared location. -/
  | endsAtShared
  /-- A scalar is dereferenced. -/
  | derefScalar
  /-- An unknown location is dereferenced. -/
  | derefUnknown
  /-- A location is written through a reference that does not own it. -/
  | writeShared
  /-- A member has no such field. -/
  | noMemberField (index : Nat) (ty : StructId)
  /-- A cell has no such field. -/
  | noField (index : Nat)
  /-- A scalar is compared with null. -/
  | testScalar
  /-- An allocation of a structure that is not declared. -/
  | unknownStruct (ty : StructId)
  /-- A scalar is freed. -/
  | freeScalar
  /-- A summary is freed. -/
  | freeFolded (pred : Predicate)
  /-- A location is freed through a reference that does not own it. -/
  | freeShared
  /-- An unknown location is freed. -/
  | freeUnknown
  /-- A variable that should be a pointer is not. -/
  | notPointer (var : String)
  deriving DecidableEq

/-- The wording of a cause. -/
def Mismatch.Cause.message : Mismatch.Cause → String
  | .notFolded => "location is not folded"
  | .notFoldedInto pred => "location is not folded into " ++ pred.name
  | .summaryLayout pred ty => "predicate " ++ pred.name ++ " does not apply to " ++ ty.text
  | .layout pred ty => pred.name ++ " does not apply to " ++ ty.text
  | .otherPredicate expected found => "expected " ++ expected.name ++ ", found " ++ found.name
  | .otherStruct expected found => "expected " ++ expected.text ++ ", found " ++ found.text
  | .arity pred => pred.name ++ " expects " ++ toString pred.signature.ptrArity ++ " pointer and " ++
      toString pred.signature.setArity ++ " set parameter(s)"
  | .nullNotEmpty pred => "null is not an empty " ++ pred.name
  | .scalar => "scalar where a pointer was expected"
  | .rootUnknown => "fold of an unknown location"
  | .rootFreed => "fold of a freed location"
  | .rootShared => "fold of a shared reference"
  | .noBack => "missing back pointer"
  | .nodesLeft pred => pred.name ++ " ends while its node set is not empty"
  | .nodesEmpty pred => pred.name ++ " node set is empty"
  | .heldByVariable => "location is shared with another variable"
  | .cycle => "cycle"
  | .insideUnknown => "unknown location inside the structure"
  | .insideFreed => "freed location inside the structure"
  | .insideShared => "shared reference inside the structure"
  | .back found expected => "back pointer is " ++ found.text ++ ", expected " ++ expected.text
  | .unexpectedReference => "unexpected reference"
  | .outside set => "reference outside of " ++ set
  | .ptrsDiffer => "pointer parameters differ"
  | .setsDiffer => "set parameters differ"
  | .setDiffers found expected => "set parameter " ++ found ++ " differs from " ++ expected
  | .endsAtShared => "structure ends at a shared location"
  | .derefScalar => "dereference of a scalar"
  | .derefUnknown => "dereference of an unknown location"
  | .writeShared => "update through a shared reference"
  | .noMemberField index ty => "no field #" ++ toString index ++ " in " ++ ty.text
  | .noField index => "no field #" ++ toString index
  | .testScalar => "null test on a scalar"
  | .unknownStruct ty => "unknown " ++ ty.text
  | .freeScalar => "free of a scalar"
  | .freeFolded pred => "free of a location folded into " ++ pred.name
  | .freeShared => "free through a shared reference"
  | .freeUnknown => "free of an unknown location"
  | .notPointer var => "`" ++ var ++ "` is not a pointer"

/-- A heap does not have a shape. -/
structure Mismatch where
  /-- The location where it does not. -/
  loc : Option Loc
  /-- Why it does not. -/
  cause : Mismatch.Cause
  deriving DecidableEq

/-- Why a structure is not folded. -/
inductive Refusal where
  /-- It does not have the shape. -/
  | mismatch (m : Mismatch)
  /-- The heap or its sets are not sound. -/
  | misuse (m : Misuse)
  deriving DecidableEq

/-- What ends a path. -/
inductive Defect where
  /-- Null is dereferenced. -/
  | nullDeref
  /-- A freed location is used. -/
  | useAfterFree (loc : Loc)
  /-- A freed location is freed. -/
  | doubleFree (loc : Loc)
  /-- The heap does not have a shape that is needed. -/
  | mismatch (m : Mismatch)
  /-- A variable is not declared. -/
  | undefined (var : String)
  /-- A condition may fail. -/
  | assertion (cond : Cond)
  /-- A loop comes to more than this number of shapes. -/
  | loopBound (limit : Nat)
  /-- The heap or its sets are not sound. -/
  | misuse (m : Misuse)
  deriving DecidableEq

/-- What is wrong with the fold of a structure. -/
def Refusal.defect : Refusal → Defect
  | .mismatch m => .mismatch m
  | .misuse m => .misuse m

namespace Defect

/-- A mismatch at a location. -/
def mismatchAt (loc : Loc) (cause : Mismatch.Cause) : Defect := .mismatch ⟨some loc, cause⟩

/-- A mismatch at no location. -/
def mismatchOf (cause : Mismatch.Cause) : Defect := .mismatch ⟨none, cause⟩

/-- The class of a defect. -/
def label : Defect → String
  | .nullDeref => "NullDerefError"
  | .useAfterFree _ => "UseAfterFreeError"
  | .doubleFree _ => "DoubleFreeError"
  | .mismatch _ => "ShapeMismatchError"
  | .undefined _ => "UndefinedVariableError"
  | .assertion _ => "AssertionError"
  | .loopBound _ => "LoopBoundError"
  | .misuse _ => "Misuse"

/-- The location of a defect. -/
def loc? : Defect → Option Loc
  | .useAfterFree loc => some loc
  | .doubleFree loc => some loc
  | .mismatch m => m.loc
  | _ => none

/-- The wording of a defect. -/
def message : Defect → String
  | .nullDeref => "null pointer dereference"
  | .useAfterFree loc => "use after free of " ++ loc.text
  | .doubleFree loc => "double free of " ++ loc.text
  | .mismatch m => "shape mismatch: " ++ m.cause.message
  | .undefined var => "undefined variable `" ++ var ++ "`"
  | .assertion cond => "assertion `" ++ cond.text ++ "` may fail"
  | .loopBound limit => "loop head did not stabilize within " ++ toString limit ++ " shapes"
  | .misuse m => m.message

end Defect

/-! ### Computations that may fail -/

/-- The two parts of a computation that has a result. -/
theorem ok_of_bind {ε α β : Type} {x : Except ε α} {f : α → Except ε β} {b : β}
    (h : (x >>= f) = .ok b) : ∃ a, x = .ok a ∧ f a = .ok b := by
  rcases x with e | a
  · cases h
  · exact ⟨a, rfl, h⟩

theorem ok_of_map {ε α β : Type} {x : Except ε α} {f : α → β} {b : β}
    (h : x.map f = .ok b) : ∃ a, x = .ok a ∧ f a = b := by
  rcases x with e | a
  · cases h
  · exact ⟨a, rfl, Except.ok.inj h⟩

end HeapShape
