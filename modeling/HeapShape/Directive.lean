import HeapShape.Predicate

/-!
# Directives

What a program says about the shape of its heap, at a place in its body:

* `decl_setvars(E, F)` declares set variables;
* `set_assume(F $sub E)` assumes an inclusion between two of them;
* `add_inductive(x, pred, [p | F | E])` assumes that a variable points to an
  instance of a predicate;
* `check_inductive(x, pred, [p | F | E])` demands it, with parameters or without;
* `force_live(x, y)` demands that variables exist.
-/

namespace HeapShape

/-- The parameters of a predicate by name, in three slots. The names of the two
    set slots together are the set parameters. -/
structure ParamBlock where
  /-- The pointer parameters: variables or null. -/
  ptrs : List String
  /-- The first slot of set parameters. -/
  first : List String
  /-- The second slot of set parameters. -/
  second : List String
  deriving DecidableEq, Inhabited

namespace ParamBlock

/-- The block without parameters. -/
def none : ParamBlock := ⟨[], [], []⟩

/-- The set parameters. -/
def sets (block : ParamBlock) : List String := block.first ++ block.second

/-- A block as it is written. -/
def text (block : ParamBlock) : String :=
  "[" ++ ", ".intercalate block.ptrs ++ " | " ++ ", ".intercalate block.first ++ " | " ++
    ", ".intercalate block.second ++ "]"

/-- Whether a block has as many parameters as a predicate. -/
def Fits (block : ParamBlock) (pred : Predicate) : Prop :=
  block.ptrs.length = pred.signature.ptrArity ∧ block.sets.length = pred.signature.setArity

instance (block : ParamBlock) (pred : Predicate) : Decidable (block.Fits pred) :=
  inferInstanceAs (Decidable (_ ∧ _))

end ParamBlock

/-- A directive. -/
inductive Directive where
  /-- Declare set variables. -/
  | declareSets (names : List String)
  /-- Assume that one set is included in another. -/
  | assumeSubset (sub sup : String)
  /-- Assume an instance of a predicate. -/
  | addInductive (var : String) (pred : Predicate) (params : ParamBlock)
  /-- Demand an instance of a predicate. -/
  | checkInductive (var : String) (pred : Predicate) (params : Option ParamBlock)
  /-- Demand that variables exist. -/
  | forceLive (names : List String)
  deriving DecidableEq, Inhabited

/-- A directive as it is written. -/
def Directive.text : Directive → String
  | .declareSets names => "decl_setvars(" ++ ", ".intercalate names ++ ")"
  | .assumeSubset sub sup => "set_assume(" ++ sub ++ " $sub " ++ sup ++ ")"
  | .addInductive var pred params =>
    "add_inductive(" ++ var ++ ", " ++ pred.name ++ ", " ++ params.text ++ ")"
  | .checkInductive var pred (some params) =>
    "check_inductive(" ++ var ++ ", " ++ pred.name ++ ", " ++ params.text ++ ")"
  | .checkInductive var pred none => "check_inductive(" ++ var ++ ", " ++ pred.name ++ ")"
  | .forceLive names => "force_live(" ++ ", ".intercalate names ++ ")"

end HeapShape
