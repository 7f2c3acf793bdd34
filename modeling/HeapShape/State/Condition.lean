import HeapShape.State.Access

/-!
# Conditions

The cases of a state where a condition has a truth value. Conditions are evaluated from
left to right, and no further than needed. Two pointers to different locations are equal
only if both are null.

* `Exec.assume`: the cases where a condition has a truth value;
* `Exec.connect`: those of a conjunction and of a disjunction, in one form;
* `Exec.assert`: the cases where a condition is true, with a defect for each case where it
  is not.
-/

namespace HeapShape

namespace Exec

variable (structs : Structs)

/-- Whether two values are equal. Of scalars both is possible. -/
def compare : Value → Value → Exec Bool
  | .int, _ | _, .int => either (pure true) (pure false)
  | .null, .null => pure true
  | .null, .ptr loc | .ptr loc, .null => testNull structs (.ptr loc)
  | .ptr x, .ptr y =>
    if x = y then pure true
    else do
      if ← testNull structs (.ptr x) then testNull structs (.ptr y) else pure false

/-- The cases where a condition has a truth value. -/
def assume : Cond → Bool → Exec Unit
  | .unknown ps, _ => readAll structs ps
  | .not c, truth => assume c (!truth)
  | .and c d, true => do
    assume c true
    assume d true
  | .and c d, false => either (assume c false) do
    assume c true
    assume d false
  | .or c d, false => do
    assume c false
    assume d false
  | .or c d, true => either (assume c true) do
    assume c false
    assume d true
  | .cmp eq lhs rhs, truth => do
    let a ← eval structs lhs
    let b ← eval structs rhs
    let same ← compare structs a b
    if same = (eq == truth) then pure () else impossible

/-- Evaluate a part of a condition and, unless it has the truth value `stop`, which decides the
    whole, the other part. -/
def connect (stop : Bool) (x y : Bool → Exec Unit) (truth : Bool) : Exec Unit :=
  if truth = stop then
    either (x stop) do
      x (!stop)
      y stop
  else do
    x (!stop)
    y (!stop)

theorem assume_and (c d : Cond) (truth : Bool) :
    assume structs (.and c d) truth = connect false (assume structs c) (assume structs d) truth := by
  cases truth <;> rfl

theorem assume_or (c d : Cond) (truth : Bool) :
    assume structs (.or c d) truth = connect true (assume structs c) (assume structs d) truth := by
  cases truth <;> rfl

/-- Turn the cases of an operation into failures of a condition. The defects of the
    operation itself are left out. -/
def refute (cond : Cond) (x : Exec Unit) : Exec Unit := fun s =>
  (x s).filterMap fun (s, r) =>
    match r with
    | .ok () => some (s, .error (.assertion cond))
    | .error (.misuse m) => some (s, .error (.misuse m))
    | .error _ => none

/-- The cases where a condition is true, and a failure for each case where it is false. Of
    a condition with unknown parts only the reads are made. -/
def assert (cond : Cond) : Exec Unit :=
  if cond.hasUnknown then readAll structs cond.paths
  else either (assume structs cond true) (refute cond (assume structs cond false))

end Exec

end HeapShape
