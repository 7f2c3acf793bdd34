/-!
# Misuse of a table

A table is asked for something it cannot do: an index that was never given out,
or a value for a slot that is taken. Nothing is changed by such a request.
-/

namespace HeapShape

/-- A request that a table cannot meet. -/
inductive Misuse where
  /-- An index that was never given out. -/
  | outOfBounds
  /-- A value for a slot that is not vacant. -/
  | notVacant (index : Nat)
  deriving DecidableEq

/-- The wording of a misuse. -/
def Misuse.message : Misuse → String
  | .outOfBounds => "index out of bounds"
  | .notVacant index => "Index " ++ toString index ++ " is not vacant"

end HeapShape
