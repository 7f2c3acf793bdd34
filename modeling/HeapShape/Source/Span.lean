/-!
# Positions in a source text

A position is a line and a column, both counted from one in the source of a
program and kept in 32 bits. Statements that were not read from a text carry
the position `0:0`.

* `Span.advance`: the position after reading some characters. A line break
  starts the next line at column one and every other character is one column.
-/

namespace HeapShape

/-- A position in a source text. -/
structure Span where
  /-- The line. -/
  line : UInt32
  /-- The column. -/
  col : UInt32
  deriving DecidableEq, Inhabited

namespace Span

/-- The position of what was not read from a text. -/
def none : Span := ⟨0, 0⟩

/-- The first position of a text. -/
def start : Span := ⟨1, 1⟩

/-- The position after one character. -/
def step (s : Span) (c : Char) : Span :=
  if c = '\n' then ⟨s.line + 1, 1⟩ else ⟨s.line, s.col + 1⟩

/-- The position after some characters. -/
def advance (s : Span) (cs : List Char) : Span :=
  cs.foldl step s

/-- The position one column further on the same line. -/
def right (s : Span) : Span :=
  ⟨s.line, s.col + 1⟩

/-- A position as `line:column`. -/
def text (s : Span) : String :=
  toString s.line ++ ":" ++ toString s.col

@[simp] theorem advance_nil (s : Span) : s.advance [] = s := rfl

@[simp] theorem advance_cons (s : Span) (c : Char) (cs : List Char) :
    s.advance (c :: cs) = (s.step c).advance cs := rfl

theorem advance_append (s : Span) (cs ds : List Char) :
    s.advance (cs ++ ds) = (s.advance cs).advance ds := by
  simp [advance]

end Span

end HeapShape
