import HeapShape.Token.Scan

/-!
# Reading tokens one by one

A cursor stands before one of the tokens of a text. The last thing under it is
the end of the input, which it never leaves: reading on from there stays there.

A `Reader` is a computation that moves a cursor and may refuse the text.

* `Reader.fix`: a reader that calls itself, in a loop or for something nested.
  Each call must come after a token was read, so the calls end with the tokens.
-/

namespace HeapShape

/-- A place among the tokens of a text. -/
structure Cursor where
  /-- The tokens that are left. -/
  rest : List Token
  /-- Where the input ends. -/
  finish : Span
  deriving DecidableEq

namespace Cursor

/-- The cursor before the first token. -/
def ofTokens (ts : Tokens) : Cursor := ⟨ts.list, ts.finish⟩

/-- The token under the cursor. -/
def peek (c : Cursor) : Token := c.rest.headD ⟨.eof, c.finish⟩

/-- The kind of the token `n` places after the one under the cursor. -/
def peekAt (c : Cursor) (n : Nat) : Token.Kind := ((c.rest[n]?).map Token.kind).getD .eof

/-- The position of the token under the cursor. -/
def span (c : Cursor) : Span := c.peek.span

/-- The cursor one token further. -/
def advance (c : Cursor) : Cursor := { c with rest := c.rest.tail }

/-- Whether no token is left. -/
def atEnd (c : Cursor) : Bool := c.peek.kind = .eof

/-- Whether the punctuation `mark` is under the cursor. -/
def isPunct (c : Cursor) (mark : String) : Bool := c.peek.kind = .punct mark

/-- Whether the identifier `name` is under the cursor. -/
def isIdent (c : Cursor) (name : String) : Bool := c.peek.kind = .ident name

/-- The position of the punctuation `mark`, which must be under the cursor. -/
def expectPunct (c : Cursor) (mark : String) : Except SourceError Span :=
  if c.isPunct mark then .ok c.span
  else .error (.malformed c.span (.expectedPunct mark c.peek.kind))

/-- The identifier under the cursor, which must be one, and its position. -/
def expectIdent (c : Cursor) : Except SourceError (String × Span) :=
  match c.peek.kind with
  | .ident name => .ok (name, c.span)
  | found => .error (.malformed c.span (.expectedIdent found))

end Cursor

/-- A computation that reads tokens. -/
abbrev Reader := StateT Cursor (Except SourceError)

namespace Reader

/-- The token under the cursor, without reading it. -/
def peek : Reader Token := return (← get).peek

/-- The kind of a later token, without reading it. -/
def peekAt (n : Nat) : Reader Token.Kind := return (← get).peekAt n

/-- The position of the token under the cursor. -/
def span : Reader Span := return (← get).span

/-- Whether no token is left. -/
def atEnd : Reader Bool := return (← get).atEnd

/-- Whether the punctuation `mark` comes next. -/
def isPunct (mark : String) : Reader Bool := return (← get).isPunct mark

/-- Whether the identifier `name` comes next. -/
def isIdent (name : String) : Reader Bool := return (← get).isIdent name

/-- Read one token. -/
def next : Reader Token := do
  let c ← get
  set c.advance
  return c.peek

/-- Read a token of a kind if it comes next, and tell whether it did. -/
def eat (kind : Token.Kind) : Reader Bool := do
  let c ← get
  if c.peek.kind = kind then
    set c.advance
    return true
  else
    return false

/-- Read the punctuation `mark` if it comes next. -/
def eatPunct (mark : String) : Reader Bool := eat (.punct mark)

/-- Read the identifier `name` if it comes next. -/
def eatIdent (name : String) : Reader Bool := eat (.ident name)

/-- Read the punctuation `mark`, which must come next. -/
def expectPunct (mark : String) : Reader Unit := do
  let c ← get
  let _ ← c.expectPunct mark
  set c.advance

/-- Read an identifier, which must come next. -/
def expectIdent : Reader (String × Span) := do
  let c ← get
  let found ← c.expectIdent
  set c.advance
  return found

/-- Refuse the text as malformed. -/
def malformed {α : Type} (span : Span) (m : Malformed) : Reader α :=
  throw (.malformed span m)

/-- Refuse the text for a construct that it uses. -/
def unsupported {α : Type} (span : Span) (c : Construct) : Reader α :=
  throw (.unsupported span c)

/-- A reader that calls itself. A call is answered only if fewer tokens are left
    than before, and the text is refused otherwise: a reader that reads a token
    before each call never meets that. -/
def fix {α β : Type} (body : (α → Reader β) → α → Reader β) (a : α) : Reader β := fun c =>
  body (fun a' c' =>
    if c'.rest.length < c.rest.length then fix body a' c'
    else .error (.malformed c'.span .stalled)) a c
  termination_by c => c.rest.length

end Reader

end HeapShape
