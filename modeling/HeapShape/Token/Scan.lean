import HeapShape.Source.Error
import HeapShape.Text.Blank

/-!
# Scanning a text into tokens

A text is cut into *lexemes* from left to right. A lexeme is a token, or a gap:
a blank character or a comment. Every lexeme is found from its first character
and what follows it (`lexeme`), and takes at least that character, so scanning
ends with the text.

* `Tokens`: the tokens of a text, and the position where it ends;
* `scan`: the tokens of a text, with positions counted from a given origin.
-/

namespace HeapShape.Token

/-- The punctuation marks, in the order in which they are tried: a mark stands
    before the marks it starts with. -/
def punctuation : List String :=
  ["->", "==", "!=", "<=", ">=", "&&", "||", "++", "--", "+=", "-=", "(", ")", "\x7b", "\x7d", "[",
    "]", ";", ",", "*", "=", "<", ">", "+", "-", "!", "&", "|", ".", "/", "%", "?", ":", "~", "^"]

/-- A lexeme, seen from its first character. -/
structure Lexeme where
  /-- What the lexeme is, or nothing for a gap. -/
  kind : Option Kind
  /-- How many characters follow its first one. -/
  more : Nat
  deriving DecidableEq

/-- Whether a character starts an identifier. -/
def startsIdent (c : Char) : Bool := c.isAlpha || c = '_'

/-- Whether a character continues an identifier. -/
def continuesIdent (c : Char) : Bool := c.isAlphanum || c = '_'

/-- The number that decimal digits spell, or nothing if a character is no digit. -/
def decimal (cs : List Char) : Option Nat :=
  cs.foldlM (fun n c => if c.isDigit then some (10 * n + (c.toNat - '0'.toNat)) else none) 0

/-- The least number that is too large for a token. -/
def numberBound : Nat := Nat.pow 2 63

/-- The number of characters up to and with the end of a block comment. -/
def commentLength : List Char → Option Nat
  | '*' :: '/' :: _ => some 2
  | _ :: cs => (commentLength cs).map (· + 1)
  | [] => none

/-- The character that a backslash and `c` stand for. -/
def unescape (c : Char) : Char :=
  if c = 'n' then '\n' else if c = 't' then '\t' else c

/-- The contents of a quoted text after its opening quote, and the number of
    characters up to and with the closing one. A line break ends the text only
    behind a backslash. -/
def quotedText : List Char → Option (List Char × Nat)
  | '"' :: _ => some ([], 1)
  | '\n' :: _ => none
  | '\\' :: c :: cs => (quotedText cs).map fun (text, n) => (unescape c :: text, n + 2)
  | c :: cs => (quotedText cs).map fun (text, n) => (c :: text, n + 1)
  | [] => none

/-- The first punctuation mark that a text starts with. -/
def punctuationAt (cs : List Char) : Option String :=
  punctuation.find? fun mark => mark.toList.isPrefixOf cs

/-- The lexeme that starts with `c` in the text `c :: cs`. -/
def lexeme (c : Char) (cs : List Char) : Except SourceError.Cause Lexeme :=
  if Text.isBlank c then
    .ok ⟨none, 0⟩
  else if c = '/' ∧ cs.head? = some '/' then
    .ok ⟨none, (cs.takeWhile (· ≠ '\n')).length⟩
  else if c = '/' ∧ cs.head? = some '*' then
    match commentLength cs.tail with
    | some n => .ok ⟨none, n + 1⟩
    | none => .error (.malformed .unterminatedComment)
  else if c = '#' then
    .error (.unsupported .preprocessor)
  else if startsIdent c then
    let tail := cs.takeWhile continuesIdent
    .ok ⟨some (.ident (String.ofList (c :: tail))), tail.length⟩
  else if c.isDigit then
    let tail := cs.takeWhile Char.isAlphanum
    match decimal (c :: tail) with
    | some n =>
      if n < numberBound then .ok ⟨some (.number n), tail.length⟩
      else .error (.malformed (.invalidNumber (String.ofList (c :: tail))))
    | none => .error (.malformed (.invalidNumber (String.ofList (c :: tail))))
  else if c = '"' then
    match quotedText cs with
    | some (text, n) => .ok ⟨some (.quoted (String.ofList text)), n⟩
    | none => .error (.malformed .unterminatedText)
  else if c = '$' then
    .ok ⟨some .dollar, 0⟩
  else if c = '\'' then
    .error (.unsupported .characterLiteral)
  else
    match punctuationAt (c :: cs) with
    | some mark => .ok ⟨some (.punct mark), mark.length - 1⟩
    | none => .error (.malformed (.unexpectedCharacter c))

end HeapShape.Token

namespace HeapShape

/-- The tokens of a text. -/
structure Tokens where
  /-- The tokens, without the end of the input. -/
  list : List Token
  /-- Where the input ends. -/
  finish : Span
  deriving DecidableEq

namespace Tokens

/-- The tokens and, behind them, the end of the input. -/
def all (ts : Tokens) : List Token :=
  ts.list ++ [⟨.eof, ts.finish⟩]

/-- One more token in front. -/
def push (ts : Tokens) (kind : Option Token.Kind) (span : Span) : Tokens :=
  match kind with
  | some k => { ts with list := ⟨k, span⟩ :: ts.list }
  | none => ts

/-- The tokens of the characters that stand at a position. -/
def scanFrom (origin : Span) : List Char → Except SourceError Tokens
  | [] => .ok ⟨[], origin⟩
  | c :: cs =>
    match Token.lexeme c cs with
    | .error cause => .error ⟨origin, cause⟩
    | .ok lex => do
      let rest ← scanFrom (origin.advance (c :: cs.take lex.more)) (cs.drop lex.more)
      .ok (rest.push lex.kind origin)
  termination_by cs => cs.length
  decreasing_by simp only [List.length_drop, List.length_cons]; omega

/-- The tokens of a text whose first character stands at `origin`. -/
def scan (origin : Span) (source : String) : Except SourceError Tokens :=
  scanFrom origin source.toList

end Tokens

end HeapShape
