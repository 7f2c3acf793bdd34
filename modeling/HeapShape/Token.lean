import HeapShape.Source.Span
import HeapShape.Text.Quoted

/-!
# Tokens

The words of a program text and of a directive: identifiers, numbers, quoted
texts, the dollar sign and punctuation. The end of the input is a kind of its
own, so that a reader can always ask for the next token.
-/

namespace HeapShape

/-- What a token is. -/
inductive Token.Kind where
  /-- An identifier or keyword. -/
  | ident (name : String)
  /-- A number, at most `2 ^ 63 - 1`. -/
  | number (value : Nat)
  /-- A text in double quotes, with its escapes resolved. -/
  | quoted (contents : String)
  /-- The dollar sign, which introduces the relations of directives. -/
  | dollar
  /-- A punctuation mark. -/
  | punct (mark : String)
  /-- The end of the input. -/
  | eof
  deriving DecidableEq, Inhabited

/-- A token and the position of its first character. -/
structure Token where
  /-- What the token is. -/
  kind : Token.Kind
  /-- Where it starts. -/
  span : Span
  deriving DecidableEq, Inhabited

/-- How a message names a token. -/
def Token.Kind.describe : Token.Kind → String
  | .ident name => "`" ++ name ++ "`"
  | .number value => "`" ++ toString value ++ "`"
  | .quoted contents => Text.quote contents
  | .dollar => "`$`"
  | .punct mark => "`" ++ mark ++ "`"
  | .eof => "end of input"

end HeapShape
