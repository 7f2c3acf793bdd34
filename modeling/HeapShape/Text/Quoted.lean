import HeapShape.Text.Hidden

/-!
# Quoted text

How a text is shown inside a message: between double quotes, on one line, with
every character that would break the line, end the text or not be seen written
as an escape. A single quote is shown as it is.
-/

namespace HeapShape.Text

/-- A character by its number, in lower-case hexadecimal between braces. -/
def byNumber (c : Char) : String :=
  "\\u\x7b" ++ String.ofList (Nat.toDigits 16 c.toNat) ++ "\x7d"

/-- One character of a quoted text. -/
def escape (c : Char) : String :=
  if c = '\x00' then "\\0"
  else if c = '\t' then "\\t"
  else if c = '\r' then "\\r"
  else if c = '\n' then "\\n"
  else if c = '\\' then "\\\\"
  else if c = '"' then "\\\""
  else if isHidden c then byNumber c
  else c.toString

/-- The quoted form of a text. -/
def quote (s : String) : String :=
  "\"" ++ String.join (s.toList.map escape) ++ "\""

end HeapShape.Text
