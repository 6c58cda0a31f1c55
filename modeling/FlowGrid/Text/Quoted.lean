import FlowGrid.Text.Printable

/-! Quoted texts for messages. A text stands between single quotes, or between
double quotes when it holds a single quote and no double one; a backslash marks
the enclosing quote, itself, and every character that does not print. -/

namespace FlowGrid.Text

/-- The lower-case hexadecimal digits of `n`, with zeros before them up to `width`. -/
def hex (width n : Nat) : String :=
  let digits := Nat.toDigits 16 n
  String.ofList (List.replicate (width - digits.length) '0' ++ digits)

/-- The number of a character in the shortest form that holds it. -/
def numberedEscape (c : Char) : String :=
  let n := c.toNat
  if n < 0x100 then "\\x" ++ hex 2 n
  else if n < 0x10000 then "\\u" ++ hex 4 n
  else "\\U" ++ hex 8 n

/-- How `c` is written between the quotes `quote`. -/
def quotedChar (quote c : Char) : String :=
  if c = quote || c = '\\' then "\\" ++ c.toString
  else if c = '\n' then "\\n"
  else if c = '\r' then "\\r"
  else if c = '\t' then "\\t"
  else if isPrintable c then c.toString
  else numberedEscape c

/-- The quote that encloses a text. -/
def enclosingQuote (s : String) : Char :=
  if s.toList.contains '\'' && !s.toList.contains '"' then '"' else '\''

/-- A text between quotes. -/
def quoted (s : String) : String :=
  let q := enclosingQuote s
  q.toString ++ String.join (s.toList.map (quotedChar q)) ++ q.toString

end FlowGrid.Text
