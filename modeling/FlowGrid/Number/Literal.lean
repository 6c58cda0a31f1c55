import FlowGrid.Number.Binary64
import FlowGrid.Text.Blank
import FlowGrid.Text.Digit

/-! Number literals: a sign, then digits with an optional point and an optional power
of ten, or the name of infinity or of no number. Digits of any script are taken,
single underscores may stand between digits, and outer blanks are dropped. -/

namespace FlowGrid.Literal

/-- Blanks around a literal; the information separators are not among them. -/
def isOuterBlank (c : Char) : Bool := isBlank c && !(28 ≤ c.toNat && c.toNat ≤ 31)

/-- A digit of any script in its ASCII form, other characters as they are. -/
def plainDigit (c : Char) : Char :=
  match digitValue? c with
  | some d => Char.ofNat ('0'.toNat + d)
  | none => c

/-- Removes underscores, each of which has to stand between two digits; `before` is the
character in front. -/
def dropUnderscores (before : Char) : List Char → Option (List Char)
  | [] => some []
  | '_' :: rest =>
    if before.isDigit && rest.head?.any Char.isDigit then dropUnderscores '_' rest else none
  | c :: rest => (dropUnderscores c rest).map (c :: ·)

/-- A sign, if there is one: whether it is negative, and what follows. -/
def sign : List Char → Bool × List Char
  | '-' :: rest => (true, rest)
  | '+' :: rest => (false, rest)
  | cs => (false, cs)

/-- The digits at the front and the rest. -/
def digits (cs : List Char) : List Char × List Char := cs.span Char.isDigit

def value (ds : List Char) : Nat := ds.foldl (fun n d => 10 * n + (d.toNat - '0'.toNat)) 0

/-- The power of ten that the rest of a literal names; nothing names the power zero. -/
def exponent? : List Char → Option Int
  | [] => some 0
  | c :: rest =>
    if c = 'e' || c = 'E' then
      let (negative, rest) := sign rest
      let (ds, rest) := digits rest
      if ds.isEmpty || !rest.isEmpty then none
      else some (if negative then -(value ds : Int) else value ds)
    else none

/-- The number nearest to `± n * 10 ^ e`, where `n` has `count` digits. Powers far out of
range are not computed. -/
def nearest (negative : Bool) (n count : Nat) (e : Int) : Float :=
  let top : Int := count + e
  if n = 0 || top < -400 then Binary64.ofQuotient negative 0 1
  else if 400 < e then Binary64.ofQuotient negative (tenTo 400) 1
  else Binary64.ofQuotient negative (n * tenTo e.toNat) (tenTo (-e).toNat)

/-- An unsigned literal in digits. -/
def decimal? (negative : Bool) (cs : List Char) : Option Float :=
  let (whole, rest) := digits cs
  let (fraction, rest) :=
    match rest with
    | '.' :: rest => digits rest
    | rest => ([], rest)
  let all := whole ++ fraction
  if all.isEmpty then none
  else (exponent? rest).map fun e => nearest negative (value all) all.length (e - fraction.length)

/-- A literal without outer blanks and underscores. -/
def plain? (cs : List Char) : Option Float :=
  let (negative, rest) := sign cs
  let name := rest.map Char.toLower
  if name = "inf".toList || name = "infinity".toList then
    some (if negative then -Binary64.infinity else Binary64.infinity)
  else if name = "nan".toList then some Binary64.notANumber
  else decimal? negative rest

/-- The number that a literal names. -/
def read? (s : String) : Option Float :=
  (dropUnderscores ' ' ((Text.trimBoth isOuterBlank s.toList).map plainDigit)).bind plain?

end FlowGrid.Literal
