import FlowGrid.Number.Binary64
import FlowGrid.Text.Blank

/-! Decimal texts. Exact values are rounded to a number of places, a tie going to
the even digit. A count of hundredths has one canonical text: no superfluous
zero, no point without a digit after it, and no negative zero. -/

namespace FlowGrid.Decimal

/-! ### Fixed places -/

/-- How many units of `10 ^ -places` are nearest to `significand * 2 ^ exponent`. -/
def units (places significand : Nat) (exponent : Int) : Nat :=
  roundQuotient (significand * tenTo places * twoTo exponent.toNat) (twoTo (-exponent).toNat)

/-- The digits of `n`, with zeros before them up to `width`. -/
def padded (width n : Nat) : String :=
  let digits := Nat.toDigits 10 n
  String.ofList (List.replicate (width - digits.length) '0' ++ digits)

/-- The text of `n` units of `10 ^ -places`, with all places written. -/
def fixedText (places n : Nat) : String :=
  toString (n / tenTo places) ++ "." ++ padded places (n % tenTo places)

/-- The text of `± n` units of `10 ^ -places`; zero keeps its sign. -/
def signedText (places : Nat) (negative : Bool) (n : Nat) : String :=
  (if negative then "-" else "") ++ fixedText places n

/-- A decimal text without the zeros at its end, and without a point that is then the last. -/
def trimmed (s : String) : String :=
  String.ofList (Text.trimEnd (· == '.') (Text.trimEnd (· == '0') s.toList))

/-- A number with `places` places after the point; zero has no sign. -/
def ofFloat (places : Nat) (x : Float) : String :=
  match Binary64.view x with
  | .notANumber => "nan"
  | .infinite negative => if negative then "-inf" else "inf"
  | .finite negative m e =>
    let n := units places m e
    (if negative && n != 0 then "-" else "") ++ fixedText places n

/-! ### Hundredths -/

/-- The canonical text of `n` hundredths. -/
def hundredthsText (n : Nat) : String :=
  let whole := toString (n / 100)
  let part := n % 100
  if part = 0 then whole
  else if part % 10 = 0 then whole ++ "." ++ toString (part / 10)
  else whole ++ "." ++ padded 2 part

/-- The canonical text of `h` hundredths, which may be negative. -/
def ofHundredths (h : Int) : String :=
  (if h < 0 then "-" else "") ++ hundredthsText h.natAbs

end FlowGrid.Decimal
