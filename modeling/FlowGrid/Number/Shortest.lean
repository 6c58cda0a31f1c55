import FlowGrid.Number.Decimal

/-! The shortest decimal that reads back as a given binary number, and among those
the one nearest to it. The decimals of each length nearest to the number from
both sides are tried in turn, from one digit up to seventeen. -/

namespace FlowGrid.Shortest

/-- The count of digits before the point of `n / d`, which is zero or negative when the
number begins with zeros after the point: `10 ^ (k - 1) ≤ n / d < 10 ^ k`. -/
def decimalMagnitude (n d : Nat) : Int :=
  if d ≤ n then (Nat.toDigits 10 (n / d)).length
  else
    let zeros := (Nat.toDigits 10 (d / n)).length - 1
    if d ≤ n * tenTo zeros then 1 - zeros else -zeros

/-- A positive number with the ends of the interval that is read as it, in quarters of
`2 ^ exponent`. The ends belong to the interval when the significand is even. -/
structure Target where
  significand : Nat
  exponent : Int

namespace Target

def middle (t : Target) : Nat := 4 * t.significand

/-- A power of two has its lower neighbour at half the distance, unless it is the least
that is written with all bits. -/
def low (t : Target) : Nat :=
  if t.significand = twoTo 52 ∧ -1074 < t.exponent then 4 * t.significand - 1
  else 4 * t.significand - 2

def high (t : Target) : Nat := 4 * t.significand + 2

/-- A number of quarters, as a multiple of a unit in which `10 ^ e` is whole too. -/
def scaled (t : Target) (e : Int) (quarters : Nat) : Nat :=
  quarters * twoTo (t.exponent - 2).toNat * tenTo (-e).toNat

/-- The size of `10 ^ e` in the same unit. -/
def step (t : Target) (e : Int) : Nat := tenTo e.toNat * twoTo (2 - t.exponent).toNat

/-- Whether `digits * 10 ^ e` is read as the target. -/
def reads (t : Target) (digits : Nat) (e : Int) : Bool :=
  let x := digits * t.step e
  let low := t.scaled e t.low
  let high := t.scaled e t.high
  if t.significand % 2 = 0 then low ≤ x && x ≤ high else low < x && x < high

/-- The decimal of `count` digits that is read as the target and lies nearest to it,
the even one of two equally near, as a multiple of `10 ^ (k - count)`. -/
def withDigits? (t : Target) (k : Int) (count : Nat) : Option (Nat × Int) :=
  let e := k - count
  let below := t.scaled e t.middle / t.step e
  let above := below + 1
  match t.reads below e, t.reads above e with
  | true, true => some (roundQuotient (t.scaled e t.middle) (t.step e), e)
  | true, false => some (below, e)
  | false, true => some (above, e)
  | false, false => none

/-- The digits and the power of ten of the shortest decimal that is read as the target. -/
def shortest (t : Target) : Nat × Int :=
  let k := decimalMagnitude (t.significand * twoTo t.exponent.toNat) (twoTo (-t.exponent).toNat)
  ((List.range 17).findSome? fun i => t.withDigits? k (i + 1)).getD (t.significand, 0)

end Target

/-! ### Written form -/

/-- Digits without the zeros at their end. -/
def significant (ds : List Char) : List Char := Text.trimEnd (· == '0') ds

/-- The text of `digits * 10 ^ e`: positional while the point falls within sixteen digits
or at most four zeros after it, and with at least one place after the point. -/
def decimalText (digits : Nat) (e : Int) : String :=
  let written := Nat.toDigits 10 digits
  let point : Int := written.length + e
  let ds := significant written
  if -4 < point ∧ point ≤ 16 then
    if point ≤ 0 then
      String.ofList ("0.".toList ++ List.replicate (-point).toNat '0' ++ ds)
    else if ds.length ≤ point.toNat then
      String.ofList (ds ++ List.replicate (point.toNat - ds.length) '0' ++ ".0".toList)
    else String.ofList (ds.take point.toNat ++ '.' :: ds.drop point.toNat)
  else
    let x := point - 1
    let fraction := if ds.length ≤ 1 then [] else '.' :: ds.drop 1
    String.ofList (ds.take 1 ++ fraction) ++
      (if x < 0 then "e-" else "e+") ++ Decimal.padded 2 x.natAbs

/-- A number in the fewest digits that read back. -/
def ofFloat (x : Float) : String :=
  match Binary64.view x with
  | .notANumber => "nan"
  | .infinite negative => if negative then "-inf" else "inf"
  | .finite negative m e =>
    let text :=
      if m = 0 then "0.0"
      else
        let (digits, e10) := Target.shortest ⟨m, e⟩
        decimalText digits e10
    (if negative then "-" else "") ++ text

end FlowGrid.Shortest
