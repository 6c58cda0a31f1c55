import FlowGrid.Number.Dyadic

/-! Real numbers to 128 binary places, each as a count of units of the last place, with the
logarithm of a quotient and the exponential by their series. -/

namespace FlowGrid.FixedPoint

def places : Nat := 128

def one : Int := twoTo places

/-- How many terms of a series are summed: what they leave out is below the last place. -/
def terms : Nat := 48

/-- The logarithm of `n / d`. With `y = (n - d) / (n + d)` it is `2 y` times the sum of
`y ^ (2 k) / (2 k + 1)`. -/
def logQuotient (n d : Int) : Int :=
  let y := (n - d) * one / (n + d)
  let yy := y * y / one
  let add (k : Nat) (rest : Int) := one / (2 * k + 1) + yy * rest / one
  2 * y * (List.range terms).foldr add 0 / one

/-- The exponential of `x`, which is `1 + x (1 + x / 2 (1 + x / 3 (…)))`. -/
def exp (x : Int) : Int :=
  let add (k : Nat) (rest : Int) := one + x * rest / (one * (k + 1))
  (List.range terms).foldr add one

def logTwo : Int := logQuotient 2 1

/-- The number nearest to `x`. -/
def toNumber (x : Int) : Float := Binary64.ofUnits x places

/-- The multiple of `2 ^ -p` nearest to `x`. -/
def upperPart (p : Nat) (x : Int) : Int :=
  let unit := twoTo (places - p)
  x.sign * (roundQuotient x.natAbs unit * unit : Nat)

/-- A number with few digits near `x`, and the number nearest to what it leaves out. -/
def parts (p : Nat) (x : Int) : Float × Float :=
  (toNumber (upperPart p x), toNumber (x - upperPart p x))

end FlowGrid.FixedPoint
