import FlowGrid.Number.FixedPoint

/-! The exponential of the sum of two numbers. The argument is taken apart into a whole
number of steps of `log 2 / 128` and a small rest; the steps give a power of two and one of
128 rows, and the rest goes through a polynomial. -/

namespace FlowGrid.Binary64.Exponential

/-- The digits of `2 ^ (row / 128)`, as a count of units of `2 ^ -52`. -/
def digits (row : Nat) : Nat :=
  roundQuotient (FixedPoint.exp (FixedPoint.logTwo * row / 128)).natAbs
    (twoTo (FixedPoint.places - 52))

/-- The number nearest to `2 ^ (row / 128)`. -/
def power (row : Nat) : Float := ofUnits (digits row) 52

/-- What the exact power has more than the nearest number, in proportion to it. -/
def excess (row : Nat) : Float :=
  let value := FixedPoint.exp (FixedPoint.logTwo * row / 128)
  let near : Int := digits row * twoTo (FixedPoint.places - 52)
  ofQuotient (value < near) (value - near).natAbs near.natAbs

/-- How many steps there are in one. -/
def stepsInOne : Float :=
  ofQuotient false (128 * twoTo FixedPoint.places) FixedPoint.logTwo.natAbs

/-- The length of a step in two parts. -/
def step : Float × Float := FixedPoint.parts 44 (FixedPoint.logTwo / 128)

/-- What `exp r` has more than one, and `extra` besides. -/
def polynomial (r extra : Float) : Float :=
  let rr := r * r
  let low := fused (ofUnits 0x555555555550f 53) r (ofUnits 0x1ffffffffffdbd 54)
  let high := fused r (ofUnits 0x11111167a4d017 59) (ofUnits 0x155555cf172b91 57)
  fused high (rr * rr) (fused low rr (r + extra))

/-- The argument below which the polynomial's part is rounded before it is added. -/
def smallest : Float := ofInt (-512)

/-- The exponential of `upper + lower`, where `lower` is small against `upper`. -/
def ofParts (upper lower : Float) : Float :=
  let steps := nearestInt (toDyadic upper * toDyadic stepsInOne)
  let r := lower + fused (ofInt steps) (-step.2) (fused (ofInt steps) (-step.1) upper)
  let row := (steps % 128).toNat
  let more := polynomial r (excess row)
  let value :=
    if upper ≤ smallest then toDyadic (power row) + toDyadic (power row * more)
    else toDyadic (fused (power row) more (power row))
  ofDyadic (value <<< (steps / 128))

end FlowGrid.Binary64.Exponential
