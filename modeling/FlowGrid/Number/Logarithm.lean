import FlowGrid.Number.FixedPoint

/-! The natural logarithm of a positive number, as the sum of two numbers. The argument is a
power of two times a number `z` of a fixed range, which is cut into 128 rows. Each row has a
short number near the inverse of its middle: `z` times this inverse is `1 + r` with a small
`r`, and the logarithm is that of the power, that of the row, and a polynomial in `r`. The
first two and the leading terms of the third are summed with what their roundings lose. -/

namespace FlowGrid.Binary64.Logarithm

/-- The bits of the least number of the range, which is about `0.7057`. The numbers of the
range are those whose bits are less than `2 ^ 52` larger, and each row has `2 ^ 45` of them. -/
def origin : Nat := 0x3fe6955500000000

/-- The number with the given bits, if it lies between one half and two, as a count of
units of `2 ^ -53`. -/
def unitsOfBits (bits : Nat) : Nat :=
  if bits < 1023 * twoTo 52 then bits - 1021 * twoTo 52 else 2 * (bits - 1022 * twoTo 52)

/-- The middle of a row, as a count of units of `2 ^ -54`. -/
def middle (row : Nat) : Nat :=
  unitsOfBits (origin + row * twoTo 45) + unitsOfBits (origin + (row + 1) * twoTo 45)

/-- The inverse of a row's middle, to the nearest `256`th part, or to the nearest `128`th
part if it is above one, as a count of `256`th parts. -/
def inverse (row : Nat) : Nat :=
  let m := middle row
  if twoTo 54 ≤ m then roundQuotient (twoTo 62) m else 2 * roundQuotient (twoTo 61) m

/-- The logarithm that a row stands for, in two parts. -/
def rowPart (row : Nat) : Float × Float :=
  FixedPoint.parts 43 (FixedPoint.logQuotient 256 (inverse row))

/-- The logarithm of two in two parts. -/
def logTwo : Float × Float := FixedPoint.parts 43 FixedPoint.logTwo

/-- The polynomial `p` with `log (1 + r) = r + q + q r p`, where `q = - r² / 2`. -/
def polynomial (r q : Float) : Float :=
  let low := fused r (ofUnits 0x8000000000003 52) (ofUnits (-0xaaaaaaaaaaab) 48)
  let mid := fused r (ofUnits (-0xaaaaaaa94d23d) 52) (ofUnits 0xcccccccacaaa7 52)
  let high := fused r (ofUnits 0x10002b8b263fc3 52) (ofUnits (-0x12495b9b4845e9) 52)
  fused q (fused high q mid) low

/-- The logarithm of `2 ^ k * z`, where `z` lies in the given row. -/
def inRow (row : Nat) (k : Int) (z : Float) : Float × Float :=
  let (rowUpper, rowLower) := rowPart row
  let r := fused z (ofUnits (inverse row) 8) (ofInt (-1))
  let start := fused (ofInt k) logTwo.1 rowUpper
  let sum := start + r
  let half := ofUnits (-1) 1 * r
  let q := r * half
  let upper := sum + q
  let lost := fused (ofInt k) logTwo.2 rowLower + (start - sum + r) + fused half r (-q)
    + (sum - upper + q)
  let lower := fused (r * q) (polynomial r q) lost
  let total := upper + lower
  (total, upper - total + lower)

/-- The bits of `m * 2 ^ e`, for a positive `m`, as if no exponent were too small. -/
def bits (m : Nat) (e : Int) : Int :=
  (m.log2 + e + 1022) * twoTo 52 + (m * twoTo (52 - m.log2) : Nat)

/-- The logarithm of `m * 2 ^ e`, for a positive `m` with at most 53 digits. -/
def ofSignificand (m : Nat) (e : Int) : Float × Float :=
  let k := (bits m e - origin) / twoTo 52
  let z := bits m e - k * twoTo 52
  inRow ((z - origin) / twoTo 45).toNat k (Float.ofBits (UInt64.ofNat z.toNat))

end FlowGrid.Binary64.Logarithm
