import FlowGrid.Number.Power
import FlowGrid.Number.Rounding

/-! Binary numbers of 64 bits and the exact values behind them. A finite one is a
whole significand times a power of two; a quotient is written as the nearest
number, a tie going to the even significand. -/

namespace FlowGrid.Binary64

/-- What the bits stand for: a finite number is `± significand * 2 ^ exponent`. -/
inductive View
  | notANumber
  | infinite (negative : Bool)
  | finite (negative : Bool) (significand : Nat) (exponent : Int)
deriving DecidableEq, Repr

def viewBits (bits : Nat) : View :=
  let negative := bits / twoTo 63 % 2 == 1
  let field : Nat := bits / twoTo 52 % twoTo 11
  let fraction : Nat := bits % twoTo 52
  if field = 2047 then if fraction = 0 then .infinite negative else .notANumber
  else if field = 0 then .finite negative fraction (-1074)
  else .finite negative (twoTo 52 + fraction) ((field : Int) - 1075)

def view (x : Float) : View := viewBits x.toBits.toNat

/-! ### Rounding to the nearest number -/

/-- The whole part of the binary logarithm of `n / d`, both being positive. -/
def quotientLog2 (n d : Nat) : Int :=
  let e : Int := (n.log2 : Int) - d.log2
  if d * twoTo e.toNat ≤ n * twoTo (-e).toNat then e else e - 1

/-- The bits of positive infinity. -/
def infinityBits : Nat := 2047 * twoTo 52

/-- The bits of the number nearest to `n / d`; what is too large becomes infinity. -/
def quotientBits (n d : Nat) : Nat :=
  if n = 0 then 0
  else
    let e := max (quotientLog2 n d - 52) (-1074)
    let significand := roundQuotient (n * twoTo (-e).toNat) (d * twoTo e.toNat)
    min ((e + 1074).toNat * twoTo 52 + significand) infinityBits

/-- The number nearest to `± n / d`. -/
def ofQuotient (negative : Bool) (n d : Nat) : Float :=
  Float.ofBits (UInt64.ofNat ((if negative then twoTo 63 else 0) + quotientBits n d))

def ofInt (i : Int) : Float := ofQuotient (i < 0) i.natAbs 1

def infinity : Float := Float.ofBits (UInt64.ofNat infinityBits)

def notANumber : Float := Float.ofBits (UInt64.ofNat (infinityBits + twoTo 51))

/-- The number `2 ^ e`. -/
def ofPower (e : Int) : Float := ofQuotient false (twoTo e.toNat) (twoTo (-e).toNat)

end FlowGrid.Binary64
