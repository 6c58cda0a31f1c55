import FlowGrid.Number.Decimal
import FlowGrid.Number.Exponential
import FlowGrid.Number.Logarithm
import FlowGrid.Number.Norm

/-! The numbers that lengths and coordinates are computed with. The geometry is written
for any numbers with these operations; it runs on binary numbers of 64 bits, and reads
as exact geometry over an ordered field with roots. -/

namespace FlowGrid

/-- What can stop a computation. -/
inductive ArithmeticFault
  | divisionByZero
  | powerTooLarge
  | infinite
  | notANumber
deriving DecidableEq, Repr

def ArithmeticFault.message : ArithmeticFault → String
  | .divisionByZero => "float division by zero"
  | .powerTooLarge => "(34, 'Numerical result out of range')"
  | .infinite => "cannot convert float infinity to integer"
  | .notANumber => "cannot convert float NaN to integer"

class Scalar (α : Type) extends Add α, Sub α, Mul α, Div α, Neg α, LT α, LE α, IntCast α where
  decidableLT : DecidableLT α
  decidableLE : DecidableLE α
  abs : α → α
  sqrt : α → α
  /-- The length of a vector with the given parts. -/
  length : α → α → α
  square : α → Except ArithmeticFault α
  /-- Differences below this one are taken for none. -/
  tolerance : α
  /-- Stands for a distance without a bound. -/
  unbounded : α
  isBounded : α → Bool
  /-- The number nearest to the nearest hundredth. -/
  rounded : α → α
  /-- The whole number that is left without the places after the point. -/
  truncated : α → Except ArithmeticFault Int
  isInt : α → Int → Bool
  /-- The sign and the nearest count of hundredths, the even one of two equally near. -/
  hundredths : α → Bool × Nat

instance Scalar.instDecidableLT {α : Type} [Scalar α] : DecidableLT α := Scalar.decidableLT

instance Scalar.instDecidableLE {α : Type} [Scalar α] : DecidableLE α := Scalar.decidableLE

namespace Scalar

variable {α : Type} [Scalar α]

def isZero (x : α) : Bool := x ≤ ((0 : Int) : α) && ((0 : Int) : α) ≤ x

/-- The quotient of two numbers, unless the divisor is zero. -/
def quotient (x y : α) : Except ArithmeticFault α :=
  if isZero y then .error .divisionByZero else .ok (x / y)

def half (x : α) : α := x / ((2 : Int) : α)

/-- The text of a number. It is rounded first; if it is whole then, it is written as a whole
number, and otherwise with two places, of which zeros at the end are dropped. -/
def text (x : α) : Except ArithmeticFault String := do
  let r := rounded x
  let whole ← truncated r
  if isInt r whole then pure (toString whole)
  else
    let (negative, n) := hundredths r
    pure (Decimal.trimmed (Decimal.signedText 2 negative n))

end Scalar

/-! ### Binary numbers -/

namespace Binary64

/-- The square of a number, as the exponential of twice its logarithm. It is off by little
more than half a unit in the last place, so it is nearly always the nearest number. -/
def square (x : Float) : Except ArithmeticFault Float :=
  match view x with
  | .finite _ 0 _ => .ok (ofInt 0)
  | .finite _ m e =>
    let (upper, lower) := Logarithm.ofSignificand m e
    let y := Exponential.ofParts (ofInt 2 * upper) (ofInt 2 * lower)
    if y.isInf then .error .powerTooLarge else .ok y
  | _ => .ok (x * x)

/-- A finite number rounded to hundredths; any other stays as it is. -/
def rounded (x : Float) : Float :=
  match view x with
  | .finite negative m e => ofQuotient negative (Decimal.units 2 m e) (tenTo 2)
  | _ => x

def truncated (x : Float) : Except ArithmeticFault Int :=
  match view x with
  | .notANumber => .error .notANumber
  | .infinite _ => .error .infinite
  | .finite negative m e =>
    let n : Int := (m * twoTo e.toNat / twoTo (-e).toNat : Nat)
    .ok (if negative then -n else n)

/-- Whether a number is exactly the given whole number. -/
def isInt (x : Float) (i : Int) : Bool :=
  match view x with
  | .finite negative m e =>
    let n : Int := (m * twoTo e.toNat : Nat)
    (if negative then -n else n) = i * twoTo (-e).toNat
  | _ => false

/-- The hundredths of a finite number; any other counts as zero. -/
def hundredths (x : Float) : Bool × Nat :=
  match view x with
  | .finite negative m e => (negative, Decimal.units 2 m e)
  | _ => (false, 0)

end Binary64

instance : Scalar Float where
  decidableLT := inferInstance
  decidableLE := inferInstance
  intCast := Binary64.ofInt
  abs := Float.abs
  sqrt := Float.sqrt
  length := Binary64.length
  square := Binary64.square
  tolerance := Binary64.ofQuotient false 1 (tenTo 9)
  unbounded := Binary64.infinity
  isBounded x := x < Binary64.infinity
  rounded := Binary64.rounded
  truncated := Binary64.truncated
  isInt := Binary64.isInt
  hundredths := Binary64.hundredths

end FlowGrid
