import FlowGrid.Number.Binary64

/-! Exact values of binary numbers. A finite number is a dyadic fraction; sums and products
of these are exact, and a result is rounded once, when it becomes a number again. -/

namespace FlowGrid.Binary64

/-- The exact value of a finite number; any other counts as zero. -/
def toDyadic (x : Float) : Dyadic :=
  match view x with
  | .finite negative m e => Dyadic.ofIntWithPrec (if negative then -m else m) (-e)
  | _ => 0

/-- The number nearest to an exact value. -/
def ofDyadic : Dyadic → Float
  | .zero => ofInt 0
  | .ofOdd n k _ => ofQuotient (n < 0) (n.natAbs * twoTo (-k).toNat) (twoTo k.toNat)

/-- The whole number nearest to an exact value; of two equally near ones, the even one. -/
def nearestInt : Dyadic → Int
  | .zero => 0
  | .ofOdd n k _ =>
    n.sign * (roundQuotient (n.natAbs * twoTo (-k).toNat) (twoTo k.toNat) : Nat)

/-- The number nearest to `x * y + z`. -/
def fused (x y z : Float) : Float := ofDyadic (toDyadic x * toDyadic y + toDyadic z)

/-- A number given by a whole number of units of `2 ^ -places`. -/
def ofUnits (units : Int) (places : Nat) : Float :=
  ofQuotient (units < 0) units.natAbs (twoTo places)

end FlowGrid.Binary64
