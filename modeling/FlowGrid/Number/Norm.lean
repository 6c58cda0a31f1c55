import FlowGrid.Number.Binary64

/-! The length of a vector in binary numbers. The parts are scaled by a power of two so
that the larger one lies between one half and one, their squares are summed together with
what the roundings lose, and the root of the sum is corrected once by what its own square
leaves over. So a length neither overflows nor vanishes on the way, and it is off by less
than one unit in its last place. -/

namespace FlowGrid.Binary64

/-- A number as a sum of two with half as many digits each. -/
def halves (x : Float) : Float × Float :=
  let stretched := x * ofInt 134217729
  let upper := stretched - (stretched - x)
  (upper, x - upper)

/-- What rounding loses when a number is added to a sum that is not smaller. -/
def loss (sum x : Float) : Float := sum - (sum + x) + x

/-! ### Sums of squares -/

/-- A sum of squares that began at one, so that no addend exceeds it, and what it lacks:
a square falls into an outer, a cross and an inner term, and what each of them lost is
kept apart. -/
structure SquareSum where
  total : Float
  outer : Float
  cross : Float
  inner : Float

namespace SquareSum

def start : SquareSum := ⟨ofInt 1, ofInt 0, ofInt 0, ofInt 0⟩

/-- Adds the square of `x`. Its inner term is too small for the total. -/
def insert (s : SquareSum) (x : Float) : SquareSum :=
  let (u, v) := halves x
  let uu := u * u
  let uv := ofInt 2 * u * v
  let total := s.total + uu
  ⟨total + uv, s.outer + loss s.total uu, s.cross + loss total uv, s.inner + v * v⟩

/-- Takes the square of `x` away. -/
def erase (s : SquareSum) (x : Float) : SquareSum :=
  let (u, v) := halves x
  let uu := -u * u
  let uv := ofInt (-2) * u * v
  let vv := -v * v
  let total := s.total + uu
  let rest := total + uv
  ⟨rest + vv, s.outer + loss s.total uu, s.cross + loss total uv, s.inner + loss rest vv⟩

def value (s : SquareSum) : Float := s.total - ofInt 1 + (s.outer + s.cross + s.inner)

end SquareSum

/-! ### Lengths -/

/-- The length of a vector whose larger part lies between `2 ^ (e - 1)` and `2 ^ e`. -/
def scaledLength (e : Int) (x y : Float) : Float :=
  let unit := ofPower (-e)
  let squares := (SquareSum.start.insert (x * unit)).insert (y * unit)
  let root := squares.value.sqrt
  (root + (squares.erase root).value / (ofInt 2 * root)) / unit

/-- The length of a vector in proportion to its larger part, for parts so small that no
power of two brings them near one. -/
def relativeLength (x y : Float) : Float :=
  let largest := if x.abs < y.abs then y.abs else x.abs
  let xx := x / largest * (x / largest)
  let yy := y / largest * (y / largest)
  let total := ofInt 1 + xx
  let lost := loss (ofInt 1) xx + loss total yy
  largest * (total + yy - ofInt 1 + lost).sqrt

/-- The length of the vector `(x, y)`; it is infinite as soon as one part is. -/
def length (x y : Float) : Float :=
  match view x, view y with
  | .infinite _, _ => infinity
  | _, .infinite _ => infinity
  | .notANumber, _ => notANumber
  | _, .notANumber => notANumber
  | .finite _ m p, .finite _ n q =>
    let e := max (m.log2 + p) (n.log2 + q) + 1
    if m = 0 && n = 0 then ofInt 0
    else if -1023 ≤ e then scaledLength e x y
    else relativeLength x y

end FlowGrid.Binary64
