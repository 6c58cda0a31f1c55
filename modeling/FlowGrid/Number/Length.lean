import FlowGrid.Number.Scalar
import FlowGrid.Number.Shortest

/-! Lengths as they are given: whole numbers or fractions. Whole numbers stay whole under
addition and multiplication, and their text has no point. -/

namespace FlowGrid

inductive Length
  | whole (n : Int)
  | fraction (x : Float)

namespace Length

def toFloat : Length → Float
  | .whole n => Binary64.ofInt n
  | .fraction x => x

def text : Length → String
  | .whole n => toString n
  | .fraction x => Shortest.ofFloat x

/-- At most zero; what is not a number is neither that nor positive. -/
def isAtMostZero : Length → Bool
  | .whole n => n ≤ 0
  | .fraction x => x ≤ Binary64.ofInt 0

instance : IntCast Length := ⟨.whole⟩

instance : Add Length where
  add
    | .whole m, .whole n => .whole (m + n)
    | a, b => .fraction (a.toFloat + b.toFloat)

instance : Mul Length where
  mul
    | .whole m, .whole n => .whole (m * n)
    | a, b => .fraction (a.toFloat * b.toFloat)

end Length
end FlowGrid
