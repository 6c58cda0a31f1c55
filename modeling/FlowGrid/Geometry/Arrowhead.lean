import FlowGrid.Geometry.Box
import FlowGrid.Keyword

/-! Arrowheads: equilateral triangles whose apex touches an end of a path and whose axis
runs along the segment at that end. -/

namespace FlowGrid

/-- An end of a path. -/
inductive Terminal
  | start
  | finish
deriving DecidableEq, Repr

def Terminal.name : Terminal → String
  | .start => "start"
  | .finish => "end"

structure Arrowhead (α : Type) where
  terminal : Terminal
  apex : Point α
  left : Point α
  right : Point α
deriving DecidableEq, Repr

namespace Arrowhead

variable {α : Type} [Scalar α]

/-- The length of a side, unless another one is asked for. -/
def defaultSize : α := ((12 : Int) : α)

/-- The arrowhead with its apex at `apex` that points away from `previous`. -/
def pointingFrom (terminal : Terminal) (apex previous : Point α) (size : α) :
    Except ArithmeticFault (Arrowhead α) := do
  let dx := apex.x - previous.x
  let dy := apex.y - previous.y
  let length := Scalar.length dx dy
  let ux ← Scalar.quotient dx length
  let uy ← Scalar.quotient dy length
  let depth := Scalar.half (size * Scalar.sqrt ((3 : Int) : α))
  let baseX := apex.x - ux * depth
  let baseY := apex.y - uy * depth
  let px := Scalar.half (-uy * size)
  let py := Scalar.half (ux * size)
  pure ⟨terminal, apex, ⟨baseX + px, baseY + py⟩, ⟨baseX - px, baseY - py⟩⟩

/-- The arrowhead of an end, if it is wanted. -/
def ifWanted (wanted : Bool) (terminal : Terminal) (apex previous : Point α) (size : α) :
    Except ArithmeticFault (List (Arrowhead α)) :=
  if wanted then (pointingFrom terminal apex previous size).map ([·]) else .ok []

/-- The arrowheads of a path, the one at its start first. A path of less than two points
has none. -/
def ofPath (points : List (Point α)) (ends : Arrowheads) (size : α) :
    Except ArithmeticFault (List (Arrowhead α)) :=
  match points, points.reverse with
  | first :: second :: _, last :: previous :: _ => do
    let atStart ← ifWanted ends.atStart .start first second size
    let atFinish ← ifWanted ends.atFinish .finish last previous size
    pure (atStart ++ atFinish)
  | _, _ => .ok []

end Arrowhead
end FlowGrid
