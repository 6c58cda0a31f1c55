import FlowGrid.Geometry.Box
import FlowGrid.Keyword
import FlowGrid.Side

/-! Outlines of shapes and the points where rays from the center leave them. A shape
fills its box, or the centered square in it; links touch it where the normals of the
sides do. -/

namespace FlowGrid

variable {α : Type} [Scalar α]

namespace Shape

/-- Half the width and half the height of the outline in a box. -/
def extents (shape : Shape) (box : Box α) : α × α :=
  if shape.isSquared then
    let side := if box.height < box.width then box.height else box.width
    (Scalar.half side, Scalar.half side)
  else (Scalar.half box.width, Scalar.half box.height)

/-- How far a ray can go before it has covered `extent` on one axis, `u` being its part on
that axis; a ray along the other axis never does. -/
def reach (extent u : α) : Option α :=
  if Scalar.tolerance < Scalar.abs u then some (extent / Scalar.abs u) else none

/-- The smaller of two distances, an absent one having no bound. -/
def nearer : Option α → Option α → α
  | some a, some b => if b < a then b else a
  | some a, none => a
  | none, some b => if Scalar.isBounded b then b else Scalar.unbounded
  | none, none => Scalar.unbounded

/-- The distance from the center to the outline in the direction of the unit vector
`(ux, uy)`, given half the width and half the height. -/
def distance (shape : Shape) (hw hh ux uy : α) : Except ArithmeticFault α :=
  match shape with
  | .ellipse | .circle => do
    let a ← Scalar.square (← Scalar.quotient ux hw)
    let b ← Scalar.square (← Scalar.quotient uy hh)
    Scalar.quotient ((1 : Int) : α) (Scalar.sqrt (a + b))
  | .diamond | .angledSquare => do
    let a ← Scalar.quotient (Scalar.abs ux) hw
    let b ← Scalar.quotient (Scalar.abs uy) hh
    Scalar.quotient ((1 : Int) : α) (a + b)
  | _ => .ok (nearer (reach hw ux) (reach hh uy))

/-- The point where the ray from the center along `(dx, dy)` leaves the outline; a ray
without a direction stays at the center. -/
def boundaryPoint (shape : Shape) (box : Box α) (dx dy : α) :
    Except ArithmeticFault (Point α) :=
  let length := Scalar.length dx dy
  if length < Scalar.tolerance then .ok box.center
  else do
    let ux := dx / length
    let uy := dy / length
    let (hw, hh) := shape.extents box
    let t ← shape.distance hw hh ux uy
    pure ⟨box.cx + t * ux, box.cy + t * uy⟩

/-- The point where links touch a side. -/
def anchor (shape : Shape) (box : Box α) (side : Side) : Except ArithmeticFault (Point α) :=
  shape.boundaryPoint box (side.dx : α) (side.dy : α)

end Shape
end FlowGrid
