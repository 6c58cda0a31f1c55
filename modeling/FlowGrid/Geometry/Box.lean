import FlowGrid.Number.Scalar

/-! Points and boxes on the canvas, whose `y` grows downward. -/

namespace FlowGrid

structure Point (α : Type) where
  x : α
  y : α
deriving DecidableEq, Repr

/-- A box by its upper left corner and its size. -/
structure Box (α : Type) where
  x : α
  y : α
  width : α
  height : α
deriving DecidableEq, Repr

namespace Box

variable {α : Type} [Scalar α]

def cx (b : Box α) : α := b.x + Scalar.half b.width

def cy (b : Box α) : α := b.y + Scalar.half b.height

def center (b : Box α) : Point α := ⟨b.cx, b.cy⟩

def right (b : Box α) : α := b.x + b.width

def bottom (b : Box α) : α := b.y + b.height

end Box
end FlowGrid
