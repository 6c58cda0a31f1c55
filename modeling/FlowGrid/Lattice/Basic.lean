import FlowGrid.Geometry.Metrics
import FlowGrid.Side

/-! The routing lattice. Odd indices run through the centers of cells and even ones
through the gaps between them, so `0` and `2 * n` are the lanes of the border. A point
with two odd indices is the center of a cell. -/

namespace FlowGrid.Lattice

structure Vertex where
  x : Int
  y : Int
deriving DecidableEq, Repr, Hashable

/-- A direction of movement; a step goes to the next vertex along an axis. -/
structure Heading where
  dx : Int
  dy : Int
deriving DecidableEq, Repr, Hashable

namespace Heading

def reverse (h : Heading) : Heading := ⟨-h.dx, -h.dy⟩

/-- Outward, along the normal of a side. -/
def ofSide (side : Side) : Heading := ⟨side.dx, side.dy⟩

/-- The steps, in the order in which equally good routes prefer them. -/
def steps : List Heading := [⟨1, 0⟩, ⟨-1, 0⟩, ⟨0, 1⟩, ⟨0, -1⟩]

theorem reverse_reverse (h : Heading) : h.reverse.reverse = h := by
  simp [reverse]

end Heading

namespace Vertex

def move (v : Vertex) (h : Heading) : Vertex := ⟨v.x + h.dx, v.y + h.dy⟩

/-- The center of a cell. -/
def ofCell (row col : Int) : Vertex := ⟨2 * col + 1, 2 * row + 1⟩

/-- The vertex in the lane just outside a side of a cell. -/
def stub (row col : Int) (side : Side) : Vertex := (ofCell row col).move (.ofSide side)

end Vertex

/-! ### On the canvas -/

variable {α : Type} [Scalar α]

/-- Where the lane or the center line of an index lies along an axis. -/
def coordinate (size gap : α) (i : Int) : α :=
  let base := ((i / 2 : Int) : α) * (size + gap)
  if i % 2 = 0 then base + Scalar.half gap else base + gap + Scalar.half size

def Vertex.toPoint (m : Metrics α) (v : Vertex) : Point α :=
  ⟨coordinate m.cellWidth m.gapX v.x, coordinate m.cellHeight m.gapY v.y⟩

end FlowGrid.Lattice
