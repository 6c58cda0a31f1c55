import FlowGrid.Geometry.Box

/-! The measures of the grid: cells of one size with gaps between them and a border of a
gap around them. A node keeps its column however short its row is. -/

namespace FlowGrid

structure Metrics (α : Type) where
  cellWidth : α
  cellHeight : α
  gapX : α
  gapY : α

namespace Metrics

def map {α β : Type} (f : α → β) (m : Metrics α) : Metrics β :=
  ⟨f m.cellWidth, f m.cellHeight, f m.gapX, f m.gapY⟩

variable {α : Type}

/-- Where the cell of an index begins along an axis. -/
def cellStart [Add α] [Mul α] [IntCast α] (size gap : α) (i : Int) : α :=
  (i : α) * (size + gap) + gap

def cellBox [Add α] [Mul α] [IntCast α] (m : Metrics α) (row col : Int) : Box α where
  x := cellStart m.cellWidth m.gapX col
  y := cellStart m.cellHeight m.gapY row
  width := m.cellWidth
  height := m.cellHeight

/-- The length of `n` cells with their gaps and borders. -/
def extent [Add α] [Mul α] [IntCast α] (size gap : α) (n : Int) : α :=
  (n : α) * size + ((n + 1 : Int) : α) * gap

def canvasWidth [Add α] [Mul α] [IntCast α] (m : Metrics α) (cols : Int) : α :=
  extent m.cellWidth m.gapX cols

def canvasHeight [Add α] [Mul α] [IntCast α] (m : Metrics α) (rows : Int) : α :=
  extent m.cellHeight m.gapY rows

end Metrics
end FlowGrid
