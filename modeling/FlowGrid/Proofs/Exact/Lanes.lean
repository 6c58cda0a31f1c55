import FlowGrid.Proofs.Exact.Anchor
import FlowGrid.Proofs.Lattice.FewestTurns

/-! The lattice and the cells are laid out by formulas of their own, which agree. Odd lines run
through the middles of cells and even ones half a gap beside them, so the lane in front of a
side lies half a gap outside the box, and the lanes of the border half a gap inside the canvas.
This holds of every row and column, also of those outside a grid. -/

namespace FlowGrid

open FlowGrid.Lattice

/-! ### Lines along an axis -/

namespace Lattice

variable {size gap : ℝ}

theorem coordinate_before (size gap : ℝ) (i : Int) :
    coordinate size gap (2 * i) = Metrics.cellStart size gap i - gap / 2 := by
  rw [coordinate_real, Metrics.cellStart]
  push_cast
  ring

theorem coordinate_behind (size gap : ℝ) (i : Int) :
    coordinate size gap (2 * i + 2) = Metrics.cellStart size gap i + size + gap / 2 := by
  rw [coordinate_real, Metrics.cellStart]
  push_cast
  ring

theorem coordinate_zero (size gap : ℝ) : coordinate size gap 0 = gap / 2 := by
  simp [coordinate_real]

theorem coordinate_last (size gap : ℝ) (n : Int) :
    coordinate size gap (2 * n) = Metrics.extent size gap n - gap / 2 := by
  rw [coordinate_real, Metrics.extent_real]
  push_cast
  ring

theorem strictMono_coordinate (hsize : 0 < size) (hgap : 0 < gap) :
    StrictMono (coordinate size gap) := by
  intro i j hij
  have hpitch : 0 < (size + gap) / 2 := half_pos (add_pos hsize hgap)
  have := mul_lt_mul_of_pos_right (Int.cast_lt.mpr hij) hpitch
  rw [coordinate_real, coordinate_real]
  linarith

end Lattice

/-! ### Lanes and boxes -/

/-- The point in front of a side of a box, at the distance `t` from it. -/
noncomputable def Box.inFront (b : Box ℝ) (side : Side) (t : ℝ) : Point ℝ :=
  b.center.shift (.ofSide side) (Scalar.half (b.size (Heading.ofSide side).axis) + t)

theorem Metrics.toPoint_stub (m : Metrics ℝ) (row col : Int) (side : Side) :
    (Vertex.stub row col side).toPoint m =
      (m.cellBox row col).inFront side (m.gap (Heading.ofSide side).axis / 2) := by
  have hsize (a : Axis) : (m.cellBox row col).size a = m.size a := by cases a <;> rfl
  rw [Vertex.stub, Vertex.toPoint_move m _ (Heading.ofSide_mem_steps side), ← center_cellBox,
    Box.inFront, Scalar.half_real, hsize, pitch_eq, add_div]

/-- The lines of the lattice lie where the boxes and the canvas are. -/
structure Metrics.IsAligned (m : Metrics ℝ) : Prop where
  center (row col : Int) :
    (⟨2 * col + 1, 2 * row + 1⟩ : Vertex).toPoint m = (m.cellBox row col).center
  left (row col y : Int) :
    ((⟨2 * col, y⟩ : Vertex).toPoint m).x = (m.cellBox row col).x - m.gapX / 2
  right (row col y : Int) :
    ((⟨2 * col + 2, y⟩ : Vertex).toPoint m).x = (m.cellBox row col).right + m.gapX / 2
  top (row col x : Int) :
    ((⟨x, 2 * row⟩ : Vertex).toPoint m).y = (m.cellBox row col).y - m.gapY / 2
  bottom (row col x : Int) :
    ((⟨x, 2 * row + 2⟩ : Vertex).toPoint m).y = (m.cellBox row col).bottom + m.gapY / 2
  increasing (v w : Vertex) :
    (v.x < w.x → (v.toPoint m).x < (w.toPoint m).x) ∧
      (v.y < w.y → (v.toPoint m).y < (w.toPoint m).y)
  /-- The vertex of a side is straight in front of it. -/
  stub (row col : Int) (side : Side) : (Vertex.stub row col side).toPoint m =
    (m.cellBox row col).inFront side (m.gap (Heading.ofSide side).axis / 2)
  /-- The lanes of the border of a grid with the given counts of rows and columns. -/
  border (rows cols : Int) :
    (⟨0, 0⟩ : Vertex).toPoint m = ⟨m.gapX / 2, m.gapY / 2⟩ ∧
      (⟨2 * cols, 2 * rows⟩ : Vertex).toPoint m =
        ⟨m.canvasWidth cols - m.gapX / 2, m.canvasHeight rows - m.gapY / 2⟩

/-- For all positive measures the lattice is aligned with the cells and the canvas. -/
theorem Metrics.isAligned {m : Metrics ℝ} (hm : m.Positive) : m.IsAligned where
  center row col := (m.center_cellBox row col).symm
  left _ col _ := coordinate_before m.cellWidth m.gapX col
  right _ col _ := coordinate_behind m.cellWidth m.gapX col
  top row _ _ := coordinate_before m.cellHeight m.gapY row
  bottom row _ _ := coordinate_behind m.cellHeight m.gapY row
  increasing _ _ :=
    ⟨fun h => strictMono_coordinate (hm.size .horizontal) (hm.gap .horizontal) h,
      fun h => strictMono_coordinate (hm.size .vertical) (hm.gap .vertical) h⟩
  stub := m.toPoint_stub
  border rows cols := by
    constructor
    · rw [Vertex.toPoint, coordinate_zero, coordinate_zero]
    · rw [Vertex.toPoint, coordinate_last, coordinate_last]
      rfl

theorem Metrics.isAligned_standard :
    (⟨200, 100, 50, 50⟩ : Metrics ℝ).Positive ∧ (⟨200, 100, 50, 50⟩ : Metrics ℝ).IsAligned :=
  ⟨positive_standard, isAligned positive_standard⟩

end FlowGrid
