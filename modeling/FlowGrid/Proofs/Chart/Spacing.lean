import FlowGrid.Proofs.Chart.Path

/-! The boxes of a chart on its canvas. Along an axis a cell begins where the one before it
ends, a gap further on, and the canvas ends a gap after the last one. So the boxes of two
nodes are a gap apart along an axis on which their cells differ, and the border around all of
them is a gap wide, and no wider where a cell of the first or the last row or column is. -/

namespace FlowGrid

open FlowGrid.Lattice

/-! ### Cells along an axis -/

namespace Metrics

variable {size gap : ℝ}

theorem cellStart_zero (size gap : ℝ) : cellStart size gap 0 = gap := by
  simp [cellStart]

/-- The next cell begins a gap after the end of a cell. -/
theorem cellStart_succ (size gap : ℝ) (i : Int) :
    cellStart size gap (i + 1) = cellStart size gap i + size + gap := by
  simp only [cellStart]
  push_cast
  ring

/-- The canvas ends where a further cell would begin. -/
theorem extent_eq_cellStart (size gap : ℝ) (n : Int) : extent size gap n = cellStart size gap n := by
  rw [extent_real, cellStart]
  ring

theorem strictMono_cellStart (hsize : 0 < size) (hgap : 0 < gap) :
    StrictMono (cellStart size gap) := by
  intro i j hij
  have hcast : (i : ℝ) < j := Int.cast_lt.mpr hij
  have := mul_lt_mul_of_pos_right hcast (add_pos hsize hgap)
  simp only [cellStart]
  linarith

/-- Two cells are a gap apart. -/
theorem cellStart_add_le (hsize : 0 < size) (hgap : 0 < gap) {i j : Int} (hij : i < j) :
    cellStart size gap i + size + gap ≤ cellStart size gap j := by
  rw [← cellStart_succ]
  exact (strictMono_cellStart hsize hgap).monotone hij

end Metrics

/-! ### Boxes -/

/-- The boxes are at least a gap apart along one of the axes. -/
def Box.IsSpaced (m : Metrics ℝ) (a b : Box ℝ) : Prop :=
  (a.right + m.gapX ≤ b.x ∨ b.right + m.gapX ≤ a.x) ∨
    (a.bottom + m.gapY ≤ b.y ∨ b.bottom + m.gapY ≤ a.y)

/-- The box of a cell keeps a border of a gap free on the canvas, all of it where it has no cell
before or after it. -/
structure Box.IsFramed (m : Metrics ℝ) (width height : ℝ) (rows cols row col : Int) (b : Box ℝ) :
    Prop where
  left : m.gapX ≤ b.x
  right : b.right + m.gapX ≤ width
  top : m.gapY ≤ b.y
  bottom : b.bottom + m.gapY ≤ height
  left_iff : b.x = m.gapX ↔ col = 0
  right_iff : b.right + m.gapX = width ↔ col + 1 = cols
  top_iff : b.y = m.gapY ↔ row = 0
  bottom_iff : b.bottom + m.gapY = height ↔ row + 1 = rows

namespace Metrics

variable {m : Metrics ℝ}

theorem right_cellBox (m : Metrics ℝ) (row col : Int) :
    (m.cellBox row col).right + m.gapX = cellStart m.cellWidth m.gapX (col + 1) :=
  (cellStart_succ _ _ _).symm

theorem bottom_cellBox (m : Metrics ℝ) (row col : Int) :
    (m.cellBox row col).bottom + m.gapY = cellStart m.cellHeight m.gapY (row + 1) :=
  (cellStart_succ _ _ _).symm

theorem isSpaced_cellBox (hm : m.Positive) {row col row' col' : Int}
    (h : (row, col) ≠ (row', col')) :
    (m.cellBox row col).IsSpaced m (m.cellBox row' col') := by
  have hx {i j : Int} := cellStart_add_le (hm.size .horizontal) (hm.gap .horizontal) (i := i) (j := j)
  have hy {i j : Int} := cellStart_add_le (hm.size .vertical) (hm.gap .vertical) (i := i) (j := j)
  rcases lt_trichotomy col col' with hlt | rfl | hlt
  · exact .inl (.inl (hx hlt))
  · rcases lt_trichotomy row row' with hlt | rfl | hlt
    · exact .inr (.inl (hy hlt))
    · exact absurd rfl h
    · exact .inr (.inr (hy hlt))
  · exact .inl (.inr (hx hlt))

/-- Every cell of a grid is framed by the canvas of the grid. -/
theorem isFramed_cellBox (hm : m.Positive) {rows cols row col : Int}
    (hrow : 0 ≤ row ∧ row < rows) (hcol : 0 ≤ col ∧ col < cols) :
    (m.cellBox row col).IsFramed m (m.canvasWidth cols) (m.canvasHeight rows) rows cols row col := by
  have hx := strictMono_cellStart (hm.size .horizontal) (hm.gap .horizontal)
  have hy := strictMono_cellStart (hm.size .vertical) (hm.gap .vertical)
  have hleft := cellStart_zero m.cellWidth m.gapX
  have htop := cellStart_zero m.cellHeight m.gapY
  constructor
  · exact hleft.symm.trans_le (hx.monotone hcol.1)
  · rw [right_cellBox, canvasWidth, extent_eq_cellStart]
    exact hx.monotone hcol.2
  · exact htop.symm.trans_le (hy.monotone hrow.1)
  · rw [bottom_cellBox, canvasHeight, extent_eq_cellStart]
    exact hy.monotone hrow.2
  · rw [← hx.injective.eq_iff (b := 0), size, gap, hleft]
    rfl
  · rw [right_cellBox, canvasWidth, extent_eq_cellStart]
    exact hx.injective.eq_iff
  · rw [← hy.injective.eq_iff (b := 0), size, gap, htop]
    rfl
  · rw [bottom_cellBox, canvasHeight, extent_eq_cellStart]
    exact hy.injective.eq_iff

end Metrics

/-! ### Charts -/

namespace Chart

variable {m : Metrics ℝ} {chart : Chart ℝ} {d : Document}

/-- In the chart of a document, the boxes of different nodes are a gap apart, the canvas keeps
a border of a gap around all of them, and the border is no wider at the first and the last row
and column, whether or not a node is there. -/
theorem boxes_spaced (hm : m.Positive) (hc : ofDocument m d = .ok chart) :
    (∀ (i j : Nat) (a b : Placement ℝ), chart.placements[i]? = some a →
      chart.placements[j]? = some b → i ≠ j → a.box.IsSpaced m b.box) ∧
    (∀ p ∈ chart.placements, p.box.IsFramed m chart.width chart.height d.rows.length d.columnCount
      p.node.row p.node.col) ∧
    ∀ row col : Nat, row < d.rows.length → col < d.columnCount →
      (m.cellBox row col).IsFramed m chart.width chart.height d.rows.length d.columnCount
        row col := by
  obtain ⟨drafts, grid, nodes, hd, hg, hn, hchart⟩ := exists_nodes_of_ofDocument hc
  obtain ⟨hrows, hcols⟩ := Document.limits_of_grid hg
  obtain ⟨hwidth, hheight, -⟩ := eq_of_ofNodes hchart
  have hs := Document.seating hd hg hn
  rw [hwidth, hheight, hrows, hcols]
  refine ⟨fun i j a b hi hj hne => ?_, fun p hp => ?_, fun row col hrow hcol => ?_⟩
  · obtain ⟨hnode, hbox⟩ := placement_eq hchart hi
    obtain ⟨hnode', hbox'⟩ := placement_eq hchart hj
    rw [hbox, hbox']
    refine Metrics.isSpaced_cellBox hm fun hcell => hne ?_
    simp only [Prod.mk.injEq, Int.natCast_inj] at hcell
    have heq := hs.eq_of_cell (List.mem_of_getElem? hnode) (List.mem_of_getElem? hnode') hcell.1
      hcell.2
    rw [← hs.index hnode, heq, hs.index hnode']
  · obtain ⟨i, hi⟩ := List.mem_iff_getElem?.mp hp
    obtain ⟨hnode, hbox⟩ := placement_eq hchart hi
    have hin := hs.inBounds (List.mem_of_getElem? hnode)
    rw [Grid.inBounds_iff, hrows, hcols] at hin
    rw [hbox]
    exact Metrics.isFramed_cellBox hm ⟨hin.1, hin.2.1⟩ hin.2.2
  · exact Metrics.isFramed_cellBox hm ⟨by omega, by omega⟩ ⟨by omega, by omega⟩

/-- A row of one cell over a row that begins with an empty one. -/
def raggedCells : Document where
  rows := [[some ⟨"a", none, [], .start⟩], [none, some ⟨"b", none, [], .start⟩]]
  definitions := []

/-- The boxes of a document whose rows differ in length. -/
theorem boxes_spaced_of_ragged :
    let m : Metrics ℝ := ⟨200, 100, 50, 50⟩
    m.Positive ∧ ∃ chart, ofDocument m raggedCells = .ok chart ∧
      (∀ (i j : Nat) (a b : Placement ℝ), chart.placements[i]? = some a →
        chart.placements[j]? = some b → i ≠ j → a.box.IsSpaced m b.box) ∧
      (∀ p ∈ chart.placements, p.box.IsFramed m chart.width chart.height 2 2
        p.node.row p.node.col) ∧
      ∀ row col : Nat, row < 2 → col < 2 →
        (m.cellBox row col).IsFramed m chart.width chart.height 2 2 row col := by
  intro m
  have hm : m.Positive := Metrics.positive_standard
  have hd : raggedCells.drafts = .ok _ := rfl
  obtain ⟨-, chart, hc, -⟩ := exists_ofDocument hm hd (fun _ _ => rfl) (by decide)
  exact ⟨hm, chart, hc, boxes_spaced hm hc⟩

end Chart
end FlowGrid
