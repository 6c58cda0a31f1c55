import FlowGrid.Proofs.Exact.Arithmetic
import FlowGrid.Proofs.Lattice.Detour

/-! The lattice on the canvas. Along an axis its lines lie at a fixed distance from each
other, from half a gap inside one edge of the canvas to half a gap inside the other one.
A cell that holds a point between two vertices has its center between them, so that a step
of a walk meets no cell but one whose center it leaves or enters. -/

namespace FlowGrid

open FlowGrid.Lattice

/-! ### Points -/

namespace Point

def along (p : Point ℝ) : Axis → ℝ
  | .horizontal => p.x
  | .vertical => p.y

/-- The point at the distance `t` from `p` in the direction of a heading. -/
def shift (p : Point ℝ) (h : Heading) (t : ℝ) : Point ℝ := ⟨p.x + h.dx * t, p.y + h.dy * t⟩

theorem ext_along {p q : Point ℝ} (h : ∀ a, p.along a = q.along a) : p = q := by
  cases p
  cases q
  rw [mk.injEq]
  exact ⟨h .horizontal, h .vertical⟩

theorem along_shift (p : Point ℝ) (h : Heading) (t : ℝ) (a : Axis) :
    (p.shift h t).along a = p.along a + h.along a * t := by
  cases a <;> rfl

@[simp] theorem shift_zero (p : Point ℝ) (h : Heading) : p.shift h 0 = p := by
  simp [shift]

theorem shift_shift (p : Point ℝ) (h : Heading) (s t : ℝ) :
    (p.shift h s).shift h t = p.shift h (s + t) := by
  apply ext_along
  intro a
  simp only [along_shift]
  ring

theorem shift_comm (p : Point ℝ) (h k : Heading) (s t : ℝ) :
    (p.shift h s).shift k t = (p.shift k t).shift h s := by
  apply ext_along
  intro a
  simp only [along_shift]
  ring

theorem shift_reverse (p : Point ℝ) (h : Heading) (t : ℝ) :
    p.shift h.reverse t = p.shift h (-t) := by
  simp [shift, Heading.reverse]

end Point

/-! ### Measures -/

namespace Metrics

def size (m : Metrics ℝ) : Axis → ℝ
  | .horizontal => m.cellWidth
  | .vertical => m.cellHeight

def gap (m : Metrics ℝ) : Axis → ℝ
  | .horizontal => m.gapX
  | .vertical => m.gapY

/-- The distance of neighboring lines of the lattice. -/
noncomputable def pitch (m : Metrics ℝ) (a : Axis) : ℝ := Scalar.half (m.size a + m.gap a)

theorem pitch_eq (m : Metrics ℝ) (a : Axis) : m.pitch a = (m.size a + m.gap a) / 2 :=
  Scalar.half_real _

/-- All measures are positive. -/
structure Positive (m : Metrics ℝ) : Prop where
  size : ∀ a, 0 < m.size a
  gap : ∀ a, 0 < m.gap a

theorem Positive.pitch {m : Metrics ℝ} (hm : m.Positive) (a : Axis) : 0 < m.pitch a := by
  rw [pitch_eq]
  exact half_pos (add_pos (hm.size a) (hm.gap a))

/-- Half a gap is not lost in the tolerance. -/
theorem two_mul_tolerance_le {m : Metrics ℝ} (hgap : ∀ a, 2 / 10 ^ 9 ≤ m.gap a) (a : Axis) :
    2 * Scalar.tolerance ≤ m.gap a := by
  rw [Scalar.tolerance_real]
  linarith [hgap a]

theorem positive_standard : (⟨200, 100, 50, 50⟩ : Metrics ℝ).Positive := by
  constructor <;> rintro (_ | _) <;> norm_num [size, gap]

theorem positive_narrow : (⟨200, 100, 1 / 10 ^ 10, 1 / 10 ^ 10⟩ : Metrics ℝ).Positive := by
  constructor <;> rintro (_ | _) <;> norm_num [size, gap]

theorem le_gap_standard (a : Axis) : 2 / 10 ^ 9 ≤ (⟨200, 100, 50, 50⟩ : Metrics ℝ).gap a := by
  cases a <;> norm_num [gap]

end Metrics

theorem Lattice.coordinate_real (size gap : ℝ) (i : Int) :
    coordinate size gap i = gap / 2 + i * ((size + gap) / 2) := by
  have hi : (i : ℝ) = 2 * (i / 2 : Int) + (i % 2 : Int) := by
    exact_mod_cast (Int.mul_ediv_add_emod i 2).symm
  rcases Int.emod_two_eq_zero_or_one i with h | h
  · rw [hi, coordinate, if_pos h, h, Scalar.half_real]
    push_cast
    ring
  · rw [hi, coordinate, if_neg (by omega), h, Scalar.half_real]
    push_cast
    ring

variable {m : Metrics ℝ}

theorem Lattice.Vertex.along_toPoint (m : Metrics ℝ) (v : Vertex) (a : Axis) :
    (v.toPoint m).along a = m.gap a / 2 + v.along a * m.pitch a := by
  cases a <;> exact coordinate_real _ _ _

/-- A step along a heading covers one pitch of its axis. -/
theorem Lattice.Vertex.toPoint_move (m : Metrics ℝ) (v : Vertex) {h : Heading}
    (hh : h ∈ Heading.steps) :
    (v.move h).toPoint m = (v.toPoint m).shift h (m.pitch h.axis) := by
  apply Point.ext_along
  intro a
  rw [Point.along_shift, along_toPoint, along_toPoint, along_move]
  push_cast
  rcases Axis.eq_or_eq_other h.axis a with rfl | rfl
  · ring
  · rw [Heading.along_axis_other hh]
    simp

/-! ### Boxes -/

/-- The point lies inside the box and not on its border. -/
def Box.Holds (b : Box ℝ) (p : Point ℝ) : Prop :=
  (b.x < p.x ∧ p.x < b.right) ∧ b.y < p.y ∧ p.y < b.bottom

theorem Metrics.center_cellBox (m : Metrics ℝ) (row col : Int) :
    (m.cellBox row col).center = (Vertex.ofCell row col).toPoint m := by
  apply Point.ext_along
  rintro (_ | _) <;> rw [Vertex.along_toPoint] <;>
    simp only [Point.along, Box.center, Box.cx, Box.cy, cellBox, cellStart, Scalar.half_real,
      Vertex.along, Vertex.ofCell, gap, pitch, size] <;>
    push_cast <;> ring

theorem Box.holds_iff (b : Box ℝ) (p : Point ℝ) :
    b.Holds p ↔ |p.x - b.cx| < b.width / 2 ∧ |p.y - b.cy| < b.height / 2 := by
  simp only [Holds, right, bottom, cx, cy, Scalar.half_real, abs_lt]
  constructor <;> rintro ⟨⟨hl, hr⟩, ht, hb⟩ <;> refine ⟨⟨?_, ?_⟩, ?_, ?_⟩ <;> linarith

/-- A cell holds the points that are off its center by less than half its size. -/
theorem Metrics.cellBox_holds_iff (m : Metrics ℝ) (row col : Int) (p : Point ℝ) :
    (m.cellBox row col).Holds p ↔
      ∀ a, |p.along a - ((Vertex.ofCell row col).toPoint m).along a| < m.size a / 2 := by
  rw [Box.holds_iff, ← center_cellBox]
  constructor
  · rintro ⟨hx, hy⟩ (_ | _)
    exacts [hx, hy]
  · intro h
    exact ⟨h .horizontal, h .vertical⟩

/-- The point lies in the rectangle between two vertices. -/
def Metrics.Spans (m : Metrics ℝ) (lo hi : Vertex) (p : Point ℝ) : Prop :=
  ∀ a, (lo.toPoint m).along a ≤ p.along a ∧ p.along a ≤ (hi.toPoint m).along a

variable {lo hi : Vertex} {p : Point ℝ}

/-- A cell that holds a point between two vertices has its center between them. -/
theorem Metrics.Spans.center_mem (hs : m.Spans lo hi p) (hm : m.Positive) {row col : Int}
    (hp : (m.cellBox row col).Holds p) (a : Axis) :
    lo.along a ≤ (Vertex.ofCell row col).along a ∧
      (Vertex.ofCell row col).along a ≤ hi.along a := by
  have hpitch := hm.pitch a
  have hsize : m.size a / 2 < m.pitch a := by
    have := hm.gap a
    rw [pitch_eq]
    linarith
  obtain ⟨hl, hu⟩ := hs a
  obtain ⟨hcl, hcu⟩ := abs_lt.mp ((m.cellBox_holds_iff row col p).mp hp a)
  rw [Vertex.along_toPoint] at hl hu hcl hcu
  generalize (Vertex.ofCell row col).along a = c at *
  constructor
  · have h : (lo.along a : ℝ) * m.pitch a < (c + 1 : Int) * m.pitch a := by
      push_cast
      linarith
    have := Int.cast_lt.mp (lt_of_mul_lt_mul_right h hpitch.le)
    omega
  · have h : (c : ℝ) * m.pitch a < (hi.along a + 1 : Int) * m.pitch a := by
      push_cast
      linarith
    have := Int.cast_lt.mp (lt_of_mul_lt_mul_right h hpitch.le)
    omega

/-- The point lies in the rectangle from a cell to the lanes around it. -/
def Metrics.Around (m : Metrics ℝ) (row col : Int) (p : Point ℝ) : Prop :=
  m.Spans ⟨2 * col, 2 * row⟩ ⟨2 * col + 2, 2 * row + 2⟩ p

theorem Metrics.around_iff (m : Metrics ℝ) (row col : Int) (p : Point ℝ) :
    m.Around row col p ↔
      ∀ a, |p.along a - ((Vertex.ofCell row col).toPoint m).along a| ≤ m.pitch a := by
  refine forall_congr' fun a => ?_
  rw [abs_le, Vertex.along_toPoint, Vertex.along_toPoint, Vertex.along_toPoint]
  cases a <;> simp only [Vertex.along, Vertex.ofCell] <;> push_cast <;>
    constructor <;> rintro ⟨hl, hr⟩ <;> constructor <;> linarith

/-- No point around a cell lies in another one. -/
theorem Metrics.Around.cell_eq {row col row' col' : Int} (hp : m.Around row col p)
    (hm : m.Positive) (hb : (m.cellBox row' col').Holds p) : row' = row ∧ col' = col := by
  have hx := hp.center_mem hm hb .horizontal
  have hy := hp.center_mem hm hb .vertical
  simp only [Vertex.along, Vertex.ofCell] at hx hy
  omega

/-- A point of a step lies between its ends. -/
theorem Metrics.spans_step (m : Metrics ℝ) (v : Vertex) {h : Heading} (hh : h ∈ Heading.steps)
    {t : ℝ} (ht : t ∈ Set.Icc 0 (m.pitch h.axis)) :
    m.Spans v (v.move h) ((v.toPoint m).shift h t) ∨
      m.Spans (v.move h) v ((v.toPoint m).shift h t) := by
  rcases Heading.along_axis_eq hh with h1 | h1
  · refine .inl fun a => ?_
    rw [Vertex.toPoint_move m v hh, Point.along_shift, Point.along_shift]
    rcases Axis.eq_or_eq_other h.axis a with rfl | rfl
    · rw [h1]
      constructor <;> push_cast <;> linarith [ht.1, ht.2]
    · simp [Heading.along_axis_other hh]
  · refine .inr fun a => ?_
    rw [Vertex.toPoint_move m v hh, Point.along_shift, Point.along_shift]
    rcases Axis.eq_or_eq_other h.axis a with rfl | rfl
    · rw [h1]
      constructor <;> push_cast <;> linarith [ht.1, ht.2]
    · simp [Heading.along_axis_other hh]

/-- A cell that holds a point of a step has its center at one of its ends. -/
theorem Metrics.center_of_step (hm : m.Positive) {v : Vertex} {h : Heading}
    (hh : h ∈ Heading.steps) {t : ℝ} (ht : t ∈ Set.Icc 0 (m.pitch h.axis)) {row col : Int}
    (hp : (m.cellBox row col).Holds ((v.toPoint m).shift h t)) :
    Vertex.ofCell row col = v ∨ Vertex.ofCell row col = v.move h := by
  have hunit := Heading.natAbs_along_axis hh
  have hother := Heading.along_axis_other hh
  have hnear : ∀ a, (Vertex.ofCell row col).along a = v.along a ∨
      (Vertex.ofCell row col).along a = v.along a + h.along a := by
    intro a
    rcases m.spans_step v hh ht with hs | hs <;> have hc := hs.center_mem hm hp a <;>
      rw [Vertex.along_move] at hc <;>
      rcases Axis.eq_or_eq_other h.axis a with rfl | rfl <;> omega
  have hside := hnear h.axis.other
  rw [hother, Int.add_zero, or_self] at hside
  rcases hnear h.axis with hc | hc
  · exact .inl (Vertex.ext_along h.axis hc hside)
  · refine .inr (Vertex.ext_along h.axis ?_ ?_)
    · rw [hc, Vertex.along_move]
    · rw [hside, Vertex.along_move, hother, Int.add_zero]

/-! ### The canvas -/

/-- The point lies inside the canvas of a grid with the given counts of rows and columns. -/
def Metrics.OnCanvas (m : Metrics ℝ) (rows cols : Int) (p : Point ℝ) : Prop :=
  (0 < p.x ∧ p.x < m.canvasWidth cols) ∧ 0 < p.y ∧ p.y < m.canvasHeight rows

theorem Metrics.extent_real (size gap : ℝ) (n : Int) :
    extent size gap n = gap + 2 * n * ((size + gap) / 2) := by
  rw [extent]
  push_cast
  ring

/-- The rectangle between two vertices of the lattice lies inside the canvas. -/
theorem Metrics.Spans.onCanvas {q : Query} (hs : m.Spans lo hi p) (hm : m.Positive)
    (hlo : q.Within lo) (hhi : q.Within hi) : m.OnCanvas q.grid.rows q.grid.cols p := by
  have hall (a : Axis) : 0 < p.along a ∧ p.along a < m.gap a + q.limit a * m.pitch a := by
    have hgap := hm.gap a
    have hpitch := hm.pitch a
    have hl : (0 : ℝ) ≤ lo.along a := by exact_mod_cast (hlo a).1
    have hh : (hi.along a : ℝ) ≤ q.limit a := by exact_mod_cast (hhi a).2
    have hlp := mul_nonneg hl hpitch.le
    have hhp := mul_le_mul_of_nonneg_right hh hpitch.le
    have hp := hs a
    rw [Vertex.along_toPoint, Vertex.along_toPoint] at hp
    constructor <;> linarith [hp.1, hp.2]
  have hx := hall .horizontal
  have hy := hall .vertical
  simp only [OnCanvas, canvasWidth, canvasHeight, extent_real]
  simp only [Query.limit, Int.cast_mul, Int.cast_ofNat] at hx hy
  exact ⟨hx, hy⟩

/-- The surroundings of a cell of the grid lie inside the canvas. -/
theorem Metrics.Around.onCanvas {grid : Grid Nat} {row col : Int} (hp : m.Around row col p)
    (hm : m.Positive) (hin : grid.inBounds row col = true) :
    m.OnCanvas grid.rows grid.cols p := by
  let q : Query := .between grid row col .north row col .north
  rw [Grid.inBounds_iff] at hin
  apply Spans.onCanvas (q := q) hp hm <;> rintro (_ | _) <;>
    simp only [q, Query.between, Vertex.along, Query.limit] <;> omega

end FlowGrid
