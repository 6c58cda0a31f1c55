import FlowGrid.Geometry.Outline
import FlowGrid.Proofs.Exact.Plane

/-! Where rays leave an outline. Each shape measures vectors by a gauge of its own, which is
one on the outline, so a ray has gone far enough after the inverse of the gauge of its
direction. Links touch an outline straight out from the center of the box, at the middle of
a side of the rectangle that the outline spans. -/

namespace FlowGrid

open FlowGrid.Lattice

/-- The size of a box along an axis. -/
def Box.size (b : Box ℝ) : Axis → ℝ
  | .horizontal => b.width
  | .vertical => b.height

namespace Shape

/-! ### Extents -/

/-- Half the size of the outline in a box along an axis. -/
noncomputable def extent (shape : Shape) (box : Box ℝ) : Axis → ℝ
  | .horizontal => (shape.extents box).1
  | .vertical => (shape.extents box).2

/-- The point lies inside the rectangle that the outline spans and not on its border. -/
def Covers (shape : Shape) (box : Box ℝ) (p : Point ℝ) : Prop :=
  |p.x - box.cx| < (shape.extents box).1 ∧ |p.y - box.cy| < (shape.extents box).2

variable (shape : Shape) {box : Box ℝ}

theorem covers_iff (box : Box ℝ) (p : Point ℝ) :
    shape.Covers box p ↔ ∀ a, |p.along a - box.center.along a| < shape.extent box a := by
  constructor
  · rintro ⟨hx, hy⟩ (_ | _)
    exacts [hx, hy]
  · intro h
    exact ⟨h .horizontal, h .vertical⟩

theorem extent_pos (hb : ∀ a, 0 < box.size a) (a : Axis) : 0 < shape.extent box a := by
  have hw : 0 < box.width := hb .horizontal
  have hh : 0 < box.height := hb .vertical
  cases a <;> simp only [extent, extents] <;> split_ifs <;> simp [hw, hh]

theorem extent_le (box : Box ℝ) (a : Axis) : shape.extent box a ≤ box.size a / 2 := by
  cases a <;> simp only [extent, extents, Box.size, Scalar.half_real] <;> split_ifs <;> linarith

/-- An outline stays inside its box. -/
theorem Covers.holds {shape : Shape} {p : Point ℝ} (h : shape.Covers box p) : box.Holds p := by
  have hx : (shape.extents box).1 ≤ box.width / 2 := shape.extent_le box .horizontal
  have hy : (shape.extents box).2 ≤ box.height / 2 := shape.extent_le box .vertical
  exact (box.holds_iff p).mpr ⟨h.1.trans_le hx, h.2.trans_le hy⟩

/-! ### Rays -/

/-- Half the width and half the height of an outline around the origin being given, the length
of a vector in the measure by which the vectors to the outline have length one. -/
noncomputable def gauge (hw hh x y : ℝ) : ℝ :=
  match shape with
  | .ellipse | .circle => √((x / hw) ^ 2 + (y / hh) ^ 2)
  | .diamond | .angledSquare => |x| / hw + |y| / hh
  | _ => max (|x| / hw) (|y| / hh)

variable {hw hh ux uy : ℝ}

theorem gauge_pos (hw0 : 0 < hw) (hh0 : 0 < hh) (hu : ux ≠ 0 ∨ uy ≠ 0) :
    0 < shape.gauge hw hh ux uy := by
  have hx : 0 ≤ |ux| / hw := by positivity
  have hy : 0 ≤ |uy| / hh := by positivity
  have hsquare : 0 < (ux / hw) ^ 2 + (uy / hh) ^ 2 := by
    rcases hu with h | h <;> positivity
  have hsum : 0 < |ux| / hw + |uy| / hh := by
    rcases hu with h | h <;> positivity
  have hmax : 0 < max (|ux| / hw) (|uy| / hh) := by
    rcases hu with h | h
    · exact lt_max_of_lt_left (by positivity)
    · exact lt_max_of_lt_right (by positivity)
  cases shape <;> first | exact Real.sqrt_pos.mpr hsquare | exact hsum | exact hmax

theorem gauge_horizontal (hw0 : 0 < hw) (hh x : ℝ) : shape.gauge hw hh x 0 = |x| / hw := by
  have hx : 0 ≤ |x| / hw := by positivity
  have hsqrt : √((x / hw) ^ 2) = |x| / hw := by
    rw [Real.sqrt_sq_eq_abs, abs_div, abs_of_pos hw0]
  cases shape <;> simp [gauge, hsqrt, hx]

theorem gauge_vertical (hw : ℝ) (hh0 : 0 < hh) (y : ℝ) : shape.gauge hw hh 0 y = |y| / hh := by
  have hy : 0 ≤ |y| / hh := by positivity
  have hsqrt : √((y / hh) ^ 2) = |y| / hh := by
    rw [Real.sqrt_sq_eq_abs, abs_div, abs_of_pos hh0]
  cases shape <;> simp [gauge, hsqrt, hy]

/-- The part of a direction is zero, or so large that it is not taken for zero. -/
def IsDistinct (u : ℝ) : Prop := u = 0 ∨ Scalar.tolerance < |u|

theorem reach_zero (extent : ℝ) : reach extent 0 = none := by
  simp [reach]

theorem reach_of_lt (extent : ℝ) {u : ℝ} (h : Scalar.tolerance < |u|) :
    reach extent u = some (extent / |u|) := if_pos h

theorem abs_pos_of_tolerance_lt {u : ℝ} (h : Scalar.tolerance < |u|) : 0 < |u| :=
  lt_trans (by norm_num) h

/-- The sides of a rectangle are reached by the inverse of the larger part of the direction. -/
theorem nearer_reach (hw0 : 0 < hw) (hh0 : 0 < hh) (hx : IsDistinct ux) (hy : IsDistinct uy)
    (hu : ux ≠ 0 ∨ uy ≠ 0) :
    nearer (reach hw ux) (reach hh uy) = (max (|ux| / hw) (|uy| / hh))⁻¹ := by
  rcases hx with rfl | hx <;> rcases hy with rfl | hy
  · simp at hu
  · have := abs_pos_of_tolerance_lt hy
    rw [reach_zero, reach_of_lt _ hy, abs_zero, zero_div, max_eq_right (by positivity), inv_div]
    rfl
  · have := abs_pos_of_tolerance_lt hx
    rw [reach_zero, reach_of_lt _ hx, abs_zero, zero_div, max_eq_left (by positivity), inv_div]
    rfl
  · have hx0 := abs_pos_of_tolerance_lt hx
    have hy0 := abs_pos_of_tolerance_lt hy
    rw [reach_of_lt _ hx, reach_of_lt _ hy, nearer]
    split_ifs with h
    · rw [max_eq_right, inv_div]
      rw [← inv_le_inv₀ (by positivity) (by positivity), inv_div, inv_div]
      exact h.le
    · rw [max_eq_left, inv_div]
      rw [← inv_le_inv₀ (by positivity) (by positivity), inv_div, inv_div]
      exact not_lt.mp h

/-- A ray has reached the outline after the inverse of the gauge of its direction. -/
theorem distance_eq (hw0 : 0 < hw) (hh0 : 0 < hh) (hx : IsDistinct ux) (hy : IsDistinct uy)
    (hu : ux ≠ 0 ∨ uy ≠ 0) :
    shape.distance hw hh ux uy = .ok (shape.gauge hw hh ux uy)⁻¹ := by
  have hpos := shape.gauge_pos hw0 hh0 hu
  cases shape <;>
    simp only [distance, Scalar.quotient_real _ hw0.ne', Scalar.quotient_real _ hh0.ne',
      Scalar.square_real, Scalar.sqrt_real, Scalar.abs_real, nearer_reach hw0 hh0 hx hy hu]
  all_goals first | rfl | exact Scalar.quotient_one hpos.ne'

/-! ### Anchors -/

/-- A link touches an outline straight out from the center of its box. -/
theorem anchor_eq (hb : ∀ a, 0 < box.size a) (side : Side) :
    shape.anchor box side = .ok (box.center.shift (.ofSide side)
      (shape.extent box (Heading.ofSide side).axis)) := by
  have hw0 : 0 < (shape.extents box).1 := shape.extent_pos hb .horizontal
  have hh0 : 0 < (shape.extents box).2 := shape.extent_pos hb .vertical
  have hlength : √((side.dx : ℝ) ^ 2 + (side.dy : ℝ) ^ 2) = 1 := by
    cases side <;> simp [Side.dx, Side.dy]
  have hx : IsDistinct (side.dx : ℝ) := by
    cases side <;> norm_num [Side.dx, IsDistinct]
  have hy : IsDistinct (side.dy : ℝ) := by
    cases side <;> norm_num [Side.dy, IsDistinct]
  have hu : (side.dx : ℝ) ≠ 0 ∨ (side.dy : ℝ) ≠ 0 := by
    cases side <;> simp [Side.dx, Side.dy]
  have hgauge : (shape.gauge (shape.extents box).1 (shape.extents box).2 side.dx side.dy)⁻¹ =
      shape.extent box (Heading.ofSide side).axis := by
    cases side <;> simp [Side.dx, Side.dy, gauge_horizontal shape hw0, gauge_vertical shape _ hh0,
      Heading.axis, Heading.ofSide, extent]
  have hfar : ¬ (1 : ℝ) < Scalar.tolerance := by norm_num
  simp only [anchor, boundaryPoint, Scalar.length_real, hlength, hfar, if_false, div_one,
    shape.distance_eq hw0 hh0 hx hy hu, hgauge]
  refine congrArg Except.ok ?_
  rw [mul_comm (shape.extent box _), mul_comm (shape.extent box _)]
  rfl

end Shape
end FlowGrid
