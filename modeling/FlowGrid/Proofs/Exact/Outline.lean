import FlowGrid.Proofs.Exact.Anchor

/-! Points on outlines. The gauge of a shape grows with the length of a vector, so on a ray from
the center there is one point where it is one. The gauge is one where the equation of the
outline holds, be it an ellipse, a diamond or a rectangle. -/

namespace FlowGrid.Shape

open FlowGrid.Lattice

variable (shape : Shape) {box : Box ℝ} {hw hh dx dy : ℝ}

/-- Half the width and half the height of an outline around the origin being given, the point
lies on it. A shape that is not known has the outline of a rectangle. -/
def IsOnOutline (hw hh x y : ℝ) : Prop :=
  match shape with
  | .ellipse | .circle => (x / hw) ^ 2 + (y / hh) ^ 2 = 1
  | .diamond | .angledSquare => |x| / hw + |y| / hh = 1
  | _ => max (|x| / hw) (|y| / hh) = 1

theorem isOnOutline_of_gauge {x y : ℝ} (h : shape.gauge hw hh x y = 1) :
    shape.IsOnOutline hw hh x y := by
  cases shape <;> first | exact h | exact Real.sqrt_eq_one.mp h

theorem gauge_scaled {t : ℝ} (ht : 0 ≤ t) (hw hh x y : ℝ) :
    shape.gauge hw hh (t * x) (t * y) = t * shape.gauge hw hh x y := by
  have hsqrt : √((t * x / hw) ^ 2 + (t * y / hh) ^ 2) = t * √((x / hw) ^ 2 + (y / hh) ^ 2) := by
    rw [mul_div_assoc, mul_div_assoc, mul_pow, mul_pow, ← mul_add,
      Real.sqrt_mul (sq_nonneg t), Real.sqrt_sq ht]
  have habs (z extent : ℝ) : |t * z| / extent = t * (|z| / extent) := by
    rw [abs_mul, abs_of_nonneg ht, mul_div_assoc]
  have hsum : |t * x| / hw + |t * y| / hh = t * (|x| / hw + |y| / hh) := by
    rw [habs, habs, mul_add]
  have hmax : max (|t * x| / hw) (|t * y| / hh) = t * max (|x| / hw) (|y| / hh) := by
    rw [habs, habs, mul_max_of_nonneg _ _ ht]
  cases shape <;> first | exact hsqrt | exact hsum | exact hmax

/-- A ray that has a direction leaves the outline at a point of the outline. -/
theorem exists_boundaryPoint (hb : ∀ a, 0 < box.size a)
    (hfar : Scalar.tolerance ≤ √(dx ^ 2 + dy ^ 2)) (hx : IsDistinct (dx / √(dx ^ 2 + dy ^ 2)))
    (hy : IsDistinct (dy / √(dx ^ 2 + dy ^ 2))) :
    ∃ t, 0 < t ∧ shape.boundaryPoint box dx dy = .ok ⟨box.cx + t * dx, box.cy + t * dy⟩ ∧
      shape.IsOnOutline (shape.extents box).1 (shape.extents box).2 (t * dx) (t * dy) := by
  set length := √(dx ^ 2 + dy ^ 2) with hlength
  have hlength0 : 0 < length := lt_of_lt_of_le (by norm_num) hfar
  have hu : dx / length ≠ 0 ∨ dy / length ≠ 0 := by
    by_contra! hzero
    obtain rfl := (div_eq_zero_iff.mp hzero.1).resolve_right hlength0.ne'
    obtain rfl := (div_eq_zero_iff.mp hzero.2).resolve_right hlength0.ne'
    simp [hlength] at hlength0
  have hw0 : 0 < (shape.extents box).1 := shape.extent_pos hb .horizontal
  have hh0 : 0 < (shape.extents box).2 := shape.extent_pos hb .vertical
  have hdistance := shape.distance_eq hw0 hh0 hx hy hu
  have hgauge := shape.gauge_pos hw0 hh0 hu
  set gauge := shape.gauge (shape.extents box).1 (shape.extents box).2 (dx / length) (dy / length)
  have hscale (z : ℝ) : gauge⁻¹ / length * z = gauge⁻¹ * (z / length) :=
    (div_mul_comm _ _ _).trans (mul_comm _ _)
  refine ⟨gauge⁻¹ / length, by positivity, ?point, shape.isOnOutline_of_gauge ?outline⟩
  case point =>
    simp only [boundaryPoint, Scalar.length_real, ← hlength, not_lt.mpr hfar, if_false, hdistance,
      hscale]
    rfl
  case outline =>
    rw [hscale, hscale, shape.gauge_scaled (inv_pos.mpr hgauge).le]
    exact inv_mul_cancel₀ hgauge.ne'

/-- A link touches an outline where the normal of the side from the center leaves it. -/
theorem anchor_eq_displaced (hb : ∀ a, 0 < box.size a) (side : Side) :
    shape.anchor box side =
      .ok ⟨box.cx + side.dx * (shape.extents box).1, box.cy + side.dy * (shape.extents box).2⟩ := by
  rw [shape.anchor_eq hb]
  cases side <;>
    simp [Point.shift, Box.center, Heading.ofSide, Heading.axis, Side.dx, Side.dy, extent]

/-- The point where a ray leaves an outline lies on the ray and on the outline, and the anchor of
a side lies on its normal. -/
theorem boundaryPoint_isOnOutline (hwidth : 0 < box.width) (hheight : 0 < box.height) :
    (∀ dx dy : ℝ, Scalar.tolerance ≤ √(dx ^ 2 + dy ^ 2) →
      IsDistinct (dx / √(dx ^ 2 + dy ^ 2)) → IsDistinct (dy / √(dx ^ 2 + dy ^ 2)) →
      ∃ t, 0 < t ∧ shape.boundaryPoint box dx dy = .ok ⟨box.cx + t * dx, box.cy + t * dy⟩ ∧
        shape.IsOnOutline (shape.extents box).1 (shape.extents box).2 (t * dx) (t * dy)) ∧
    ∀ side : Side, shape.anchor box side =
      .ok ⟨box.cx + side.dx * (shape.extents box).1, box.cy + side.dy * (shape.extents box).2⟩ := by
  have hb : ∀ a, 0 < box.size a := by
    rintro (_ | _)
    exacts [hwidth, hheight]
  exact ⟨fun dx dy => shape.exists_boundaryPoint hb, shape.anchor_eq_displaced hb⟩

theorem boundaryPoint_isOnOutline_circle :
    circle.boundaryPoint (⟨0, 0, 200, 100⟩ : Box ℝ) 3 (-4) = .ok ⟨130, 10⟩ := by
  have hlength : √((3 : ℝ) ^ 2 + (-4) ^ 2) = 5 := by
    rw [show (3 : ℝ) ^ 2 + (-4) ^ 2 = 5 ^ 2 by norm_num, Real.sqrt_sq (by norm_num)]
  have hextents : circle.extents (⟨0, 0, 200, 100⟩ : Box ℝ) = (50, 50) := by
    norm_num [extents, isSquared]
  have hwidth : 0 < (⟨0, 0, 200, 100⟩ : Box ℝ).width := by norm_num
  have hheight : 0 < (⟨0, 0, 200, 100⟩ : Box ℝ).height := by norm_num
  obtain ⟨t, ht, hpoint, hon⟩ := (circle.boundaryPoint_isOnOutline hwidth hheight).1 3 (-4)
    (by rw [hlength]; norm_num) (by rw [hlength]; norm_num [IsDistinct])
    (by rw [hlength]; norm_num [IsDistinct])
  rw [hextents] at hon
  have hsquare : t ^ 2 = 10 ^ 2 := by
    have hcircle : (t * 3 / 50) ^ 2 + (t * -4 / 50) ^ 2 = 1 := hon
    linarith
  obtain rfl : t = 10 := (pow_left_inj₀ ht.le (by norm_num) two_ne_zero).mp hsquare
  rw [hpoint]
  norm_num [Box.cx, Box.cy]

end FlowGrid.Shape
