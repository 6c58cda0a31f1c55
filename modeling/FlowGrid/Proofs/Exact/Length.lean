import FlowGrid.Proofs.Exact.Polyline
import Mathlib.Data.List.Destutter

/-! Lengths of polylines. The length of a polyline is the sum of the distances of neighboring
points, so it splits at any point, and a point that is repeated adds nothing to it. -/

namespace FlowGrid

open FlowGrid.Lattice

/-! ### Distances -/

namespace Point

/-- The distance of two points. -/
noncomputable def distance (p q : Point ℝ) : ℝ := √((q.x - p.x) ^ 2 + (q.y - p.y) ^ 2)

theorem distance_nonneg (p q : Point ℝ) : 0 ≤ p.distance q := Real.sqrt_nonneg _

@[simp] theorem distance_self (p : Point ℝ) : p.distance p = 0 := by
  simp [distance]

theorem distance_pos {p q : Point ℝ} (h : p ≠ q) : 0 < p.distance q := by
  rw [distance, Real.sqrt_pos]
  by_contra! hle
  obtain ⟨hx, hy⟩ := (add_eq_zero_iff_of_nonneg (sq_nonneg (q.x - p.x))
    (sq_nonneg (q.y - p.y))).mp (hle.antisymm (by positivity))
  rw [sq_eq_zero_iff, sub_eq_zero] at hx hy
  exact h (ext_along fun a => by cases a; exacts [hx.symm, hy.symm])

/-- The distance to a point that lies farther by multiples of two numbers. -/
theorem distance_scaled {p q : Point ℝ} {t x y : ℝ} (ht : 0 ≤ t) (hx : q.x - p.x = t * x)
    (hy : q.y - p.y = t * y) : p.distance q = t * √(x ^ 2 + y ^ 2) := by
  rw [distance, hx, hy, mul_pow, mul_pow, ← mul_add, Real.sqrt_mul (sq_nonneg t), Real.sqrt_sq ht]

theorem distance_shift (p : Point ℝ) {h : Heading} (hh : h ∈ Heading.steps) {t : ℝ} (ht : 0 ≤ t) :
    p.distance (p.shift h t) = t := by
  have hunit : (h.dx : ℝ) ^ 2 + (h.dy : ℝ) ^ 2 = 1 := by
    rcases Heading.parts_of_mem_steps hh with ⟨h0, h1 | h1⟩ | ⟨h0, h1 | h1⟩ <;> simp [h0, h1]
  rw [distance_scaled (x := h.dx) (y := h.dy) ht, hunit, Real.sqrt_one, mul_one]
  · simp only [shift]
    ring
  · simp only [shift]
    ring

end Point

namespace Polyline

theorem length_segment (p q : Point ℝ) : (segment p q).length = p.distance q := by
  rw [segment, Scalar.length_real, Point.distance, ← neg_sub q.x, ← neg_sub q.y, neg_sq, neg_sq]

/-- A point on the way from `p` to `q` parts the distance. -/
theorem distance_pointAt (p q : Point ℝ) {t : ℝ} (ht : t ∈ Set.Icc 0 1) :
    p.distance ((segment p q).pointAt t) = t * p.distance q ∧
      ((segment p q).pointAt t).distance q = (1 - t) * p.distance q := by
  constructor
  · refine Point.distance_scaled ht.1 ?_ ?_ <;> simp only [segment, Segment.pointAt] <;> ring
  · refine Point.distance_scaled (sub_nonneg.mpr ht.2) ?_ ?_ <;>
      simp only [segment, Segment.pointAt] <;> ring

/-! ### Lengths -/

/-- The length of a polyline. -/
noncomputable def pathLength : List (Point ℝ) → ℝ
  | p :: q :: rest => p.distance q + pathLength (q :: rest)
  | _ => 0

@[simp] theorem pathLength_singleton (p : Point ℝ) : pathLength [p] = 0 := rfl

@[simp] theorem pathLength_cons_cons (p q : Point ℝ) (points : List (Point ℝ)) :
    pathLength (p :: q :: points) = p.distance q + pathLength (q :: points) := rfl

theorem pathLength_nonneg (points : List (Point ℝ)) : 0 ≤ pathLength points := by
  fun_induction pathLength points with
  | case1 p q rest ih => exact add_nonneg (p.distance_nonneg q) ih
  | case2 => exact le_rfl

/-- A point in front adds its distance to the first one. -/
theorem pathLength_cons {p q : Point ℝ} {points : List (Point ℝ)} (h : points.head? = some q) :
    pathLength (p :: points) = p.distance q + pathLength points := by
  obtain ⟨rest, rfl⟩ := List.head?_eq_some_iff.mp h
  rfl

/-- Segments are measured by their own lengths. -/
theorem totalLength_segments (points : List (Point ℝ)) :
    totalLength (segments points) = pathLength points := by
  have hfold (sum : ℝ) : (segments points).foldl (fun sum s => sum + s.length) sum =
      sum + pathLength points := by
    induction points generalizing sum with
    | nil => exact (add_zero sum).symm
    | cons p points ih =>
      cases points with
      | nil => exact (add_zero sum).symm
      | cons q points =>
        rw [segments_cons_cons, List.foldl_cons, ih, pathLength_cons_cons, length_segment,
          add_assoc]
  rw [totalLength, hfold, Int.cast_zero, zero_add]

/-! ### Repeated points -/

/-- What is left of a list without repetitions begins like the list. -/
theorem exists_destutter' (p : Point ℝ) (points : List (Point ℝ)) :
    ∃ rest, points.destutter' (· ≠ ·) p = p :: rest := by
  induction points with
  | nil => exact ⟨[], rfl⟩
  | cons q points ih =>
    by_cases h : p ≠ q
    · exact ⟨_, List.destutter'_cons_pos _ h⟩
    · rw [List.destutter'_cons_neg _ h]
      exact ih

/-- What `F` tells of a polyline depends on its first segment and on what `F` tells of the rest. -/
def IsCarried {β : Type} (F : List (Point ℝ) → β) : Prop :=
  ∀ (p q : Point ℝ) (points others : List (Point ℝ)), F (q :: points) = F (q :: others) →
    F (p :: q :: points) = F (p :: q :: others)

/-- What does not see a point that is repeated does not see any repetition. -/
theorem IsCarried.destutter {β : Type} {F : List (Point ℝ) → β} (hF : IsCarried F)
    (hrepeat : ∀ p points, F (p :: p :: points) = F (p :: points)) (points : List (Point ℝ)) :
    F (points.destutter (· ≠ ·)) = F points := by
  cases points with
  | nil => rfl
  | cons p points =>
    rw [List.destutter_cons']
    induction points generalizing p with
    | nil => rfl
    | cons q points ih =>
      by_cases h : p ≠ q
      · obtain ⟨rest, hrest⟩ := exists_destutter' q points
        have ih := ih q
        rw [hrest] at ih
        rw [List.destutter'_cons_pos _ h, hrest]
        exact hF p q rest points ih
      · obtain rfl := not_not.mp h
        rw [List.destutter'_cons_neg _ h, ih, hrepeat]

theorem getLast?_destutter (points : List (Point ℝ)) :
    (points.destutter (· ≠ ·)).getLast? = points.getLast? := by
  refine IsCarried.destutter (F := List.getLast?) (fun p q points others h => ?_)
    (fun p points => List.getLast?_cons_cons) points
  rw [List.getLast?_cons_cons, h, List.getLast?_cons_cons]

theorem isCarried_pathLength : IsCarried pathLength := by
  intro p q points others h
  rw [pathLength_cons_cons, h, pathLength_cons_cons]

theorem pathLength_destutter (points : List (Point ℝ)) :
    pathLength (points.destutter (· ≠ ·)) = pathLength points :=
  isCarried_pathLength.destutter (fun p points => by simp) points

end Polyline
end FlowGrid
