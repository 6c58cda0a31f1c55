import FlowGrid.Proofs.Exact.Length

/-! The middle of a polyline. The distance that is left is carried along the segments: a segment
that reaches it has a length to divide by, and the others only shorten it. So the point that
is found parts the polyline at half its length, unless the whole length is zero. -/

namespace FlowGrid.Polyline

/-! ### Checked quotients -/

section Checked

variable {α : Type} [Scalar α]

/-- The point at a distance along the segments, with the quotient checked. -/
def checkedPointAlong (last : Point α) (distance : α) :
    List (Segment α) → Except ArithmeticFault (Point α)
  | [] => .ok last
  | s :: rest =>
    if ((0 : Int) : α) < s.length ∧ distance ≤ s.length then
      (Scalar.quotient distance s.length).map s.pointAt
    else checkedPointAlong last (distance - s.length) rest

/-- The point halfway along a polyline, with the quotient checked. -/
def checkedMidpoint (points : List (Point α)) : Except ArithmeticFault (Point α) :=
  match points.getLast? with
  | none => .ok ⟨((0 : Int) : α), ((0 : Int) : α)⟩
  | some last =>
    checkedPointAlong last (Scalar.half (totalLength (segments points))) (segments points)

end Checked

theorem checkedPointAlong_eq (last : Point ℝ) (distance : ℝ) (segments : List (Segment ℝ)) :
    checkedPointAlong last distance segments = .ok (pointAlong last distance segments) := by
  induction segments generalizing distance with
  | nil => rfl
  | cons s segments ih =>
    rw [checkedPointAlong, pointAlong]
    split_ifs with h
    · have hpos : 0 < s.length := by simpa using h.1
      rw [Scalar.quotient_real _ hpos.ne']
      rfl
    · exact ih _

theorem checkedMidpoint_eq (points : List (Point ℝ)) :
    checkedMidpoint points = .ok (midpoint points) := by
  unfold checkedMidpoint midpoint
  cases points.getLast? with
  | none => rfl
  | some last => exact checkedPointAlong_eq _ _ _

/-! ### Points along a polyline -/

/-- The point lies on a segment of the polyline: `d` is the length up to it and `e` the length
from it on. -/
def Parts (points : List (Point ℝ)) (d e : ℝ) (m : Point ℝ) : Prop :=
  ∃ before a b after, points = before ++ a :: b :: after ∧ (segment a b).Contains m ∧
    pathLength (before ++ [a, m]) = d ∧ pathLength (m :: b :: after) = e

theorem parts_segment (p q : Point ℝ) (points : List (Point ℝ)) {t : ℝ}
    (ht : t ∈ Set.Icc 0 1) : Parts (p :: q :: points) (t * p.distance q)
      ((1 - t) * p.distance q + pathLength (q :: points)) ((segment p q).pointAt t) := by
  obtain ⟨hto, hfrom⟩ := distance_pointAt p q ht
  refine ⟨[], p, q, points, rfl, ⟨t, ht, rfl⟩, ?_, ?_⟩
  · rw [List.nil_append, pathLength_cons_cons, pathLength_singleton, hto, add_zero]
  · rw [pathLength_cons_cons, hfrom]

theorem Parts.cons {p q m : Point ℝ} {points : List (Point ℝ)} {d e : ℝ}
    (h : Parts (q :: points) d e m) : Parts (p :: q :: points) (p.distance q + d) e m := by
  obtain ⟨before, a, b, after, heq, hm, hto, hfrom⟩ := h
  refine ⟨p :: before, a, b, after, by rw [heq, List.cons_append], hm, ?_, hfrom⟩
  have hhead : (before ++ [a, m]).head? = some q := by
    cases before <;> cases heq <;> rfl
  rw [List.cons_append, pathLength_cons hhead, hto]

/-- A segment is left behind when it has no length or the distance is longer. -/
theorem pointAlong_segment_cons (last p q : Point ℝ) (d : ℝ) (points : List (Point ℝ)) :
    pointAlong last d (segments (p :: q :: points)) =
      if 0 < p.distance q ∧ d ≤ p.distance q then (segment p q).pointAt (d / p.distance q)
      else pointAlong last (d - p.distance q) (segments (q :: points)) := by
  rw [segments_cons_cons, pointAlong, length_segment, Int.cast_zero]

/-- On a polyline with a length, a distance that does not exceed it leads to a point that parts
it there. -/
theorem parts_pointAlong (last p : Point ℝ) (points : List (Point ℝ)) {d : ℝ} (hd : 0 ≤ d)
    (hle : d ≤ pathLength (p :: points)) (hpos : 0 < pathLength (p :: points)) :
    Parts (p :: points) d (pathLength (p :: points) - d)
      (pointAlong last d (segments (p :: points))) := by
  induction points generalizing p d with
  | nil => exact absurd hpos (lt_irrefl 0)
  | cons q points ih =>
    rw [pathLength_cons_cons] at hle hpos ⊢
    rw [pointAlong_segment_cons]
    split_ifs with h
    · obtain ⟨hlength, hreach⟩ := h
      have hparts := parts_segment p q points
        ⟨div_nonneg hd hlength.le, (div_le_one hlength).mpr hreach⟩
      rw [sub_mul, one_mul, div_mul_cancel₀ d hlength.ne'] at hparts
      rwa [add_sub_right_comm]
    -- a segment that is left behind is no longer than the distance, and does not end the polyline
    · have hshort : p.distance q ≤ d ∧ 0 < pathLength (q :: points) := by
        rcases (p.distance_nonneg q).eq_or_lt with hzero | hlength
        · exact ⟨hzero ▸ hd, by linarith⟩
        · have hlt : p.distance q < d := lt_of_not_ge fun hge => h ⟨hlength, hge⟩
          exact ⟨hlt.le, by linarith⟩
      have hparts := (ih q (sub_nonneg.mpr hshort.1) (by linarith) hshort.2).cons (p := p)
      rw [add_sub_cancel, sub_sub_eq_add_sub, add_comm (pathLength _)] at hparts
      exact hparts

/-- Along a polyline without a length all segments are left behind. -/
theorem pointAlong_of_pathLength_eq_zero (last p : Point ℝ) (d : ℝ) {points : List (Point ℝ)}
    (h : pathLength (p :: points) = 0) : pointAlong last d (segments (p :: points)) = last := by
  induction points generalizing p d with
  | nil => rfl
  | cons q points ih =>
    rw [pathLength_cons_cons] at h
    have hfirst := p.distance_nonneg q
    have hrest := pathLength_nonneg (q :: points)
    rw [pointAlong_segment_cons, if_neg (by rintro ⟨hpos, -⟩; linarith)]
    exact ih q _ (by linarith)

/-- Repeated points are left behind. -/
theorem pointAlong_destutter (last : Point ℝ) (d : ℝ) (points : List (Point ℝ)) :
    pointAlong last d (segments (points.destutter (· ≠ ·))) =
      pointAlong last d (segments points) := by
  have hcarried : IsCarried fun points d => pointAlong last d (segments points) := by
    intro p q points others heq
    have hrest (d : ℝ) : pointAlong last d (segments (q :: points)) =
        pointAlong last d (segments (q :: others)) := congrFun heq d
    funext d
    dsimp only
    rw [pointAlong_segment_cons, hrest, pointAlong_segment_cons]
  refine congrFun (hcarried.destutter (fun p points => ?_) points) d
  funext d
  rw [pointAlong_segment_cons, Point.distance_self, if_neg (by simp), sub_zero]

/-! ### The middle -/

theorem midpoint_eq {points : List (Point ℝ)} {last : Point ℝ} (h : points.getLast? = some last) :
    midpoint points = pointAlong last (pathLength points / 2) (segments points) := by
  rw [midpoint, h, totalLength_segments, Scalar.half_real]

theorem midpoint_destutter (points : List (Point ℝ)) :
    midpoint (points.destutter (· ≠ ·)) = midpoint points := by
  cases h : points.getLast? with
  | none => rw [List.getLast?_eq_none_iff.mp h, List.destutter_nil]
  | some last =>
    rw [midpoint_eq h, midpoint_eq ((getLast?_destutter points).trans h), pathLength_destutter,
      pointAlong_destutter]

/-- The point lies on a segment of the polyline, and the length up to it is the length from it
on. -/
def Halves (points : List (Point ℝ)) (m : Point ℝ) : Prop :=
  ∃ before a b after, points = before ++ a :: b :: after ∧ (segment a b).Contains m ∧
    pathLength (before ++ [a, m]) = pathLength (m :: b :: after)

/-- The middle of a polyline is found without a division by zero. It halves a polyline that has
a length and is the last point of any other one, and points that are repeated do not move it. -/
theorem midpoint_halves {points : List (Point ℝ)} (h : points ≠ []) :
    checkedMidpoint points = .ok (midpoint points) ∧
      (0 < pathLength points → Halves points (midpoint points)) ∧
      (pathLength points = 0 → points.getLast? = some (midpoint points)) ∧
      ∀ others : List (Point ℝ), others.destutter (· ≠ ·) = points.destutter (· ≠ ·) →
        midpoint others = midpoint points := by
  obtain ⟨p, rest, rfl⟩ := List.exists_cons_of_ne_nil h
  have hlast := List.getLast?_eq_some_getLast h
  refine ⟨checkedMidpoint_eq _, fun hpos => ?_, fun hzero => ?_, fun others hothers => ?_⟩
  · have hhalf := half_pos hpos
    obtain ⟨before, a, b, after, heq, hm, hto, hfrom⟩ :=
      parts_pointAlong (List.getLast _ h) p rest hhalf.le (half_le_self hpos.le) hpos
    rw [← midpoint_eq hlast] at hm hto hfrom
    exact ⟨before, a, b, after, heq, hm, by rw [hto, hfrom, sub_half]⟩
  · rw [hlast, midpoint_eq hlast, pointAlong_of_pathLength_eq_zero _ _ _ hzero]
  · rw [← midpoint_destutter others, hothers, midpoint_destutter]

/-- A corner, the first point of which is repeated. -/
def repeatedCorner : List (Point ℝ) := [⟨-1, 0⟩, ⟨-1, 0⟩, ⟨1, 0⟩, ⟨1, 1⟩]

theorem midpoint_halves_repeatedCorner :
    repeatedCorner ≠ [] ∧ 0 < pathLength repeatedCorner ∧
      Halves repeatedCorner (midpoint repeatedCorner) ∧
      midpoint [⟨-1, 0⟩, ⟨1, 0⟩, ⟨1, 1⟩] = midpoint repeatedCorner := by
  have hne : repeatedCorner ≠ [] := List.cons_ne_nil _ _
  have hpos : 0 < pathLength repeatedCorner := by
    rw [repeatedCorner, pathLength_cons_cons, Point.distance_self, zero_add, pathLength_cons_cons]
    have hapart : (⟨-1, 0⟩ : Point ℝ) ≠ ⟨1, 0⟩ := fun h =>
      absurd (congrArg Point.x h) (by norm_num)
    exact add_pos_of_pos_of_nonneg (Point.distance_pos hapart) (pathLength_nonneg _)
  obtain ⟨-, hhalves, -, hrepeats⟩ := midpoint_halves hne
  refine ⟨hne, hpos, hhalves hpos, hrepeats _ ?_⟩
  simp [repeatedCorner, List.destutter_cons_cons, List.destutter']

end FlowGrid.Polyline
