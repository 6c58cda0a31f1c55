import FlowGrid.Proofs.Exact.Length

/-! What simplification keeps of a polyline. The segments of a polyline fall into straight runs,
each as long as the direction stays the same. Where neighboring points are equal or differ in
one coordinate by no less than the tolerance, simplification leaves one segment for each run, so
the runs and the length of the polyline are those that it had, and nothing is left to simplify. -/

namespace FlowGrid

open FlowGrid.Lattice

/-- Headings that are joined change from one to the next. -/
theorem Lattice.Heading.isChain_ne_joined (headings : List Heading) :
    (joined headings).IsChain (· ≠ ·) := by
  fun_induction joined headings with
  | case1 => exact .nil
  | case2 h => exact .singleton h
  | case3 k rest ih => exact ih
  | case4 h k rest hne ih =>
    refine List.isChain_cons.mpr ⟨fun l hl => ?_, ih⟩
    rw [head?_joined] at hl
    cases hl
    exact hne

namespace Polyline

/-! ### Straight runs -/

/-- A part of a polyline that goes on in one direction. -/
structure Run where
  heading : Heading
  start : Point ℝ
  finish : Point ℝ

/-- Puts a run in front of others. It is one run with the first of them if that goes on in its
direction. -/
def Run.join (r : Run) : List Run → List Run
  | [] => [r]
  | s :: rest =>
    if r.heading = s.heading then ⟨r.heading, r.start, s.finish⟩ :: rest else r :: s :: rest

theorem Run.join_join {h : Heading} (p q r : Point ℝ) (runs : List Run) :
    join ⟨h, p, q⟩ (join ⟨h, q, r⟩ runs) = join ⟨h, p, r⟩ runs := by
  cases runs with
  | nil => simp [join]
  | cons s rest => by_cases hs : h = s.heading <;> simp [join, hs]

/-- The straight runs of a polyline, in order and each as long as possible. -/
noncomputable def straightRuns : List (Point ℝ) → List Run
  | p :: q :: rest =>
    if p = q then straightRuns (q :: rest)
    else Run.join ⟨(segment p q).heading, p, q⟩ (straightRuns (q :: rest))
  | _ => []

theorem straightRuns_cons_of_ne {p q : Point ℝ} (h : p ≠ q) (points : List (Point ℝ)) :
    straightRuns (p :: q :: points) =
      Run.join ⟨(segment p q).heading, p, q⟩ (straightRuns (q :: points)) :=
  if_neg h

theorem isCarried_straightRuns : IsCarried straightRuns := by
  intro p q points others h
  rw [straightRuns, h, straightRuns]

theorem straightRuns_destutter (points : List (Point ℝ)) :
    straightRuns (points.destutter (· ≠ ·)) = straightRuns points :=
  isCarried_straightRuns.destutter (fun _ _ => if_pos rfl) points

/-! ### Steps -/

/-- The points are equal, or they differ in exactly one coordinate, and there by no less than the
tolerance. -/
def IsStep (p q : Point ℝ) : Prop :=
  p = q ∨ ∃ a : Axis, Scalar.tolerance ≤ |q.along a - p.along a| ∧
    q.along a.other = p.along a.other

theorem isStep_shift (p : Point ℝ) {h : Heading} (hh : h ∈ Heading.steps) {t : ℝ}
    (ht : Scalar.tolerance ≤ t) : IsStep p (p.shift h t) := by
  refine .inr ⟨h.axis, ?_, ?_⟩
  · have hpos : (0 : ℝ) < Scalar.tolerance := by norm_num
    rw [Point.along_shift, add_sub_cancel_left, abs_mul, ← Int.cast_abs, Int.abs_eq_natAbs,
      Heading.natAbs_along_axis hh, abs_of_pos (hpos.trans_le ht), Nat.cast_one, Int.cast_one,
      one_mul]
    exact ht
  · rw [Point.along_shift, Heading.along_axis_other hh, Int.cast_zero, zero_mul, add_zero]

/-- A step that leads somewhere leads along a heading. -/
theorem IsStep.exists_shift {p q : Point ℝ} (h : IsStep p q) (hne : p ≠ q) :
    ∃ k ∈ Heading.steps, ∃ t, Scalar.tolerance ≤ t ∧ q = p.shift k t := by
  obtain ⟨a, hlong, hother⟩ := h.resolve_left hne
  have hshift (d : Int) (t : ℝ) (ht : d.sign * t = q.along a - p.along a) :
      q = p.shift (a.toward d) t := by
    apply Point.ext_along
    intro b
    rw [Point.along_shift]
    rcases a.eq_or_eq_other b with rfl | rfl
    · rw [Axis.along_toward, ht, add_sub_cancel]
    · rw [Axis.along_other_toward, hother, Int.cast_zero, zero_mul, add_zero]
  rcases le_total 0 (q.along a - p.along a) with hle | hle
  · rw [abs_of_nonneg hle] at hlong
    exact ⟨_, a.toward_mem_steps one_ne_zero, _, hlong, hshift 1 _ (by simp)⟩
  · rw [abs_of_nonpos hle] at hlong
    exact ⟨_, a.toward_mem_steps (by decide : (-1 : Int) ≠ 0), _, hlong, hshift (-1) _ (by simp)⟩

namespace Runs

variable {P : Point ℝ → Prop} {p : Point ℝ} {points : List (Point ℝ)} {headings : List Heading}

theorem isChain_isStep (hr : Runs P Scalar.tolerance p points headings) :
    (p :: points).IsChain IsStep := by
  induction hr with
  | nil p => exact .singleton p
  | cons unit _ long _ _ ih => exact .cons_cons (isStep_shift _ unit long) ih

/-- What does not see a point in the middle of a straight way is told by the corners alone. -/
theorem apply_cornersAfter {β : Type} {F : List (Point ℝ) → β} (hF : IsCarried F)
    (hstraight : ∀ (p : Point ℝ) {k : Heading} {s t : ℝ} (rest : List (Point ℝ)),
      k ∈ Heading.steps → 0 < s → 0 < t →
        F (p :: p.shift k s :: p.shift k (s + t) :: rest) = F (p :: p.shift k (s + t) :: rest))
    (hr : Runs P Scalar.tolerance p points headings) :
    F (p :: Polyline.cornersAfter p points) = F (p :: points) := by
  fun_induction Polyline.cornersAfter p points generalizing headings with
  | case1 p => rfl
  | case2 p last => rfl
  | case3 p b c rest heq ih =>
    cases hr with
    | cons unit pos long clear hr =>
      cases hr with
      | cons unit' pos' long' clear' hr =>
        obtain rfl := (direction_eq_iff unit long unit' long').mp heq
        rw [ih (join unit pos pos' long clear clear' hr), Point.shift_shift,
          hstraight p rest unit pos pos']
  | case4 p b c rest hne ih =>
    cases hr with
    | cons unit pos long clear hr => exact hF _ _ _ _ (ih hr)

/-- Ways along one heading are together as long as the way from their start to their end. -/
theorem pathLength_cornersAfter (hr : Runs P Scalar.tolerance p points headings) :
    pathLength (p :: Polyline.cornersAfter p points) = pathLength (p :: points) := by
  refine apply_cornersAfter isCarried_pathLength (fun p k s t rest hk hs ht => ?_) hr
  rw [pathLength_cons_cons, pathLength_cons_cons, pathLength_cons_cons, ← Point.shift_shift,
    Point.distance_shift _ hk hs.le, Point.distance_shift _ hk ht.le, Point.shift_shift,
    Point.distance_shift _ hk (add_pos hs ht).le, add_assoc]

theorem straightRuns_cornersAfter (hr : Runs P Scalar.tolerance p points headings) :
    straightRuns (p :: Polyline.cornersAfter p points) = straightRuns (p :: points) := by
  refine apply_cornersAfter isCarried_straightRuns (fun p k s t rest hk hs ht => ?_) hr
  rw [straightRuns_cons_of_ne (ne_shift _ hk (add_pos hs ht)),
    straightRuns_cons_of_ne (ne_shift _ hk hs), ← Point.shift_shift,
    straightRuns_cons_of_ne (ne_shift _ hk ht), heading_segment _ hk hs, heading_segment _ hk ht,
    Run.join_join, Point.shift_shift, heading_segment _ hk (add_pos hs ht)]

/-- Where the heading changes at every point, all points are corners. -/
theorem cornersAfter_eq_self (hr : Runs P Scalar.tolerance p points headings)
    (hc : headings.IsChain (· ≠ ·)) : Polyline.cornersAfter p points = points := by
  fun_induction Polyline.cornersAfter p points generalizing headings with
  | case1 p => rfl
  | case2 p last => rfl
  | case3 p b c rest heq ih =>
    cases hr with
    | cons unit pos long clear hr =>
      cases hr with
      | cons unit' pos' long' clear' hr =>
        exact absurd ((direction_eq_iff unit long unit' long').mp heq)
          (List.isChain_cons_cons.mp hc).1
  | case4 p b c rest hne ih =>
    cases hr with
    | cons unit pos long clear hr =>
      rw [ih hr hc.tail]

end Runs

/-! ### Simplification -/

theorem IsStep.eq_of_samePoint {p q : Point ℝ} (h : IsStep p q) (hsame : samePoint p q = true) :
    p = q := by
  by_contra hne
  obtain ⟨k, hk, t, ht, rfl⟩ := h.exists_shift hne
  rw [samePoint_shift p hk ht] at hsame
  cases hsame

/-- In steps only equal points count as one. -/
theorem dropRepeats_eq_destutter {points : List (Point ℝ)} (h : points.IsChain IsStep) :
    dropRepeats points = points.destutter (· ≠ ·) := by
  cases points with
  | nil => rfl
  | cons p points =>
    rw [dropRepeats, List.destutter_cons']
    induction points generalizing p with
    | nil => rfl
    | cons q points ih =>
      obtain ⟨hpq, h⟩ := List.isChain_cons_cons.mp h
      rw [dropRepeatsAfter]
      split_ifs with hsame
      · obtain rfl := hpq.eq_of_samePoint hsame
        rw [ih p h, List.destutter'_cons_neg _ (not_not.mpr rfl)]
      · have hne : p ≠ q := fun heq => hsame (heq ▸ samePoint_self p)
        rw [ih q h, List.destutter'_cons_pos _ hne]

/-- Without repetitions steps are runs. -/
theorem exists_runs {p : Point ℝ} {points : List (Point ℝ)} (h : (p :: points).IsChain IsStep) :
    ∃ headings, Runs (fun _ => True) Scalar.tolerance p (dropRepeatsAfter p points) headings := by
  induction points generalizing p with
  | nil => exact ⟨[], .nil p⟩
  | cons q points ih =>
    obtain ⟨hpq, h⟩ := List.isChain_cons_cons.mp h
    rw [dropRepeatsAfter]
    split_ifs with hsame
    · obtain rfl := hpq.eq_of_samePoint hsame
      exact ih h
    · have hne : p ≠ q := fun heq => hsame (heq ▸ samePoint_self p)
      have hpos : (0 : ℝ) < Scalar.tolerance := by norm_num
      obtain ⟨headings, hr⟩ := ih h
      obtain ⟨k, hk, t, ht, rfl⟩ := hpq.exists_shift hne
      exact ⟨k :: headings, .cons hk (hpos.trans_le ht) ht (fun _ _ => trivial) hr⟩

theorem cornersAfter_sublist (p : Point ℝ) (points : List (Point ℝ)) :
    (cornersAfter p points).Sublist points := by
  fun_induction cornersAfter p points with
  | case1 p => exact .refl _
  | case2 p last => exact .refl _
  | case3 p b c rest heq ih => exact ih.cons b
  | case4 p b c rest hne ih => exact ih.cons_cons b

/-- The polyline `kept` has only points of `points`, runs the same way, and has no point more than
it needs for that. -/
structure Simplifies (kept points : List (Point ℝ)) : Prop where
  sublist : kept.Sublist points
  head : kept.head? = points.head?
  last : kept.getLast? = points.getLast?
  length : pathLength kept = pathLength points
  runs : straightRuns kept = straightRuns points
  distinct : kept.IsChain (· ≠ ·)
  bent : ((segments kept).map Segment.heading).IsChain (· ≠ ·)

variable {points : List (Point ℝ)}

theorem simplifies_simplify (h : points.IsChain IsStep) : Simplifies (simplify points) points := by
  cases points with
  | nil => exact ⟨.slnil, rfl, rfl, rfl, rfl, .nil, .nil⟩
  | cons p points =>
    obtain ⟨headings, hr⟩ := exists_runs h
    have hdrop : p :: dropRepeatsAfter p points = (p :: points).destutter (· ≠ ·) :=
      dropRepeats_eq_destutter h
    have hsimplify : simplify (p :: points) = p :: cornersAfter p (dropRepeatsAfter p points) := rfl
    rw [hsimplify]
    exact {
      sublist := by
        refine ((cornersAfter_sublist p _).cons_cons p).trans ?_
        rw [hdrop]
        exact List.destutter_sublist _ _
      head := rfl
      last := by
        rw [List.getLast?_cons, getLast?_cornersAfter, ← List.getLast?_cons, hdrop,
          getLast?_destutter]
      length := by rw [hr.pathLength_cornersAfter, hdrop, pathLength_destutter]
      runs := by rw [hr.straightRuns_cornersAfter, hdrop, straightRuns_destutter]
      distinct := hr.cornersAfter.isChain_ne
      bent := by
        rw [hr.cornersAfter.headings_eq]
        exact Heading.isChain_ne_joined headings }

/-- A simplified polyline stays as it is. -/
theorem simplify_simplify (h : points.IsChain IsStep) :
    simplify (simplify points) = simplify points := by
  cases points with
  | nil => rfl
  | cons p points =>
    obtain ⟨headings, hr⟩ := exists_runs h
    have hcorners := hr.cornersAfter
    have hself := hcorners.cornersAfter_eq_self (Heading.isChain_ne_joined headings)
    simp only [simplify, dropRepeats, hcorners.dropRepeatsAfter_eq, hself]

end Polyline
end FlowGrid
