import FlowGrid.Geometry.Polyline
import FlowGrid.Proofs.Exact.Plane
import Mathlib.Data.Sign.Basic

/-! Polylines that run along the axes. Such a polyline is a list of runs, each along one
heading. Where no run is shorter than the tolerance, simplification joins neighboring runs
along one heading and changes nothing else. -/

namespace FlowGrid

open FlowGrid.Lattice

/-! ### Headings of segments -/

namespace Polyline

/-- The point lies on the segment, its ends included. -/
def Segment.Contains (s : Segment ℝ) (p : Point ℝ) : Prop := ∃ t ∈ Set.Icc (0 : ℝ) 1, p = s.pointAt t

/-- The direction of a segment: the signs of its parts along the axes. -/
noncomputable def Segment.heading (s : Segment ℝ) : Heading :=
  ⟨SignType.sign (s.finish.x - s.start.x), SignType.sign (s.finish.y - s.start.y)⟩

/-- The ends of the segment differ in one coordinate and agree in the other one. -/
def Segment.IsStraight (s : Segment ℝ) : Prop :=
  (s.start.x ≠ s.finish.x ∧ s.start.y = s.finish.y) ∨
    (s.start.x = s.finish.x ∧ s.start.y ≠ s.finish.y)

theorem segments_cons_cons (p q : Point ℝ) (points : List (Point ℝ)) :
    segments (p :: q :: points) = segment p q :: segments (q :: points) := rfl

variable {h : Heading} {t : ℝ}

theorem isStraight_segment (p : Point ℝ) (hh : h ∈ Heading.steps) (ht : 0 < t) :
    (segment p (p.shift h t)).IsStraight := by
  rcases Heading.parts_of_mem_steps hh with ⟨h0, h1 | h1⟩ | ⟨h0, h1 | h1⟩
  · exact .inr (by simp [segment, Point.shift, h0, h1, ht.ne'])
  · exact .inr (by simp [segment, Point.shift, h0, h1, ht.ne'])
  · exact .inl (by simp [segment, Point.shift, h0, h1, ht.ne'])
  · exact .inl (by simp [segment, Point.shift, h0, h1, ht.ne'])

theorem ne_shift (p : Point ℝ) (hh : h ∈ Heading.steps) (ht : 0 < t) : p ≠ p.shift h t := by
  intro heq
  have hx := congrArg Point.x heq
  have hy := congrArg Point.y heq
  rcases isStraight_segment p hh ht with h | h
  · exact h.1 hx
  · exact h.2 hy

theorem heading_segment (p : Point ℝ) (hh : h ∈ Heading.steps) (ht : 0 < t) :
    (segment p (p.shift h t)).heading = h := by
  cases h
  rcases Heading.parts_of_mem_steps hh with ⟨h0, h1 | h1⟩ | ⟨h0, h1 | h1⟩ <;>
    simp_all [segment, Point.shift, Segment.heading]

theorem exists_of_contains_segment (p : Point ℝ) (ht : 0 < t) {q : Point ℝ}
    (hq : (segment p (p.shift h t)).Contains q) : ∃ s ∈ Set.Icc 0 t, q = p.shift h s := by
  obtain ⟨r, ⟨h0, h1⟩, rfl⟩ := hq
  refine ⟨t * r, ⟨by positivity, mul_le_of_le_one_right ht.le h1⟩, ?_⟩
  apply Point.ext_along
  rintro (_ | _) <;> simp only [Point.along, segment, Segment.pointAt, Point.shift] <;> ring

/-! ### Runs -/

/-- From `p` the points are reached one after the other by runs along the headings. No run is
shorter than `ε`, and every point on the way satisfies `P`. -/
inductive Runs (P : Point ℝ → Prop) (ε : ℝ) : Point ℝ → List (Point ℝ) → List Heading → Prop
  | nil (p : Point ℝ) : Runs P ε p [] []
  | cons {p : Point ℝ} {points : List (Point ℝ)} {h : Heading} {headings : List Heading} {t : ℝ}
      (unit : h ∈ Heading.steps) (pos : 0 < t) (long : ε ≤ t)
      (clear : ∀ s ∈ Set.Icc 0 t, P (p.shift h s))
      (rest : Runs P ε (p.shift h t) points headings) :
      Runs P ε p (p.shift h t :: points) (h :: headings)

namespace Runs

variable {P : Point ℝ → Prop} {ε : ℝ} {p : Point ℝ} {points : List (Point ℝ)}
  {headings : List Heading}

theorem mono {δ : ℝ} (hδ : δ ≤ ε) (hr : Runs P ε p points headings) : Runs P δ p points headings := by
  induction hr with
  | nil p => exact .nil p
  | cons unit pos long clear _ ih => exact .cons unit pos (hδ.trans long) clear ih

theorem headings_eq (hr : Runs P ε p points headings) :
    (segments (p :: points)).map Segment.heading = headings := by
  induction hr with
  | nil p => rfl
  | cons unit pos _ _ _ ih =>
    rw [segments_cons_cons, List.map_cons, ih, heading_segment _ unit pos]

theorem length_eq (hr : Runs P ε p points headings) : points.length = headings.length := by
  induction hr with
  | nil p => rfl
  | cons _ _ _ _ _ ih => rw [List.length_cons, List.length_cons, ih]

/-- No run goes nowhere. -/
theorem isChain_ne (hr : Runs P ε p points headings) : (p :: points).IsChain (· ≠ ·) := by
  induction hr with
  | nil p => exact .singleton p
  | cons unit pos _ _ _ ih => exact .cons_cons (ne_shift _ unit pos) ih

theorem isStraight (hr : Runs P ε p points headings) :
    ∀ s ∈ segments (p :: points), s.IsStraight := by
  induction hr with
  | nil p => intro s hs; cases hs
  | cons unit pos _ _ _ ih =>
    intro s hs
    rcases List.mem_cons.mp hs with rfl | hs
    · exact isStraight_segment _ unit pos
    · exact ih s hs

theorem clear (hr : Runs P ε p points headings) {s : Segment ℝ}
    (hs : s ∈ segments (p :: points)) {q : Point ℝ} (hq : s.Contains q) : P q := by
  induction hr with
  | nil p => cases hs
  | cons _ pos _ clear _ ih =>
    rcases List.mem_cons.mp hs with rfl | hs
    · obtain ⟨r, hr, rfl⟩ := exists_of_contains_segment _ pos hq
      exact clear r hr
    · exact ih hs

/-- Every point that a run leads to satisfies the condition on the way. -/
theorem of_mem (hr : Runs P ε p points headings) {q : Point ℝ} (hq : q ∈ points) : P q := by
  induction hr with
  | nil p => cases hq
  | cons _ pos _ clear _ ih =>
    rcases List.mem_cons.mp hq with rfl | hq
    · exact clear _ ⟨pos.le, le_rfl⟩
    · exact ih hq

end Runs

end Polyline

/-! ### Simplification -/

namespace Lattice.Heading

/-- The headings with every repetition of one joined to it. -/
def joined : List Heading → List Heading
  | [] => []
  | [h] => [h]
  | h :: k :: rest => if h = k then joined (k :: rest) else h :: joined (k :: rest)

theorem head?_joined (headings : List Heading) : (joined headings).head? = headings.head? := by
  fun_induction joined headings with
  | case1 => rfl
  | case2 h => rfl
  | case3 k rest ih => exact ih
  | case4 h k rest hne ih => rfl

theorem getLast?_joined (headings : List Heading) :
    (joined headings).getLast? = headings.getLast? := by
  fun_induction joined headings with
  | case1 => rfl
  | case2 h => rfl
  | case3 k rest ih => rw [ih, List.getLast?_cons_cons]
  | case4 h k rest hne ih =>
    rw [List.getLast?_cons, ih, List.getLast?_cons_cons, List.getLast?_cons, Option.getD_some]

theorem joined_replicate (n : Nat) (h : Heading) : joined (List.replicate (n + 1) h) = [h] := by
  induction n with
  | zero => rfl
  | succ n ih =>
    rw [List.replicate_succ] at ih
    rw [List.replicate_succ, List.replicate_succ, joined, if_pos rfl, ih]

/-- What holds of neighbors in a list holds of those that joining leaves. -/
theorem isChain_joined {R : Heading → Heading → Prop} {headings : List Heading}
    (hc : headings.IsChain R) : (joined headings).IsChain R := by
  fun_induction joined headings with
  | case1 => exact .nil
  | case2 h => exact .singleton h
  | case3 k rest ih => exact ih (List.isChain_cons_cons.mp hc).2
  | case4 h k rest hne ih =>
    obtain ⟨hk, hc⟩ := List.isChain_cons_cons.mp hc
    refine List.isChain_cons.mpr ⟨fun l hl => ?_, ih hc⟩
    rw [head?_joined] at hl
    cases hl
    exact hk

end Lattice.Heading

namespace Polyline

theorem sign_mul {e : Int} (he : e = 0 ∨ e = 1 ∨ e = -1) {t : ℝ} (ht : Scalar.tolerance ≤ t) :
    sign ((e : ℝ) * t) = e := by
  have hpos : 0 < t := lt_of_lt_of_le (by norm_num) ht
  rcases he with rfl | rfl | rfl
  · simp [sign]
  · simp [sign, abs_of_pos hpos, ht, hpos, -Scalar.tolerance_real]
  · simp [sign, abs_of_pos hpos, ht.not_gt, hpos.le.not_gt, -Scalar.tolerance_real]

variable {p : Point ℝ} {h : Heading} {t : ℝ}

theorem direction_shift (p : Point ℝ) (hh : h ∈ Heading.steps) (ht : Scalar.tolerance ≤ t) :
    direction p (p.shift h t) = (h.dx, h.dy) := by
  have hall : ∀ h ∈ Heading.steps, (h.dx = 0 ∨ h.dx = 1 ∨ h.dx = -1) ∧
      (h.dy = 0 ∨ h.dy = 1 ∨ h.dy = -1) := by
    decide
  obtain ⟨hx, hy⟩ := hall h hh
  simp only [direction, Point.shift, add_sub_cancel_left, sign_mul hx ht, sign_mul hy ht]

/-- Runs that are long enough have one direction exactly when they have one heading. -/
theorem direction_eq_iff {p q : Point ℝ} {h k : Heading} {s t : ℝ} (hh : h ∈ Heading.steps)
    (hs : Scalar.tolerance ≤ s) (hk : k ∈ Heading.steps) (ht : Scalar.tolerance ≤ t) :
    direction p (p.shift h s) = direction q (q.shift k t) ↔ h = k := by
  rw [direction_shift p hh hs, direction_shift q hk ht, Prod.mk.injEq]
  cases h
  cases k
  rw [Heading.mk.injEq]

theorem samePoint_shift (p : Point ℝ) (hh : h ∈ Heading.steps) (ht : Scalar.tolerance ≤ t) :
    samePoint p (p.shift h t) = false := by
  have hpos : 0 < t := lt_of_lt_of_le (by norm_num) ht
  rcases Heading.parts_of_mem_steps hh with ⟨h0, h1 | h1⟩ | ⟨h0, h1 | h1⟩ <;>
    simp [samePoint, Point.shift, h0, h1, abs_of_pos hpos, ht, -Scalar.tolerance_real]

/-- Of the points between runs along the headings, those where the heading changes. -/
def bends : List Heading → List (Point ℝ) → List (Point ℝ)
  | h :: k :: headings, b :: points =>
    if h = k then bends (k :: headings) points else b :: bends (k :: headings) points
  | _, _ => []

namespace Runs

variable {P : Point ℝ → Prop} {points : List (Point ℝ)} {headings : List Heading}

theorem dropRepeatsAfter_eq (hr : Runs P Scalar.tolerance p points headings) :
    dropRepeatsAfter p points = points := by
  induction hr with
  | nil p => rfl
  | cons unit _ long _ _ ih => rw [dropRepeatsAfter, samePoint_shift _ unit long, ih]; simp

/-- Two runs along one heading are one run. -/
theorem join {ε s t : ℝ} (unit : h ∈ Heading.steps) (hs : 0 < s) (ht : 0 < t) (long : ε ≤ s)
    (clear : ∀ r ∈ Set.Icc 0 s, P (p.shift h r))
    (clear' : ∀ r ∈ Set.Icc 0 t, P ((p.shift h s).shift h r))
    (rest : Runs P ε ((p.shift h s).shift h t) points headings) :
    Runs P ε p ((p.shift h s).shift h t :: points) (h :: headings) := by
  rw [Point.shift_shift] at rest ⊢
  refine .cons unit (add_pos hs ht) (by linarith) ?_ rest
  rintro r ⟨h0, h1⟩
  rcases le_total r s with hle | hle
  · exact clear r ⟨h0, hle⟩
  · have := clear' (r - s) ⟨by linarith, by linarith⟩
    rwa [Point.shift_shift, add_sub_cancel] at this

/-- Simplification joins the runs along one heading. -/
theorem cornersAfter (hr : Runs P Scalar.tolerance p points headings) :
    Runs P Scalar.tolerance p (cornersAfter p points) (Heading.joined headings) := by
  fun_induction Polyline.cornersAfter p points generalizing headings with
  | case1 p =>
    cases hr
    exact .nil p
  | case2 p last =>
    cases hr with
    | cons unit pos long clear rest =>
      cases rest
      exact .cons unit pos long clear (.nil _)
  | case3 p b c rest heq ih =>
    cases hr with
    | cons unit pos long clear hr =>
      cases hr with
      | cons unit' pos' long' clear' hr =>
        obtain rfl := (direction_eq_iff unit long unit' long').mp heq
        rw [Heading.joined, if_pos rfl]
        exact ih (join unit pos pos' long clear clear' hr)
  | case4 p b c rest hne ih =>
    cases hr with
    | cons unit pos long clear hr =>
      cases hr with
      | cons unit' pos' long' clear' hr =>
        rw [direction_eq_iff unit long unit' long'] at hne
        rw [Heading.joined, if_neg hne]
        exact .cons unit pos long clear (ih (.cons unit' pos' long' clear' hr))

/-- The corners of a path depend on its headings, and on its ends not at all. -/
theorem cornersAfter_concat {between : List (Point ℝ)} {finish : Point ℝ}
    (hr : Runs P Scalar.tolerance p (between ++ [finish]) headings) :
    Polyline.cornersAfter p (between ++ [finish]) = bends headings between ++ [finish] := by
  induction between generalizing p headings with
  | nil =>
    cases hr with
    | cons _ _ _ _ rest =>
      cases rest
      rfl
  | cons b between ih =>
    obtain ⟨c, rest, hrest⟩ : ∃ c rest, between ++ [finish] = c :: rest :=
      List.exists_cons_of_ne_nil (by simp)
    rw [List.cons_append, hrest] at hr ⊢
    rw [hrest] at ih
    cases hr with
    | cons unit pos long clear hr =>
      cases hr with
      | cons unit' pos' long' clear' hr =>
        rw [Polyline.cornersAfter, bends]
        simp only [direction_eq_iff unit long unit' long']
        split_ifs with heq
        · obtain rfl := heq
          exact ih (join unit pos pos' long clear clear' hr)
        · rw [List.cons_append, ih (.cons unit' pos' long' clear' hr)]

theorem simplify_concat {between : List (Point ℝ)} {finish : Point ℝ}
    (hr : Runs P Scalar.tolerance p (between ++ [finish]) headings) :
    simplify (p :: (between ++ [finish])) = p :: (bends headings between ++ [finish]) := by
  simp only [simplify, dropRepeats, hr.dropRepeatsAfter_eq, hr.cornersAfter_concat]

end Runs

theorem getLast?_cornersAfter (p : Point ℝ) (points : List (Point ℝ)) :
    (cornersAfter p points).getLast? = points.getLast? := by
  fun_induction cornersAfter p points with
  | case1 p => rfl
  | case2 p last => rfl
  | case3 p b c rest heq ih => rw [ih, List.getLast?_cons_cons]
  | case4 p b c rest hne ih =>
    rw [List.getLast?_cons, ih, List.getLast?_cons_cons, List.getLast?_cons, Option.getD_some]

/-! ### Points that differ -/

/-- The points do not count as one. -/
def Apart (p q : Point ℝ) : Prop := samePoint p q = false

theorem apart_iff {p q : Point ℝ} :
    Apart p q ↔ Scalar.tolerance ≤ |q.x - p.x| ∨ Scalar.tolerance ≤ |q.y - p.y| := by
  simp only [Apart, samePoint, Scalar.abs_real, Bool.and_eq_false_iff, decide_eq_false_iff_not,
    not_lt, abs_sub_comm]

theorem samePoint_iff {p q : Point ℝ} :
    samePoint p q = true ↔ ∀ a, |p.along a - q.along a| < Scalar.tolerance := by
  rw [samePoint, Bool.and_eq_true, decide_eq_true_eq, decide_eq_true_eq]
  exact ⟨fun h a => by cases a; exacts [h.1, h.2], fun h => ⟨h .horizontal, h .vertical⟩⟩

theorem apart_iff_along {p q : Point ℝ} :
    Apart p q ↔ ∃ a, Scalar.tolerance ≤ |p.along a - q.along a| := by
  simp only [Apart, ← Bool.not_eq_true, samePoint_iff, not_forall, not_lt]

theorem Apart.ne {p q : Point ℝ} (h : Apart p q) : p ≠ q := by
  rintro rfl
  simp [apart_iff] at h
  norm_num at h

theorem sign_eq_one_iff {d : ℝ} : sign d = 1 ↔ Scalar.tolerance ≤ d := by
  have hpos : (0 : ℝ) < Scalar.tolerance := by norm_num
  rw [sign, Scalar.abs_real, Int.cast_zero]
  rcases lt_trichotomy d 0 with h | rfl | h
  · rw [abs_of_neg h, if_neg h.not_gt]
    split_ifs <;> simp [-Scalar.tolerance_real, (h.trans hpos)]
  · simp [-Scalar.tolerance_real, hpos]
  · simp [-Scalar.tolerance_real, abs_of_pos h, h]

theorem sign_neg (d : ℝ) : sign (-d) = -sign d := by
  have hpos : (0 : ℝ) < Scalar.tolerance := by norm_num
  simp only [sign, Scalar.abs_real, Int.cast_zero, abs_neg, Left.neg_pos_iff]
  rcases lt_trichotomy d 0 with h | rfl | h
  · simp only [h, h.not_gt, if_true, if_false]
    split_ifs <;> rfl
  · simp [-Scalar.tolerance_real, hpos]
  · simp only [h, h.not_gt, if_true, if_false]
    split_ifs <;> rfl

theorem tolerance_le_abs_iff {d : ℝ} : Scalar.tolerance ≤ |d| ↔ sign d = 1 ∨ sign d = -1 := by
  rw [← neg_eq_iff_eq_neg, ← sign_neg, sign_eq_one_iff, sign_eq_one_iff, le_abs]

/-- A part of a segment that is not lost in the tolerance only grows by one of its sign. -/
theorem tolerance_le_abs_add {d e : ℝ} (h : sign d = sign e) (hd : Scalar.tolerance ≤ |d|) :
    Scalar.tolerance ≤ |d + e| := by
  have hpos : (0 : ℝ) < Scalar.tolerance := by norm_num
  rcases tolerance_le_abs_iff.mp hd with hd | hd
  · have he := h ▸ hd
    rw [sign_eq_one_iff] at hd he
    exact le_abs.mpr (.inl (by linarith))
  · have he := h ▸ hd
    rw [← neg_eq_iff_eq_neg, ← sign_neg, sign_eq_one_iff] at hd he
    exact le_abs.mpr (.inr (by linarith))

/-- Going on in one direction leads farther away. -/
theorem Apart.of_direction_eq {p q r : Point ℝ} (hpq : Apart p q)
    (h : direction p q = direction q r) : Apart p r := by
  obtain ⟨hx, hy⟩ := Prod.mk.inj h
  rw [apart_iff] at hpq ⊢
  rcases hpq with hpq | hpq
  · exact .inl (by simpa using tolerance_le_abs_add hx hpq)
  · exact .inr (by simpa using tolerance_le_abs_add hy hpq)

theorem isChain_dropRepeatsAfter (p : Point ℝ) (points : List (Point ℝ)) :
    (p :: dropRepeatsAfter p points).IsChain Apart := by
  induction points generalizing p with
  | nil => exact .singleton p
  | cons q points ih =>
    rw [dropRepeatsAfter]
    split_ifs with h
    · exact ih p
    · exact .cons_cons (Bool.eq_false_of_not_eq_true h) (ih q)

theorem isChain_cornersAfter {p : Point ℝ} {points : List (Point ℝ)}
    (h : (p :: points).IsChain Apart) : (p :: Polyline.cornersAfter p points).IsChain Apart := by
  fun_induction Polyline.cornersAfter p points with
  | case1 p => exact h
  | case2 p last => exact h
  | case3 p b c rest heq ih =>
    obtain ⟨hb, h⟩ := List.isChain_cons_cons.mp h
    exact ih (.cons_cons (hb.of_direction_eq heq) (List.isChain_cons_cons.mp h).2)
  | case4 p b c rest hne ih =>
    obtain ⟨hb, h⟩ := List.isChain_cons_cons.mp h
    exact .cons_cons hb (ih h)

/-- Simplification leaves no two neighboring points that count as one, whatever the points. -/
theorem isChain_simplify (points : List (Point ℝ)) : (simplify points).IsChain Apart := by
  unfold simplify
  cases points with
  | nil => exact .nil
  | cons p points => exact isChain_cornersAfter (isChain_dropRepeatsAfter p points)

/-! ### Ends of simplified polylines -/

theorem dropRepeatsAfter_concat (p : Point ℝ) (points : List (Point ℝ)) (q : Point ℝ) :
    dropRepeatsAfter p (points ++ [q]) = dropRepeatsAfter p points ++
      if samePoint ((dropRepeatsAfter p points).getLastD p) q then [] else [q] := by
  induction points generalizing p with
  | nil => rfl
  | cons b points ih =>
    by_cases h : samePoint p b = true
    · simp only [List.cons_append, dropRepeatsAfter, if_pos h, ih p]
    · simp only [List.cons_append, dropRepeatsAfter, if_neg h, ih b, List.getLastD_cons]

theorem samePoint_self (p : Point ℝ) : samePoint p p = true := by
  by_contra h
  exact Apart.ne (Bool.eq_false_of_not_eq_true h) rfl

/-- The last point counts as the last one that is kept. -/
theorem samePoint_getLastD_concat (p : Point ℝ) (points : List (Point ℝ)) (q : Point ℝ) :
    samePoint ((dropRepeatsAfter p (points ++ [q])).getLastD p) q = true := by
  rw [dropRepeatsAfter_concat]
  split_ifs with h
  · rwa [List.append_nil]
  · rw [List.getLastD_concat, samePoint_self]

theorem dropRepeatsAfter_eq_nil_iff {p : Point ℝ} {points : List (Point ℝ)} :
    dropRepeatsAfter p points = [] ↔ ∀ q ∈ points, samePoint p q = true := by
  induction points with
  | nil => simp [dropRepeatsAfter]
  | cons b points ih =>
    rw [dropRepeatsAfter, List.forall_mem_cons]
    split_ifs with h
    · rw [ih, and_iff_right h]
    · simp [h]

theorem mem_of_mem_dropRepeatsAfter {p q : Point ℝ} {points : List (Point ℝ)}
    (h : q ∈ dropRepeatsAfter p points) : q ∈ points := by
  induction points generalizing p with
  | nil => exact h
  | cons b points ih =>
    rw [dropRepeatsAfter] at h
    split_ifs at h
    · exact .tail _ (ih h)
    · rcases List.mem_cons.mp h with rfl | h
      · exact .head _
      · exact .tail _ (ih h)

theorem getLast?_simplify (p : Point ℝ) (points : List (Point ℝ)) :
    (simplify (p :: points)).getLast? = some ((dropRepeatsAfter p points).getLastD p) := by
  simp only [simplify, dropRepeats]
  rw [List.getLast?_cons, getLast?_cornersAfter, List.getLastD_eq_getLast?]

theorem cornersAfter_eq_nil_iff {p : Point ℝ} {points : List (Point ℝ)} :
    Polyline.cornersAfter p points = [] ↔ points = [] := by
  rw [← List.getLast?_eq_none_iff, getLast?_cornersAfter, List.getLast?_eq_none_iff]

/-- Simplification leaves a second point just when there is one that does not count as the first. -/
theorem two_le_length_simplify_iff {p : Point ℝ} {points : List (Point ℝ)} :
    2 ≤ (simplify (p :: points)).length ↔ ∃ q ∈ points, Apart p q := by
  rw [simplify, dropRepeats, List.length_cons, Nat.succ_le_succ_iff, Nat.one_le_iff_ne_zero, Ne,
    List.length_eq_zero_iff, cornersAfter_eq_nil_iff, dropRepeatsAfter_eq_nil_iff]
  simp only [not_forall, Bool.not_eq_true, exists_prop, Apart]

/-- The last point is kept when it is apart from the last one that is kept before it. -/
theorem getLast?_simplify_concat {p q : Point ℝ} {points : List (Point ℝ)}
    (h : Apart ((dropRepeatsAfter p points).getLastD p) q) :
    (simplify (p :: (points ++ [q]))).getLast? = some q := by
  rw [getLast?_simplify, dropRepeatsAfter_concat, if_neg (by simpa [Apart] using h),
    List.getLastD_concat]

/-! ### Paths -/

/-- The points make a path from `start`, which it leaves along `out`, to `finish`, which it
enters along `into`. It runs along the axes, never doubles back, and satisfies `P` on the
way. -/
def IsPath (P : Point ℝ → Prop) (start finish : Point ℝ) (out into : Heading)
    (points : List (Point ℝ)) : Prop :=
  ∃ rest headings, points = start :: rest ∧ rest.getLast? = some finish ∧
    Runs P 0 start rest headings ∧ headings.head? = some out ∧ headings.getLast? = some into ∧
    headings.IsChain fun h k => k ≠ h.reverse

/-- Simplification keeps a path whose runs are long enough. -/
theorem Runs.isPath_simplify {P : Point ℝ → Prop} {start finish : Point ℝ} {out into : Heading}
    {rest : List (Point ℝ)} {headings : List Heading}
    (hr : Runs P Scalar.tolerance start rest headings) (hfinish : rest.getLast? = some finish)
    (hout : headings.head? = some out) (hinto : headings.getLast? = some into)
    (hforward : headings.IsChain fun h k => k ≠ h.reverse) :
    IsPath P start finish out into (simplify (start :: rest)) := by
  refine ⟨Polyline.cornersAfter start rest, Heading.joined headings, ?_, ?_, ?_, ?_, ?_, ?_⟩
  · simp only [simplify, dropRepeats, hr.dropRepeatsAfter_eq]
  · rw [getLast?_cornersAfter, hfinish]
  · exact hr.cornersAfter.mono (by norm_num)
  · rw [Heading.head?_joined, hout]
  · rw [Heading.getLast?_joined, hinto]
  · exact Heading.isChain_joined hforward

/-- Runs along one heading are drawn as one segment. -/
theorem Runs.length_simplify {P : Point ℝ → Prop} {start : Point ℝ} {rest : List (Point ℝ)}
    {n : Nat} {h : Heading}
    (hr : Runs P Scalar.tolerance start rest (List.replicate (n + 1) h)) :
    (simplify (start :: rest)).length = 2 := by
  have hlength := hr.cornersAfter.length_eq
  rw [Heading.joined_replicate, List.length_singleton] at hlength
  simp only [simplify, dropRepeats, hr.dropRepeatsAfter_eq, List.length_cons, hlength]

namespace IsPath

variable {P : Point ℝ → Prop} {start finish : Point ℝ} {out into : Heading}
  {points : List (Point ℝ)}

theorem head?_eq (hp : IsPath P start finish out into points) : points.head? = some start := by
  obtain ⟨rest, headings, rfl, -⟩ := hp
  rfl

theorem getLast?_eq (hp : IsPath P start finish out into points) :
    points.getLast? = some finish := by
  obtain ⟨rest, headings, rfl, hlast, -⟩ := hp
  rw [List.getLast?_cons, hlast, Option.getD_some]

theorem isChain_ne (hp : IsPath P start finish out into points) : points.IsChain (· ≠ ·) := by
  obtain ⟨rest, headings, rfl, -, hr, -⟩ := hp
  exact hr.isChain_ne

theorem isStraight (hp : IsPath P start finish out into points) :
    ∀ s ∈ segments points, s.IsStraight := by
  obtain ⟨rest, headings, rfl, -, hr, -⟩ := hp
  exact hr.isStraight

theorem forward (hp : IsPath P start finish out into points) :
    ((segments points).map Segment.heading).IsChain fun h k => k ≠ h.reverse := by
  obtain ⟨rest, headings, rfl, -, hr, -, -, hforward⟩ := hp
  rwa [hr.headings_eq]

theorem head?_heading (hp : IsPath P start finish out into points) :
    ((segments points).map Segment.heading).head? = some out := by
  obtain ⟨rest, headings, rfl, -, hr, hout, -⟩ := hp
  rwa [hr.headings_eq]

theorem getLast?_heading (hp : IsPath P start finish out into points) :
    ((segments points).map Segment.heading).getLast? = some into := by
  obtain ⟨rest, headings, rfl, -, hr, -, hinto, -⟩ := hp
  rwa [hr.headings_eq]

/-- A path of two points leaves its start and enters its end along one heading. -/
theorem straight_of_length (hp : IsPath P start finish out into points) (h : points.length = 2) :
    into = out ∧ ∃ t, 0 < t ∧ finish = start.shift out t ∧
      ∀ s ∈ Set.Icc 0 t, P (start.shift out s) := by
  obtain ⟨rest, headings, rfl, hlast, hr, hout, hinto, -⟩ := hp
  cases hr with
  | nil p => cases hout
  | cons unit pos long clear hr =>
    cases hr with
    | nil p =>
      cases hout
      cases hinto
      cases hlast
      exact ⟨rfl, _, pos, rfl, clear⟩
    | cons _ _ _ _ _ => simp at h

theorem of_contains (hp : IsPath P start finish out into points) {s : Segment ℝ}
    (hs : s ∈ segments points) {p : Point ℝ} (hc : s.Contains p) : P p := by
  obtain ⟨rest, headings, rfl, -, hr, -⟩ := hp
  exact hr.clear hs hc

theorem of_mem (hp : IsPath P start finish out into points) {p : Point ℝ} (h : p ∈ points) :
    P p := by
  obtain ⟨rest, headings, rfl, -, hr, hout, -⟩ := hp
  cases hr with
  | nil p => cases hout
  | cons unit pos long clear hr =>
    rcases List.mem_cons.mp h with rfl | h
    · have := clear 0 ⟨le_rfl, pos.le⟩
      rwa [Point.shift_zero] at this
    · exact (Runs.cons unit pos long clear hr).of_mem h

end IsPath

end Polyline
end FlowGrid
