import FlowGrid.Proofs.Exact.Arrowhead
import FlowGrid.Proofs.Exact.Length
import Mathlib.Tactic.LinearCombination

/-! The triangles of arrowheads. In the coordinates along a segment and across it an arrowhead is
the same triangle for every segment of a path: the sides are as long as its size, and its base
lies across the segment at a distance of half the size times the root of three. -/

namespace FlowGrid

theorem Point.distance_eq {p q : Point ℝ} {r : ℝ} (hr : 0 ≤ r)
    (h : (q.x - p.x) ^ 2 + (q.y - p.y) ^ 2 = r ^ 2) : p.distance q = r := by
  rw [distance, h, Real.sqrt_sq hr]

namespace Arrowhead

/-- The middle of the side across from the apex. -/
noncomputable def baseMiddle (a : Arrowhead ℝ) : Point ℝ :=
  ⟨Scalar.half (a.left.x + a.right.x), Scalar.half (a.left.y + a.right.y)⟩

/-- The arrowhead is an equilateral triangle whose axis runs from its apex toward `neighbor`. -/
structure IsAlong (a : Arrowhead ℝ) (neighbor : Point ℝ) (size : ℝ) : Prop where
  leftSide : a.apex.distance a.left = size
  rightSide : a.apex.distance a.right = size
  base : a.left.distance a.right = size
  isPerpendicular : (a.right.x - a.left.x) * (neighbor.x - a.apex.x) +
    (a.right.y - a.left.y) * (neighbor.y - a.apex.y) = 0
  depth : a.apex.distance a.baseMiddle = size * √3 / 2
  toward : ∃ t, 0 < t ∧ a.baseMiddle =
    ⟨a.apex.x + t * (neighbor.x - a.apex.x), a.apex.y + t * (neighbor.y - a.apex.y)⟩

/-- The arrowhead that points along the vector `(ux, uy)`, by its depth and half its base. -/
def along (terminal : Terminal) (apex : Point ℝ) (ux uy depth half : ℝ) : Arrowhead ℝ where
  terminal := terminal
  apex := apex
  left := ⟨apex.x - ux * depth - uy * half, apex.y - uy * depth + ux * half⟩
  right := ⟨apex.x - ux * depth + uy * half, apex.y - uy * depth - ux * half⟩

variable {terminal : Terminal} {apex previous neighbor : Point ℝ} {size ux uy depth half : ℝ}

theorem pointingFrom_eq (terminal : Terminal) (h : apex ≠ previous) (size : ℝ) :
    pointingFrom terminal apex previous size = .ok (along terminal apex
      ((apex.x - previous.x) / previous.distance apex)
      ((apex.y - previous.y) / previous.distance apex) (size * √3 / 2) (size / 2)) := by
  have hlength := length_ne_zero h
  simp only [pointingFrom, Scalar.quotient_real _ hlength, Scalar.half_real, Scalar.sqrt_real,
    Int.cast_ofNat, neg_mul, neg_div, sub_neg_eq_add, ← sub_eq_add_neg, mul_div_assoc]
  rfl

theorem baseMiddle_along : (along terminal apex ux uy depth half).baseMiddle =
    ⟨apex.x - ux * depth, apex.y - uy * depth⟩ := by
  rw [baseMiddle, along, Point.mk.injEq, Scalar.half_real, Scalar.half_real]
  constructor <;> ring

/-- A vector of length one that points away from the neighbor gives an equilateral triangle. -/
theorem isAlong_along (hsize : 0 < size) (hu : ux ^ 2 + uy ^ 2 = 1) {length : ℝ}
    (hlength : 0 < length) (hx : apex.x - neighbor.x = length * ux)
    (hy : apex.y - neighbor.y = length * uy) :
    (along terminal apex ux uy (size * √3 / 2) (size / 2)).IsAlong neighbor size := by
  have hroot : √3 ^ 2 = (3 : ℝ) := Real.sq_sqrt (by norm_num)
  have hdepth : 0 < size * √3 / 2 := by positivity
  constructor
  case leftSide | rightSide =>
    apply Point.distance_eq hsize.le
    simp only [along]
    linear_combination size ^ 2 / 4 * (ux ^ 2 + uy ^ 2) * hroot + size ^ 2 * hu
  case base =>
    apply Point.distance_eq hsize.le
    simp only [along]
    linear_combination size ^ 2 * hu
  case isPerpendicular =>
    simp only [along]
    linear_combination -(uy * size) * hx + ux * size * hy
  case depth =>
    rw [baseMiddle_along]
    apply Point.distance_eq hdepth.le
    simp only [along]
    linear_combination (size * √3 / 2) ^ 2 * hu
  case toward =>
    have hstep (u : ℝ) : size * √3 / 2 / length * (length * u) = u * (size * √3 / 2) := by
      field_simp
    refine ⟨size * √3 / 2 / length, by positivity, ?_⟩
    rw [baseMiddle_along, Point.mk.injEq]
    simp only [along]
    constructor
    · linear_combination hstep ux + size * √3 / 2 / length * hx
    · linear_combination hstep uy + size * √3 / 2 / length * hy

/-- The arrowhead at an end of a path is an equilateral triangle along the segment there. -/
theorem isAlong_of_pointingFrom (h : apex ≠ previous) (hsize : 0 < size) {a : Arrowhead ℝ}
    (ha : pointingFrom terminal apex previous size = .ok a) : a.IsAlong previous size := by
  have hlength : 0 < previous.distance apex := Point.distance_pos h.symm
  rw [pointingFrom_eq terminal h] at ha
  cases ha
  refine isAlong_along hsize ?_ hlength (mul_div_cancel₀ _ hlength.ne').symm
    (mul_div_cancel₀ _ hlength.ne').symm
  have hsquare : previous.distance apex ^ 2 =
      (apex.x - previous.x) ^ 2 + (apex.y - previous.y) ^ 2 := Real.sq_sqrt (by positivity)
  rw [div_pow, div_pow, ← add_div, ← hsquare, div_self (pow_pos hlength 2).ne']

theorem forall_isAlong_of_ifWanted (h : apex ≠ previous) (hsize : 0 < size) {wanted : Bool}
    {heads : List (Arrowhead ℝ)} (hheads : ifWanted wanted terminal apex previous size = .ok heads) :
    ∀ a ∈ heads, a.terminal = terminal ∧ a.IsAlong previous size := by
  cases wanted with
  | false =>
    cases hheads
    exact nofun
  | true =>
    obtain ⟨a, ha, rfl⟩ := Result.map_eq_ok_iff.mp hheads
    intro b hb
    obtain rfl := List.mem_singleton.mp hb
    exact ⟨congrArg Prod.fst (mark_of_pointingFrom ha), isAlong_of_pointingFrom h hsize ha⟩

/-- The arrowheads at the start of a path come before those at its end. -/
theorem ofPath_eq_append {points : List (Point ℝ)} {first second last : Point ℝ}
    {ends : Arrowheads} {atStart atFinish : List (Arrowhead ℝ)}
    (hstart : [first, second] <+: points) (hfinish : [previous, last] <:+ points)
    (hatStart : ifWanted ends.atStart .start first second size = .ok atStart)
    (hatFinish : ifWanted ends.atFinish .finish last previous size = .ok atFinish) :
    ofPath points ends size = .ok (atStart ++ atFinish) := by
  obtain ⟨rest, hpoints⟩ := hstart
  obtain ⟨front, hreverse⟩ := List.reverse_prefix.mpr hfinish
  unfold ofPath
  rw [← hreverse, ← hpoints]
  exact Result.bind_eq_ok_iff.mpr ⟨atStart, hatStart,
    Result.bind_eq_ok_iff.mpr ⟨atFinish, hatFinish, rfl⟩⟩

/-- A path whose ends have a direction carries the arrowheads that are asked for, the one at its
start first, and each is an equilateral triangle along the segment at its end of the path. -/
theorem exists_equilateral {points : List (Point ℝ)} {first second last : Point ℝ}
    (hstart : [first, second] <+: points) (hfinish : [previous, last] <:+ points)
    (hfirst : first ≠ second) (hlast : last ≠ previous) (hsize : 0 < size) (ends : Arrowheads) :
    ∃ heads, ofPath points ends size = .ok heads ∧ heads.map mark = ends.marks first last ∧
      ∀ a ∈ heads, a.IsAlong (match a.terminal with | .start => second | .finish => previous)
        size := by
  obtain ⟨atStart, hatStart⟩ := exists_ifWanted ends.atStart .start hfirst size
  obtain ⟨atFinish, hatFinish⟩ := exists_ifWanted ends.atFinish .finish hlast size
  have hpath := ofPath_eq_append hstart hfinish hatStart hatFinish
  refine ⟨_, hpath, ?marks, fun a ha => ?triangle⟩
  case marks =>
    have hlength : 2 ≤ points.length := hstart.length_le
    obtain ⟨rest, rfl⟩ := hstart
    obtain ⟨front, hfront⟩ := hfinish
    have hend : ([first, second] ++ rest).getLast? = some last := by
      rw [← hfront, List.getLast?_append_cons]
      rfl
    rw [map_mark_of_ofPath hpath rfl hend, if_pos hlength]
  case triangle =>
    rcases List.mem_append.mp ha with ha | ha
    · obtain ⟨hterminal, halong⟩ := forall_isAlong_of_ifWanted hfirst hsize hatStart a ha
      rwa [hterminal]
    · obtain ⟨hterminal, halong⟩ := forall_isAlong_of_ifWanted hlast hsize hatFinish a ha
      rwa [hterminal]

/-- On a path of one segment its end is the neighbor of its start. -/
theorem exists_equilateral_segment :
    ∃ a b : Arrowhead ℝ, ofPath [⟨0, 0⟩, ⟨3, 4⟩] .both 10 = .ok [a, b] ∧
      a.mark = (.start, ⟨0, 0⟩) ∧ a.IsAlong ⟨3, 4⟩ 10 ∧
      b.mark = (.finish, ⟨3, 4⟩) ∧ b.IsAlong ⟨0, 0⟩ 10 := by
  have hne : (⟨0, 0⟩ : Point ℝ) ≠ ⟨3, 4⟩ := by
    rw [ne_eq, Point.mk.injEq]
    norm_num
  have hsize : (0 : ℝ) < 10 := by norm_num
  obtain ⟨heads, hheads, hmarks, halong⟩ :=
    exists_equilateral List.prefix_rfl List.suffix_rfl hne hne.symm hsize .both
  obtain ⟨a, rest, rfl, ha, hrest⟩ := List.map_eq_cons_iff.mp hmarks
  obtain ⟨b, rfl, hb⟩ := List.map_eq_singleton_iff.mp hrest
  have halong_a := halong a (.head _)
  have halong_b := halong b (.tail _ (.head _))
  rw [show a.terminal = .start from congrArg Prod.fst ha] at halong_a
  rw [show b.terminal = .finish from congrArg Prod.fst hb] at halong_b
  exact ⟨a, b, hheads, ha, halong_a, hb, halong_b⟩

end Arrowhead
end FlowGrid
