import FlowGrid.Proofs.Lattice.Axis

/-! Walks through the lanes. Between two sides of cells there is always a walk that keeps to
the lanes, with at most four turns and at most two steps more than it has to have. A walk
with fewer turns is as short as possible, or it goes out and comes back, and then the way
back and forth can be left out. So every walk has a walk beside it that turns no more
often and is at most two steps longer than the distance. -/

namespace FlowGrid.Lattice

/-! ### Distances -/

def Vertex.distance (v w : Vertex) : Nat := (w.x - v.x).natAbs + (w.y - v.y).natAbs

theorem Vertex.distance_eq (v w : Vertex) (a : Axis) :
    v.distance w =
      (w.along a - v.along a).natAbs + (w.along a.other - v.along a.other).natAbs := by
  cases a <;> simp only [distance, along, Axis.other]
  omega

theorem Vertex.distance_triangle (u v w : Vertex) :
    u.distance w ≤ u.distance v + v.distance w := by
  simp only [distance]
  omega

/-- No walk is shorter than the distance of its ends. -/
theorem Vertex.distance_after_le {steps : List Heading} (v : Vertex)
    (hu : ∀ h ∈ steps, h ∈ Heading.steps) : v.distance (v.after steps) ≤ steps.length := by
  have hstep : ∀ h ∈ Heading.steps, h.dx.natAbs + h.dy.natAbs = 1 := by decide
  induction steps generalizing v with
  | nil => simp [after, distance]
  | cons h steps ih =>
    have hi := ih (v.move h) (fun k hk => hu k (.tail _ hk))
    have hm := hstep h (hu h (.head _))
    have ht := distance_triangle v (v.move h) ((v.move h).after steps)
    simp only [distance, move] at hi ht ⊢
    simp only [after, List.length_cons, move] at hi ht ⊢
    omega

namespace Query

/-- The query asks for a route from outside a side of a cell to outside a side of a cell: its
ends lie in lanes, at the middle of a side, and their headings cross these lanes. -/
structure BetweenSides (q : Query) : Prop where
  start_unit : q.startHeading ∈ Heading.steps
  goal_unit : q.goalHeading ∈ Heading.steps
  start_within : q.Within q.start
  goal_within : q.Within q.goal
  start_lane : q.start.along q.startHeading.axis % 2 = 0
  start_middle : q.start.along q.startHeading.axis.other % 2 = 1
  goal_lane : q.goal.along q.goalHeading.axis % 2 = 0
  goal_middle : q.goal.along q.goalHeading.axis.other % 2 = 1
  apart : q.start = q.goal → q.goalHeading ≠ q.startHeading.reverse

variable {q : Query}

theorem limit_even (q : Query) (a : Axis) : q.limit a % 2 = 0 := by
  cases a <;> simp only [limit] <;> omega

/-- A vertex that takes its part along one axis from `v` and along the other one from `w`. -/
theorem Within.corner {u v w : Vertex} (hv : q.Within v) (hw : q.Within w) (a : Axis)
    (h : u.along a = v.along a) (k : u.along a.other = w.along a.other) : q.Within u := by
  intro b
  rcases Axis.eq_or_eq_other a b with rfl | rfl
  · exact h ▸ hv b
  · exact k ▸ hw a.other

/-! ### Walks in lanes only -/

/-- Between crossing headings, along the lane of the start and then along that of the goal. -/
theorem BetweenSides.exists_corner (hq : q.BetweenSides)
    (hc : q.goalHeading.axis = q.startHeading.axis.other) :
    ∃ steps, q.IsWalk steps ∧ steps.length ≤ q.start.distance q.goal + 2 ∧ q.turns steps ≤ 3 := by
  obtain ⟨i, hi, hstart⟩ := Heading.eq_toward_of_mem_steps hq.start_unit
  obtain ⟨j, hj, hgoal⟩ := Heading.eq_toward_of_mem_steps hq.goal_unit
  have hlane := hq.start_lane
  have hmiddle := hq.start_middle
  have hlane' := hq.goal_lane
  have hmiddle' := hq.goal_middle
  rw [hc] at hgoal hlane' hmiddle'
  rw [Axis.other_other] at hmiddle'
  generalize q.startHeading.axis = a at *
  obtain ⟨v, hva, hvo⟩ := Vertex.exists_along a (q.start.along a) (q.goal.along a.other)
  have hv : q.Within v := hq.start_within.corner hq.goal_within a hva hvo
  have hd : v.along a.other - q.start.along a.other ≠ 0 := by omega
  have he : q.goal.along a - v.along a ≠ 0 := by omega
  refine ⟨a.other.legTo q.start v ++ a.legTo v q.goal, isWalk_iff.mpr ⟨?_, ?_⟩, ?_, ?_⟩
  · apply Passes.append (hq.start_within.passes_legTo hv ?_ ?_)
    · exact hv.passes_legTo hq.goal_within hvo.symm (by omega)
    · rwa [Axis.other_other]
    · rwa [Axis.other_other]
  · rw [Axis.legTo, Axis.legTo, List.append_assoc, Heading.forward_leg_append _ _ hd,
      Heading.forward_leg_append _ _ he, hstart, hgoal]
    simp only [Axis.reverse_toward, Heading.Forward]
    exact ⟨(a.toward_ne_toward_other _ (by omega)).symm, a.toward_ne_toward_other _ he,
      (a.toward_ne_toward_other j (by omega)).symm, trivial⟩
  · rw [List.length_append, Axis.legTo, Axis.legTo, Axis.length_leg, Axis.length_leg,
      Vertex.distance_eq _ _ a]
    omega
  · rw [turns, Axis.legTo, Axis.legTo, List.append_assoc, Heading.turns_leg_append _ _ hd,
      Heading.turns_leg_append _ _ he]
    simp only [Heading.turns]
    split <;> split <;> split <;> omega

/-- Between headings along one axis, along a lane that both ends lie in. -/
theorem BetweenSides.exists_across (hq : q.BetweenSides)
    (hc : q.goalHeading.axis = q.startHeading.axis)
    (hlevel : q.goal.along q.startHeading.axis = q.start.along q.startHeading.axis)
    (hne : q.goal.along q.startHeading.axis.other ≠ q.start.along q.startHeading.axis.other) :
    ∃ steps, q.IsWalk steps ∧ steps.length ≤ q.start.distance q.goal + 2 ∧ q.turns steps ≤ 4 := by
  obtain ⟨i, hi, hstart⟩ := Heading.eq_toward_of_mem_steps hq.start_unit
  obtain ⟨j, hj, hgoal⟩ := Heading.eq_toward_of_mem_steps hq.goal_unit
  have hlane := hq.start_lane
  rw [hc] at hgoal
  generalize q.startHeading.axis = a at *
  have hd : q.goal.along a.other - q.start.along a.other ≠ 0 := by omega
  refine ⟨a.other.legTo q.start q.goal, isWalk_iff.mpr ⟨?_, ?_⟩, ?_, ?_⟩
  · apply hq.start_within.passes_legTo hq.goal_within
    · rwa [Axis.other_other]
    · rwa [Axis.other_other]
  · rw [Axis.legTo, Heading.forward_leg_append _ _ hd, hstart, hgoal]
    simp only [Axis.reverse_toward, Heading.Forward]
    exact ⟨(a.toward_ne_toward_other _ (by omega)).symm,
      a.toward_ne_toward_other _ (by omega), trivial⟩
  · rw [Axis.legTo, Axis.length_leg, Vertex.distance_eq _ _ a]
    omega
  · rw [turns, Axis.legTo, Heading.turns_leg_append _ _ hd]
    simp only [Heading.turns]
    split <;> split <;> omega

/-- Next to the start, in its lane, a vertex where a lane crosses, at most one step farther
from the goal along this lane. -/
theorem BetweenSides.exists_beside (hq : q.BetweenSides) :
    ∃ v, q.Within v ∧ v.along q.startHeading.axis = q.start.along q.startHeading.axis ∧
      (v.along q.startHeading.axis.other - q.start.along q.startHeading.axis.other).natAbs = 1 ∧
      (q.goal.along q.startHeading.axis.other - v.along q.startHeading.axis.other).natAbs ≤
        (q.goal.along q.startHeading.axis.other -
          q.start.along q.startHeading.axis.other).natAbs + 1 := by
  have hmiddle := hq.start_middle
  have hwithin := hq.start_within
  generalize q.startHeading.axis = a at *
  have hl := q.limit_even a.other
  have hs := hwithin a.other
  obtain ⟨v, hva, hvo⟩ := Vertex.exists_along a (q.start.along a) (q.start.along a.other + 1)
  refine ⟨v, fun b => ?_, hva, by omega, by omega⟩
  rcases Axis.eq_or_eq_other a b with rfl | rfl
  · rw [hva]
    exact hwithin b
  · rw [hvo]
    omega

/-- Between headings along one axis, to the lane beside the start, along it to the level of the
goal, and on to the goal. -/
theorem BetweenSides.exists_bypass (hq : q.BetweenSides)
    (hc : q.goalHeading.axis = q.startHeading.axis)
    (hlevel : q.goal.along q.startHeading.axis ≠ q.start.along q.startHeading.axis) :
    ∃ steps, q.IsWalk steps ∧ steps.length ≤ q.start.distance q.goal + 2 ∧ q.turns steps ≤ 4 := by
  obtain ⟨i, hi, hstart⟩ := Heading.eq_toward_of_mem_steps hq.start_unit
  obtain ⟨j, hj, hgoal⟩ := Heading.eq_toward_of_mem_steps hq.goal_unit
  obtain ⟨v, hv, hva, hvo, hnear⟩ := hq.exists_beside
  have hlane := hq.start_lane
  have hmiddle := hq.start_middle
  have hlane' := hq.goal_lane
  have hmiddle' := hq.goal_middle
  rw [hc] at hgoal hlane' hmiddle'
  generalize q.startHeading.axis = a at *
  obtain ⟨w, hwa, hwo⟩ := Vertex.exists_along a (q.goal.along a) (v.along a.other)
  have hw : q.Within w := hq.goal_within.corner hv a hwa hwo
  have hd : v.along a.other - q.start.along a.other ≠ 0 := by omega
  have hm : w.along a - v.along a ≠ 0 := by omega
  have hd' : q.goal.along a.other - w.along a.other ≠ 0 := by omega
  refine ⟨a.other.legTo q.start v ++ (a.legTo v w ++ a.other.legTo w q.goal),
    isWalk_iff.mpr ⟨?_, ?_⟩, ?_, ?_⟩
  · apply Passes.append (hq.start_within.passes_legTo hv ?_ ?_)
    · apply Passes.append (hv.passes_legTo hw hwo (by omega))
      apply hw.passes_legTo hq.goal_within
      · rw [Axis.other_other, hwa]
      · rw [Axis.other_other, hwa, hlane']
    · rwa [Axis.other_other]
    · rwa [Axis.other_other]
  · rw [Axis.legTo, Axis.legTo, Axis.legTo, List.append_assoc, List.append_assoc,
      Heading.forward_leg_append _ _ hd, Heading.forward_leg_append _ _ hm,
      Heading.forward_leg_append _ _ hd', hstart, hgoal]
    simp only [Axis.reverse_toward, Heading.Forward]
    exact ⟨(a.toward_ne_toward_other _ (by omega)).symm, a.toward_ne_toward_other _ hm,
      (a.toward_ne_toward_other _ (by omega)).symm, a.toward_ne_toward_other _ (by omega),
      trivial⟩
  · rw [List.length_append, List.length_append, Axis.legTo, Axis.legTo, Axis.legTo,
      Axis.length_leg, Axis.length_leg, Axis.length_leg, Vertex.distance_eq _ _ a]
    omega
  · rw [turns, Axis.legTo, Axis.legTo, Axis.legTo, List.append_assoc, List.append_assoc,
      Heading.turns_leg_append _ _ hd, Heading.turns_leg_append _ _ hm,
      Heading.turns_leg_append _ _ hd']
    simp only [Heading.turns]
    split <;> split <;> split <;> split <;> omega

/-- There is always a walk of at most four turns that is at most two steps longer than the
distance. -/
theorem BetweenSides.exists_lane_walk (hq : q.BetweenSides) :
    ∃ steps, q.IsWalk steps ∧ steps.length ≤ q.start.distance q.goal + 2 ∧ q.turns steps ≤ 4 := by
  rcases Axis.eq_or_eq_other q.startHeading.axis q.goalHeading.axis with hc | hc
  · by_cases hlevel : q.goal.along q.startHeading.axis = q.start.along q.startHeading.axis
    · by_cases hsame :
          q.goal.along q.startHeading.axis.other = q.start.along q.startHeading.axis.other
      · -- the goal is the start, and the headings are not opposite
        have heq := (Vertex.ext_along _ hlevel hsame).symm
        refine ⟨[], isWalk_iff.mpr ⟨⟨nofun, nofun, heq⟩, hq.apart heq, trivial⟩, ?_, ?_⟩
        · exact Nat.zero_le _
        · simp only [turns, List.nil_append, Heading.turns]
          split <;> omega
      · exact hq.exists_across hc hlevel hsame
    · exact hq.exists_bypass hc hlevel
  · obtain ⟨steps, hw, hl, ht⟩ := hq.exists_corner hc
    exact ⟨steps, hw, hl, by omega⟩

end Query

/-! ### Walks of few turns -/

namespace Heading

theorem natAbs_along_axis {h : Heading} (hh : h ∈ steps) : (h.along h.axis).natAbs = 1 := by
  revert h
  decide

theorem along_axis_eq {h : Heading} (hh : h ∈ steps) : h.along h.axis = 1 ∨ h.along h.axis = -1 := by
  have := natAbs_along_axis hh
  omega

theorem along_axis_other {h : Heading} (hh : h ∈ steps) : h.along h.axis.other = 0 := by
  revert h
  decide

theorem along_reverse (h : Heading) (a : Axis) : h.reverse.along a = -h.along a := by
  cases a <;> rfl

theorem axis_reverse {h : Heading} (hh : h ∈ steps) : h.reverse.axis = h.axis := by
  revert h
  decide

theorem ne_reverse_of_axis {h p : Heading} (hh : h ∈ steps) (hc : p.axis = h.axis.other) :
    p ≠ h.reverse := by
  rintro rfl
  rw [axis_reverse hh] at hc
  exact h.axis.ne_other hc

theorem eq_replicate_of_turns_eq_zero {h : Heading} {l : List Heading} (ht : h.turns l = 0) :
    l = List.replicate l.length h := by
  induction l with
  | nil => rfl
  | cons k l ih =>
    rw [turns] at ht
    by_cases hk : k = h
    · subst hk
      rw [if_pos rfl, Nat.zero_add] at ht
      exact congrArg (k :: ·) (ih ht)
    · rw [if_neg hk] at ht
      omega

/-- A list that turns starts with a run of headings that are kept, followed by a turn. -/
theorem exists_run_of_turns {h : Heading} {l : List Heading} {n : Nat} (ht : h.turns l = n + 1) :
    ∃ m p rest, l = List.replicate m h ++ p :: rest ∧ p ≠ h ∧ p.turns rest = n := by
  induction l with
  | nil => cases ht
  | cons k l ih =>
    rw [turns] at ht
    by_cases hk : k = h
    · subst hk
      rw [if_pos rfl, Nat.zero_add] at ht
      obtain ⟨m, p, rest, rfl, hp⟩ := ih ht
      exact ⟨m + 1, p, rest, rfl, hp⟩
    · rw [if_neg hk] at ht
      exact ⟨0, k, l, rfl, hk, by omega⟩

theorem cons_eq_replicate_append {p : Heading} {l : List Heading} (ht : p.turns l = 0) :
    ∃ r, p :: l = List.replicate r p ++ [p] := by
  refine ⟨l.length, ?_⟩
  rw [← List.replicate_succ', List.replicate_succ, ← eq_replicate_of_turns_eq_zero ht]

/-- A walk of at most two turns, by its runs. -/
theorem runs_of_turns_le_two {h k : Heading} {l : List Heading} (ht : h.turns (l ++ [k]) ≤ 2) :
    (k = h ∧ ∃ m, l = List.replicate m h) ∨
    (h.turns (l ++ [k]) = 1 ∧ ∃ m n, l = List.replicate m h ++ List.replicate n k) ∨
    (h.turns (l ++ [k]) = 2 ∧ ∃ p m n r, p ≠ h ∧ k ≠ p ∧
      l = List.replicate m h ++ (List.replicate (n + 1) p ++ List.replicate r k)) := by
  have hcases : h.turns (l ++ [k]) = 0 ∨ h.turns (l ++ [k]) = 1 ∨ h.turns (l ++ [k]) = 2 := by
    omega
  rcases hcases with h0 | h1 | h2
  · have hr := eq_replicate_of_turns_eq_zero h0
    rw [List.append_eq_replicate_iff] at hr
    exact .inl ⟨List.singleton_inj.mp hr.2.2, _, hr.2.1⟩
  · obtain ⟨m, p, rest, hl, hp, hrest⟩ := exists_run_of_turns h1
    obtain ⟨n, hn⟩ := cons_eq_replicate_append hrest
    rw [hn, ← List.append_assoc] at hl
    obtain ⟨hl, hk⟩ := List.append_inj' hl rfl
    obtain rfl := List.singleton_inj.mp hk
    exact .inr (.inl ⟨h1, m, n, hl⟩)
  · obtain ⟨m, p, rest, hl, hp, hrest⟩ := exists_run_of_turns h2
    obtain ⟨n, s, rest', rfl, hs, hrest'⟩ := exists_run_of_turns hrest
    obtain ⟨r, hr⟩ := cons_eq_replicate_append hrest'
    rw [hr, ← List.cons_append, ← List.replicate_succ, ← List.append_assoc, ← List.append_assoc]
      at hl
    obtain ⟨hl, hk⟩ := List.append_inj' hl rfl
    obtain rfl := List.singleton_inj.mp hk
    exact .inr (.inr ⟨h2, p, m, n, r, hp, hs, by rw [hl, List.append_assoc]⟩)

end Heading

/-- A walk that keeps to one direction along each axis is as short as possible. -/
theorem Vertex.distance_after_runs (v : Vertex) {h p : Heading} (hh : h ∈ Heading.steps)
    (hp : p ∈ Heading.steps) (hc : p.axis = h.axis.other) (m n r : Nat) :
    v.distance (v.after (List.replicate m h ++ (List.replicate n p ++ List.replicate r h))) =
      m + (n + r) := by
  have hi := Heading.natAbs_along_axis hh
  have ho := Heading.along_axis_other hh
  have hj := Heading.natAbs_along_axis hp
  have hpo := Heading.along_axis_other hp
  rw [hc] at hj hpo
  rw [Axis.other_other] at hpo
  rw [distance_eq _ _ h.axis, after_append, after_append]
  simp only [along_after_replicate, ho, hpo, Int.mul_zero, Int.add_zero]
  have hm : v.along h.axis + m * h.along h.axis + r * h.along h.axis - v.along h.axis =
      (m + r : Nat) * h.along h.axis := by
    rw [Int.natCast_add, Int.add_mul]
    omega
  have hn : v.along h.axis.other + n * p.along h.axis.other - v.along h.axis.other =
      (n : Nat) * p.along h.axis.other := by omega
  rw [hm, hn, Int.natAbs_mul, Int.natAbs_mul, hi, hj, Int.natAbs_natCast, Int.natAbs_natCast]
  omega

namespace Query
variable {q : Query}

/-- A run in a lane passes. -/
theorem Within.passes_replicate {v w : Vertex} {p : Heading} {n : Nat} (hp : p ∈ Heading.steps)
    (hv : q.Within v) (hw : q.Within w) (ha : v.after (List.replicate n p) = w)
    (he : v.along p.axis.other % 2 = 0) : q.Passes v (List.replicate n p) w := by
  obtain ⟨d, _, hd⟩ := Heading.eq_toward_of_mem_steps hp
  refine ⟨fun h hh => (List.mem_replicate.mp hh).2 ▸ hp, fun u hu => ?_, ha⟩
  rw [hd] at hu ha
  exact hv.free_of_mem_visits (ha.symm ▸ hw) he hu

/-! ### Walks that go out and come back -/

section OutAndBack
variable {p : Heading} {m n r s : Nat}

theorem along_goal_of_outAndBack (hk : q.goalHeading = q.startHeading.reverse)
    (hw : q.Passes q.start (List.replicate m q.startHeading ++
      (List.replicate n p ++ List.replicate r q.goalHeading)) q.goal) (a : Axis) :
    q.goal.along a = q.start.along a + m * q.startHeading.along a + n * p.along a -
      r * q.startHeading.along a := by
  rw [← hw.arrives]
  simp only [Vertex.after_append, Vertex.along_after_replicate, hk, Heading.along_reverse,
    Int.mul_neg]
  omega

/-- What is left of a walk that goes out farther than it comes back. -/
theorem BetweenSides.passes_out (hq : q.BetweenSides)
    (hk : q.goalHeading = q.startHeading.reverse) (hp : p ∈ Heading.steps)
    (hc : p.axis = q.startHeading.axis.other)
    (hw : q.Passes q.start (List.replicate (s + r) q.startHeading ++
      (List.replicate n p ++ List.replicate r q.goalHeading)) q.goal) :
    q.Passes q.start (List.replicate s q.startHeading ++ List.replicate n p) q.goal := by
  have hho := Heading.along_axis_other hq.start_unit
  have hpa := Heading.along_axis_other hp
  have hlane := hq.goal_lane
  have hga := along_goal_of_outAndBack hk hw q.startHeading.axis
  have hgo := along_goal_of_outAndBack hk hw q.startHeading.axis.other
  rw [hk, Heading.axis_reverse hq.start_unit] at hlane
  rw [hc, Axis.other_other] at hpa
  rw [hpa, Int.mul_zero, Int.natCast_add, Int.add_mul] at hga
  rw [hho, Int.mul_zero, Int.mul_zero] at hgo
  rw [← List.replicate_append_replicate, List.append_assoc] at hw
  have hfirst := (passes_append_iff.mp hw).1
  have hua := Vertex.along_after_replicate q.start s q.startHeading q.startHeading.axis
  have huo := Vertex.along_after_replicate q.start s q.startHeading q.startHeading.axis.other
  generalize q.start.after (List.replicate s q.startHeading) = u at *
  rw [hho, Int.mul_zero, Int.add_zero] at huo
  have hlevel : u.along q.startHeading.axis = q.goal.along q.startHeading.axis := by omega
  have hu : q.Within u := hq.goal_within.corner hq.start_within _ hlevel huo
  refine hfirst.append (hu.passes_replicate hp hq.goal_within ?_ ?_)
  · apply Vertex.ext_along q.startHeading.axis
    · rw [Vertex.along_after_replicate, hpa, Int.mul_zero, Int.add_zero, hlevel]
    · rw [Vertex.along_after_replicate]
      omega
  · rwa [hc, Axis.other_other, hlevel]

/-- What is left of a walk that comes back at least as far as it goes out. -/
theorem BetweenSides.passes_back (hq : q.BetweenSides)
    (hk : q.goalHeading = q.startHeading.reverse) (hp : p ∈ Heading.steps)
    (hc : p.axis = q.startHeading.axis.other)
    (hw : q.Passes q.start (List.replicate m q.startHeading ++
      (List.replicate n p ++ List.replicate (m + s) q.goalHeading)) q.goal) :
    q.Passes q.start (List.replicate n p ++ List.replicate s q.goalHeading) q.goal := by
  have hho := Heading.along_axis_other hq.start_unit
  have hpa := Heading.along_axis_other hp
  have hgo := along_goal_of_outAndBack hk hw q.startHeading.axis.other
  rw [hc, Axis.other_other] at hpa
  rw [hho, Int.mul_zero, Int.mul_zero] at hgo
  rw [← List.replicate_append_replicate, ← List.append_assoc, ← List.append_assoc] at hw
  have hlast := (passes_append_iff.mp hw).2
  have hback : q.start.after (List.replicate m q.startHeading ++ List.replicate n p ++
      List.replicate m q.goalHeading) = q.start.after (List.replicate n p) := by
    apply Vertex.ext_along q.startHeading.axis <;>
      simp only [Vertex.after_append, Vertex.along_after_replicate, hk, Heading.along_reverse,
        Int.mul_neg] <;>
      omega
  rw [hback] at hlast
  have hva := Vertex.along_after_replicate q.start n p q.startHeading.axis
  have hvo := Vertex.along_after_replicate q.start n p q.startHeading.axis.other
  rw [hpa, Int.mul_zero, Int.add_zero] at hva
  have hv : q.Within (q.start.after (List.replicate n p)) :=
    hq.start_within.corner hq.goal_within _ hva (by omega)
  refine (hq.start_within.passes_replicate hp hv rfl ?_).append hlast
  rw [hc, Axis.other_other]
  exact hq.start_lane

/-- Straight on and then across. -/
theorem BetweenSides.exists_out (hq : q.BetweenSides)
    (hk : q.goalHeading = q.startHeading.reverse) (hp : p ∈ Heading.steps)
    (hc : p.axis = q.startHeading.axis.other)
    (hw : q.Passes q.start
      (List.replicate s q.startHeading ++ List.replicate (n + 1) p) q.goal) :
    ∃ steps, q.IsWalk steps ∧ q.turns steps ≤ 2 ∧ steps.length ≤ q.start.distance q.goal := by
  have hh := hq.start_unit
  refine ⟨_, isWalk_iff.mpr ⟨hw, ?_⟩, ?_, ?_⟩
  · rw [List.append_assoc, Heading.forward_replicate_self hh,
      Heading.forward_replicate_append _ hp]
    refine ⟨Heading.ne_reverse_of_axis hh hc, Heading.ne_reverse_of_axis hp ?_, trivial⟩
    rw [hk, Heading.axis_reverse hh, hc, Axis.other_other]
  · rw [turns, List.append_assoc, Heading.turns_replicate_self, Heading.turns_replicate_append]
    simp only [Heading.turns]
    split <;> split <;> omega
  · have hdist := q.start.distance_after_runs hh hp hc s (n + 1) 0
    rw [List.replicate_zero, List.append_nil, hw.arrives] at hdist
    rw [List.length_append, List.length_replicate, List.length_replicate]
    omega

/-- Across and then straight on. -/
theorem BetweenSides.exists_back (hq : q.BetweenSides)
    (hk : q.goalHeading = q.startHeading.reverse) (hp : p ∈ Heading.steps)
    (hc : p.axis = q.startHeading.axis.other)
    (hw : q.Passes q.start
      (List.replicate (n + 1) p ++ List.replicate s q.goalHeading) q.goal) :
    ∃ steps, q.IsWalk steps ∧ q.turns steps ≤ 2 ∧ steps.length ≤ q.start.distance q.goal := by
  have hh := hq.start_unit
  have hka : q.goalHeading.axis = q.startHeading.axis := by rw [hk, Heading.axis_reverse hh]
  refine ⟨_, isWalk_iff.mpr ⟨hw, ?_⟩, ?_, ?_⟩
  · rw [List.append_assoc, Heading.forward_replicate_append _ hp, ← List.replicate_succ',
      ← List.append_nil (List.replicate _ q.goalHeading),
      Heading.forward_replicate_append _ hq.goal_unit]
    refine ⟨Heading.ne_reverse_of_axis hh hc, Heading.ne_reverse_of_axis hp ?_, trivial⟩
    rw [hka, hc, Axis.other_other]
  · rw [turns, List.append_assoc, Heading.turns_replicate_append, ← List.replicate_succ',
      ← List.append_nil (List.replicate _ q.goalHeading), Heading.turns_replicate_append]
    simp only [Heading.turns]
    split <;> split <;> omega
  · have hdist := q.start.distance_after_runs hq.goal_unit hp (hka ▸ hc) 0 (n + 1) s
    rw [List.replicate_zero, List.nil_append, hw.arrives] at hdist
    rw [List.length_append, List.length_replicate, List.length_replicate]
    omega

/-- Where a walk goes out and comes back, the way back and forth can be left out. -/
theorem BetweenSides.exists_shortened (hq : q.BetweenSides)
    (hk : q.goalHeading = q.startHeading.reverse) (hp : p ∈ Heading.steps)
    (hc : p.axis = q.startHeading.axis.other)
    (hw : q.Passes q.start (List.replicate m q.startHeading ++
      (List.replicate (n + 1) p ++ List.replicate r q.goalHeading)) q.goal) :
    ∃ steps, q.IsWalk steps ∧ q.turns steps ≤ 2 ∧ steps.length ≤ q.start.distance q.goal := by
  rcases Nat.le_total r m with hrm | hmr
  · obtain ⟨s, rfl⟩ := Nat.exists_eq_add_of_le' hrm
    exact hq.exists_out hk hp hc (hq.passes_out hk hp hc hw)
  · obtain ⟨s, rfl⟩ := Nat.exists_eq_add_of_le hmr
    exact hq.exists_back hk hp hc (hq.passes_back hk hp hc hw)

end OutAndBack

/-! ### Short walks beside every walk -/

theorem IsWalk.turns_mod_two (hq : q.BetweenSides) {steps : List Heading}
    (hw : q.IsWalk steps) :
    q.turns steps % 2 = if q.goalHeading.axis = q.startHeading.axis then 0 else 1 := by
  refine Heading.turns_mod_two hq.start_unit (fun h hh => ?_) hw.forward
  rcases List.mem_append.mp hh with hh | hh
  · exact hw.unit h hh
  · exact List.mem_singleton.mp hh ▸ hq.goal_unit

/-- A walk of at most two turns is as short as possible, or it goes out and comes back. -/
theorem BetweenSides.length_eq_or_outAndBack (hq : q.BetweenSides) {steps : List Heading}
    (hw : q.IsWalk steps) (hfew : q.turns steps ≤ 2) :
    q.start.distance q.goal = steps.length ∨
    (q.turns steps = 2 ∧ q.goalHeading = q.startHeading.reverse ∧ ∃ p m n r,
      p ∈ Heading.steps ∧ p.axis = q.startHeading.axis.other ∧ steps =
        List.replicate m q.startHeading ++
          (List.replicate (n + 1) p ++ List.replicate r q.goalHeading)) := by
  have hh := hq.start_unit
  have hk := hq.goal_unit
  have hparity := hw.turns_mod_two hq
  rcases Heading.runs_of_turns_le_two hfew with
    ⟨_, m, hl⟩ | ⟨h1, m, n, hl⟩ | ⟨h2, p, m, n, r, hph, hkp, hl⟩
  · have hdist := q.start.distance_after_runs hh (Axis.toward_mem_steps _ Int.one_ne_zero)
      (Heading.axis_toward q.startHeading.axis.other Int.one_ne_zero) m 0 0
    rw [List.replicate_zero, List.replicate_zero, List.append_nil, List.append_nil, ← hl,
      hw.arrives] at hdist
    left
    rw [hdist, hl, List.length_replicate]
    rfl
  · have hc : q.goalHeading.axis = q.startHeading.axis.other := by
      apply (Axis.eq_or_eq_other _ _).resolve_left
      intro hc
      rw [if_pos hc, turns, h1] at hparity
      cases hparity
    have hdist := q.start.distance_after_runs hh hk hc m n 0
    rw [List.replicate_zero, List.append_nil, ← hl, hw.arrives] at hdist
    left
    rw [hdist, hl, List.length_append, List.length_replicate, List.length_replicate]
    rfl
  · have hp : p ∈ Heading.steps := by
      apply hw.unit
      rw [hl, List.replicate_succ]
      exact List.mem_append.mpr (.inr (.head _))
    have hforward := hw.forward
    rw [hl, List.append_assoc, List.append_assoc, Heading.forward_replicate_self hh,
      Heading.forward_replicate_append _ hp] at hforward
    have hpc := Heading.axis_ne_of_ne hh hp hph hforward.1
    have hc : q.goalHeading.axis = q.startHeading.axis := by
      apply (Axis.eq_or_eq_other _ _).resolve_right
      intro hc
      rw [hc, if_neg (Axis.ne_other _).symm, turns, h2] at hparity
      cases hparity
    rcases Heading.eq_or_eq_reverse_of_axis hh hk hc with hsame | hback
    · have hdist := q.start.distance_after_runs hh hp hpc m (n + 1) r
      rw [hsame] at hl
      rw [← hl, hw.arrives] at hdist
      left
      rw [hdist, hl]
      simp only [List.length_append, List.length_replicate]
    · exact .inr ⟨h2, hback, p, m, n, r, hp, hpc, hl⟩

/-- Beside every walk there is one that turns no more often and is at most two steps longer
than the distance. -/
theorem BetweenSides.exists_short (hq : q.BetweenSides) {steps : List Heading}
    (hw : q.IsWalk steps) : ∃ short, q.IsWalk short ∧ q.turns short ≤ q.turns steps ∧
      short.length ≤ q.start.distance q.goal + 2 := by
  have hparity := hw.turns_mod_two hq
  rcases Nat.lt_or_ge 2 (q.turns steps) with hmany | hfew
  · -- a walk between crossing headings turns an odd number of times
    by_cases hc : q.goalHeading.axis = q.startHeading.axis
    · obtain ⟨short, hs, hl, ht⟩ := hq.exists_lane_walk
      rw [if_pos hc] at hparity
      exact ⟨short, hs, by omega, hl⟩
    · obtain ⟨short, hs, hl, ht⟩ :=
        hq.exists_corner ((Axis.eq_or_eq_other _ _).resolve_left hc)
      exact ⟨short, hs, by omega, hl⟩
  · rcases hq.length_eq_or_outAndBack hw hfew with
      hl | ⟨h2, hback, p, m, n, r, hp, hpc, rfl⟩
    · exact ⟨steps, hw, Nat.le_refl _, by omega⟩
    · obtain ⟨short, hs, ht, hlen⟩ := hq.exists_shortened hback hp hpc (isWalk_iff.mp hw).1
      exact ⟨short, hs, by omega, by omega⟩

end Query
end FlowGrid.Lattice
