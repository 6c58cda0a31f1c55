import FlowGrid.Proofs.Lattice.Detour
import FlowGrid.Proofs.Lattice.Optimal

/-! Routes between sides of cells. There always is one. As no walk has to be longer than the
distance by more than two steps, the length can never outweigh a turn, however large the
grid is: the route found turns least often, is the shortest of those that turn no more
often, and does not meet itself. -/

namespace FlowGrid.Lattice

/-! ### Closed walks -/

/-- Every step changes the parity of the sum of the coordinates. -/
theorem Vertex.length_mod_two {steps : List Heading} (v : Vertex)
    (hu : ∀ h ∈ steps, h ∈ Heading.steps) :
    ((v.after steps).x + (v.after steps).y - v.x - v.y) % 2 = (steps.length : Int) % 2 := by
  have hodd : ∀ h ∈ Heading.steps, (h.dx + h.dy) % 2 = 1 := by decide
  induction steps generalizing v with
  | nil =>
    simp only [after, List.length_nil]
    omega
  | cons h steps ih =>
    have hi := ih (v.move h) (fun k hk => hu k (.tail _ hk))
    have hm := hodd h (hu h (.head _))
    simp only [after, List.length_cons, move] at hi ⊢
    omega

/-- A walk that comes back to its start without doubling back has at least four steps. -/
theorem Vertex.four_le_length {v : Vertex} {steps : List Heading} {h : Heading}
    (hu : ∀ h ∈ steps, h ∈ Heading.steps) (hf : h.Forward steps) (hne : steps ≠ [])
    (hback : v.after steps = v) : 4 ≤ steps.length := by
  have hparity := v.length_mod_two hu
  rw [hback] at hparity
  match steps with
  | [] => exact absurd rfl hne
  | [k] =>
    simp only [List.length_singleton] at hparity
    omega
  | [k, l] =>
    -- two steps come back only if the second reverses the first
    refine absurd ?_ hf.2.1
    cases v
    cases k
    cases l
    simp only [after, move, mk.injEq, Heading.reverse, Heading.mk.injEq] at hback ⊢
    omega
  | [k, l, m] =>
    simp only [List.length_cons, List.length_nil] at hparity
    omega
  | _ :: _ :: _ :: _ :: _ =>
    simp only [List.length_cons]
    omega

/-- A walk that meets a vertex leads to it by its first steps. -/
theorem Vertex.exists_split_of_mem_trace {v w : Vertex} {steps : List Heading}
    (hw : w ∈ v.trace steps) : ∃ a b, steps = a ++ b ∧ v.after a = w := by
  induction steps generalizing v with
  | nil =>
    obtain rfl := List.mem_singleton.mp hw
    exact ⟨[], [], rfl, rfl⟩
  | cons h steps ih =>
    rcases List.mem_cons.mp hw with rfl | hw
    · exact ⟨[], h :: steps, rfl, rfl⟩
    · obtain ⟨a, b, rfl, ha⟩ := ih hw
      exact ⟨h :: a, b, rfl, ha⟩

/-- A walk that meets a vertex twice has a part that comes back to it. -/
theorem Vertex.exists_loop_of_not_nodup {v : Vertex} {steps : List Heading}
    (hn : ¬ (v.trace steps).Nodup) :
    ∃ a l b, steps = a ++ (l ++ b) ∧ l ≠ [] ∧ (v.after a).after l = v.after a := by
  induction steps generalizing v with
  | nil => exact absurd (List.pairwise_singleton _ v) hn
  | cons h steps ih =>
    have htrace : v.trace (h :: steps) = v :: (v.move h).trace steps := rfl
    rw [htrace, List.nodup_cons] at hn
    by_cases hv : v ∈ (v.move h).trace steps
    · obtain ⟨l, b, rfl, hl⟩ := exists_split_of_mem_trace hv
      exact ⟨[], h :: l, b, rfl, List.cons_ne_nil _ _, hl⟩
    · obtain ⟨a, l, b, rfl, hl, hback⟩ := ih (fun hd => hn ⟨hv, hd⟩)
      exact ⟨h :: a, l, b, rfl, hl, hback⟩

namespace Query

variable {q : Query} {steps : List Heading}

theorem IsWalk.distance_le (hw : q.IsWalk steps) : q.start.distance q.goal ≤ steps.length := by
  have := q.start.distance_after_le hw.unit
  rwa [hw.arrives] at this

/-- A walk that is at most three steps longer than the distance meets no vertex twice. -/
theorem IsWalk.nodup_trace (hw : q.IsWalk steps)
    (hl : steps.length ≤ q.start.distance q.goal + 3) : (q.start.trace steps).Nodup := by
  refine Decidable.byContradiction fun hn => ?_
  obtain ⟨a, l, b, rfl, hne, hback⟩ := Vertex.exists_loop_of_not_nodup hn
  have hu := hw.unit
  have hf := hw.forward
  have harrives := hw.arrives
  simp only [List.append_assoc, Heading.forward_append] at hf
  rw [Vertex.after_append, Vertex.after_append, hback] at harrives
  have hloop := Vertex.four_le_length (fun h hh => hu h (by simp [hh])) hf.2.1 hne hback
  have hfirst : q.start.distance (q.start.after a) ≤ a.length :=
    q.start.distance_after_le fun h hh => hu h (by simp [hh])
  have hlast : (q.start.after a).distance ((q.start.after a).after b) ≤ b.length :=
    (q.start.after a).distance_after_le fun h hh => hu h (by simp [hh])
  have htriangle := q.start.distance_triangle (q.start.after a) q.goal
  rw [harrives] at hlast
  simp only [List.length_append] at hl
  omega

/-! ### Best walks between sides -/

theorem BetweenSides.exists_best (hq : q.BetweenSides) :
    ∃ steps, q.route = .ok (q.start.trace steps) ∧ q.IsWalk steps ∧
      ∀ other, q.IsWalk other → q.cost steps ≤ q.cost other := by
  obtain ⟨_, hs, _⟩ := hq.exists_lane_walk
  obtain ⟨walk, hr⟩ := exists_route_of_isWalk hs
  obtain ⟨steps, rfl, hbest⟩ := isBest_of_route hr
  exact ⟨steps, hr, hbest⟩

/-- No walk turns less often than the cheapest one. -/
theorem BetweenSides.turns_le (hq : q.BetweenSides) (hw : q.IsWalk steps)
    (hbest : ∀ other, q.IsWalk other → q.cost steps ≤ q.cost other) {other : List Heading}
    (ho : q.IsWalk other) : q.turns steps ≤ q.turns other := by
  obtain ⟨short, hs, ht, hl⟩ := hq.exists_short ho
  have hc := hbest short hs
  have hd := hw.distance_le
  simp only [cost, turnCost] at hc
  omega

theorem BetweenSides.turns_le_four (hq : q.BetweenSides) (hw : q.IsWalk steps)
    (hbest : ∀ other, q.IsWalk other → q.cost steps ≤ q.cost other) : q.turns steps ≤ 4 := by
  obtain ⟨lane, hs, _, ht⟩ := hq.exists_lane_walk
  exact Nat.le_trans (hq.turns_le hw hbest hs) ht

theorem BetweenSides.length_le (hq : q.BetweenSides) (hw : q.IsWalk steps)
    (hbest : ∀ other, q.IsWalk other → q.cost steps ≤ q.cost other) :
    steps.length ≤ q.start.distance q.goal + 2 := by
  obtain ⟨short, hs, ht, hl⟩ := hq.exists_short hw
  have hc := hbest short hs
  simp only [cost, turnCost] at hc
  omega

/-! ### Sides of cells -/

end Query

theorem Heading.ofSide_mem_steps (side : Side) : ofSide side ∈ steps := by
  cases side <;> decide

theorem Heading.reverse_mem_steps {h : Heading} (hh : h ∈ steps) : h.reverse ∈ steps := by
  revert h
  decide

theorem Heading.ofSide_injective {side side' : Side} (h : ofSide side = ofSide side') :
    side = side' := by
  revert h
  cases side <;> cases side' <;> decide

theorem Vertex.along_ofCell_mod_two (row col : Int) (a : Axis) :
    (ofCell row col).along a % 2 = 1 := by
  cases a <;> simp only [along, ofCell] <;> omega

/-- The vertex outside a side lies in the lane along it. -/
theorem Vertex.stub_lane (row col : Int) (side : Side) :
    (stub row col side).along (Heading.ofSide side).axis % 2 = 0 := by
  have hc := along_ofCell_mod_two row col (Heading.ofSide side).axis
  have hh := Heading.natAbs_along_axis (Heading.ofSide_mem_steps side)
  rw [stub, along_move]
  omega

/-- The vertex outside a side lies at the middle of it. -/
theorem Vertex.stub_middle (row col : Int) (side : Side) :
    (stub row col side).along (Heading.ofSide side).axis.other % 2 = 1 := by
  rw [stub, along_move, Heading.along_axis_other (Heading.ofSide_mem_steps side), Int.add_zero]
  exact along_ofCell_mod_two row col _

namespace Query

theorem within_stub {q : Query} {row col : Int} (h : q.grid.inBounds row col = true)
    (side : Side) : q.Within (.stub row col side) := by
  rw [Grid.inBounds_iff] at h
  rintro (_ | _) <;> cases side <;>
    simp only [Vertex.along, Vertex.stub, Vertex.ofCell, Vertex.move, Heading.ofSide, Side.dx,
      Side.dy, limit] <;>
    omega

/-- A query between different sides of cells has its ends at the middle of these sides. -/
theorem betweenSides_between {grid : Grid Nat} {row col row' col' : Int} {side side' : Side}
    (h : grid.inBounds row col = true) (h' : grid.inBounds row' col' = true)
    (hne : (row, col, side) ≠ (row', col', side')) :
    (between grid row col side row' col' side').BetweenSides where
  start_unit := Heading.ofSide_mem_steps side
  goal_unit := Heading.reverse_mem_steps (Heading.ofSide_mem_steps side')
  start_within := within_stub h side
  goal_within := within_stub h' side'
  start_lane := Vertex.stub_lane row col side
  start_middle := Vertex.stub_middle row col side
  goal_lane := by
    simp only [between, Heading.axis_reverse (Heading.ofSide_mem_steps side')]
    exact Vertex.stub_lane row' col' side'
  goal_middle := by
    simp only [between, Heading.axis_reverse (Heading.ofSide_mem_steps side')]
    exact Vertex.stub_middle row' col' side'
  apart := by
    intro hs hr
    have hside := congrArg Heading.reverse hr
    simp only [between, Heading.reverse_reverse] at hs hside
    obtain rfl := Heading.ofSide_injective hside
    simp only [Vertex.stub, Vertex.move, Vertex.ofCell, Vertex.mk.injEq] at hs
    apply hne
    rw [show row = row' by omega, show col = col' by omega]

/-- Between two different sides of cells there always is a route, whatever cells are occupied: a
walk over free vertices that answers the query. It turns at most four times, has at most two steps
more than the distance of its ends, and meets no vertex twice. -/
theorem exists_route_between (grid : Grid Nat) (row col : Int) (side : Side) (row' col' : Int)
    (side' : Side) (h : grid.inBounds row col = true) (h' : grid.inBounds row' col' = true)
    (hne : (row, col, side) ≠ (row', col', side')) :
    ∃ steps, (between grid row col side row' col' side').route =
        .ok ((Vertex.stub row col side).trace steps) ∧
      (between grid row col side row' col' side').IsWalk steps ∧
      (between grid row col side row' col' side').turns steps ≤ 4 ∧
      steps.length ≤ (Vertex.stub row col side).distance (.stub row' col' side') + 2 ∧
      ((Vertex.stub row col side).trace steps).Nodup := by
  have hq := betweenSides_between h h' hne
  obtain ⟨steps, hr, hw, hbest⟩ := hq.exists_best
  have hl := hq.length_le hw hbest
  exact ⟨steps, hr, hw, hq.turns_le_four hw hbest, hl, hw.nodup_trace (by omega)⟩

/-- From the right side of the first of three occupied cells in a row to the left side of the
last one. -/
theorem exists_route_between_past_neighbor :
    let grid : Grid Nat := ⟨1, 3, .ofList [((0, 0), 0), ((0, 1), 1), ((0, 2), 2)]⟩
    (grid.inBounds 0 0 = true ∧ grid.inBounds 0 2 = true ∧
      ((0 : Int), (0 : Int), Side.east) ≠ (0, 2, .west)) ∧
    ∃ steps, (between grid 0 0 .east 0 2 .west).route =
        .ok ((Vertex.stub 0 0 .east).trace steps) ∧
      (between grid 0 0 .east 0 2 .west).IsWalk steps ∧
      (between grid 0 0 .east 0 2 .west).turns steps ≤ 4 ∧
      steps.length ≤ (Vertex.stub 0 0 .east).distance (.stub 0 2 .west) + 2 ∧
      ((Vertex.stub 0 0 .east).trace steps).Nodup :=
  ⟨⟨rfl, rfl, by decide⟩, exists_route_between _ 0 0 .east 0 2 .west rfl rfl (by decide)⟩

/-- The route between two different sides of cells turns least often of all walks that answer
its query, and is the shortest of those that turn as often, on grids of any size. -/
theorem route_fewest_turns (grid : Grid Nat) (row col : Int) (side : Side) (row' col' : Int)
    (side' : Side) (h : grid.inBounds row col = true) (h' : grid.inBounds row' col' = true)
    (hne : (row, col, side) ≠ (row', col', side')) :
    ∃ steps, (between grid row col side row' col' side').route =
        .ok ((Vertex.stub row col side).trace steps) ∧
      (between grid row col side row' col' side').IsWalk steps ∧
      ∀ other, (between grid row col side row' col' side').IsWalk other →
        (between grid row col side row' col' side').turns steps ≤
          (between grid row col side row' col' side').turns other ∧
        ((between grid row col side row' col' side').turns other =
            (between grid row col side row' col' side').turns steps →
          steps.length ≤ other.length) := by
  have hq := betweenSides_between h h' hne
  obtain ⟨steps, hr, hw, hbest⟩ := hq.exists_best
  refine ⟨steps, hr, hw, fun other ho => ⟨hq.turns_le hw hbest ho, fun hsame => ?_⟩⟩
  have hc := hbest other ho
  rw [cost, cost, hsame] at hc
  omega

/-- Between two sides that face the same way, with a grid wider than a turn can cost. -/
theorem route_fewest_turns_of_far_sides :
    let grid : Grid Nat := ⟨1, 20000, .ofList [((0, 0), 0), ((0, 19999), 1)]⟩
    (grid.inBounds 0 0 = true ∧ grid.inBounds 0 19999 = true ∧
      ((0 : Int), (0 : Int), Side.north) ≠ (0, 19999, .north)) ∧
    ∃ steps, (between grid 0 0 .north 0 19999 .north).route =
        .ok ((Vertex.stub 0 0 .north).trace steps) ∧
      (between grid 0 0 .north 0 19999 .north).IsWalk steps ∧
      ∀ other, (between grid 0 0 .north 0 19999 .north).IsWalk other →
        (between grid 0 0 .north 0 19999 .north).turns steps ≤
          (between grid 0 0 .north 0 19999 .north).turns other ∧
        ((between grid 0 0 .north 0 19999 .north).turns other =
            (between grid 0 0 .north 0 19999 .north).turns steps →
          steps.length ≤ other.length) :=
  ⟨⟨rfl, rfl, by decide⟩, route_fewest_turns _ 0 0 .north 0 19999 .north rfl rfl (by decide)⟩

end Query
end FlowGrid.Lattice
