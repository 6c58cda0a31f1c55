import FlowGrid.Proofs.Lattice.FewestTurns

/-! Walks read backward. The reverse of a walk that answers a query answers the query in which
the ends trade places, over the same vertices and with the same turns. A route and the route of
the reversed query may pass over different vertices, but neither turns more often nor is longer
than the other one. -/

namespace FlowGrid.Lattice

/-! ### Headings -/

namespace Heading

theorem reverse_injective : Function.Injective reverse := fun h k heq => by
  rw [← reverse_reverse h, heq, reverse_reverse]

/-- The steps of a walk taken back, the last one first. -/
def backward (steps : List Heading) : List Heading := (steps.map reverse).reverse

theorem backward_cons (h : Heading) (steps : List Heading) :
    backward (h :: steps) = backward steps ++ [h.reverse] := by
  rw [backward, List.map_cons, List.reverse_cons, backward]

theorem length_backward (steps : List Heading) : (backward steps).length = steps.length := by
  rw [backward, List.length_reverse, List.length_map]

theorem mem_steps_of_mem_backward {l : List Heading} (hu : ∀ h ∈ l, h ∈ steps) :
    ∀ h ∈ backward l, h ∈ steps := by
  intro h hh
  obtain ⟨k, hk, rfl⟩ := List.mem_map.mp (List.mem_reverse.mp hh)
  exact reverse_mem_steps (hu k hk)

/-- A walk taken back turns as often, the turns at its ends included. -/
theorem turns_backward (h g : Heading) (steps : List Heading) :
    g.reverse.turns (backward steps ++ [h.reverse]) = h.turns (steps ++ [g]) := by
  have hone (a b : Heading) : a.reverse.turns [b.reverse] = b.turns [a] := by
    simp only [turns, reverse_injective.eq_iff, eq_comm]
  induction steps generalizing h with
  | nil => exact hone g h
  | cons k steps ih =>
    rw [backward_cons, turns_append, ih, List.getLastD_concat, hone, List.cons_append]
    simp only [turns]
    omega

/-- A walk taken back doubles back nowhere, if the walk does not. -/
theorem forward_backward (h g : Heading) (steps : List Heading) :
    g.reverse.Forward (backward steps ++ [h.reverse]) ↔ h.Forward (steps ++ [g]) := by
  have hone (a b : Heading) : a.reverse.Forward [b.reverse] ↔ b.Forward [a] := by
    simp only [Forward, and_true, reverse_injective.ne_iff]
    exact ne_reverse_comm
  induction steps generalizing h with
  | nil => exact hone g h
  | cons k steps ih =>
    rw [backward_cons, forward_append, List.getLastD_concat, hone, List.cons_append]
    simp only [Forward, and_true, ih]
    exact and_comm

end Heading

/-! ### Vertices -/

namespace Vertex

open Heading (backward)

theorem move_reverse (v : Vertex) (h : Heading) : (v.move h).move h.reverse = v := by
  cases v
  simp only [move, Heading.reverse, mk.injEq]
  omega

theorem after_backward (v : Vertex) (steps : List Heading) :
    (v.after steps).after (backward steps) = v := by
  induction steps generalizing v with
  | nil => rfl
  | cons h steps ih =>
    have hback : (v.after (h :: steps)).after (backward steps) = v.move h := ih (v.move h)
    rw [Heading.backward_cons, after_append, hback]
    exact v.move_reverse h

/-- A walk taken back meets the same vertices, the last one first. -/
theorem trace_backward (v : Vertex) (steps : List Heading) :
    (v.after steps).trace (backward steps) = (v.trace steps).reverse := by
  induction steps generalizing v with
  | nil => rfl
  | cons h steps ih =>
    rw [Heading.backward_cons, trace_concat, after, ih (v.move h), after_backward, move_reverse]
    exact List.reverse_cons.symm

end Vertex

/-! ### Queries -/

namespace Query

variable {q : Query} {steps : List Heading}

/-- The query for a route that takes the way back. -/
def reversed (q : Query) : Query where
  grid := q.grid
  start := q.goal
  startHeading := q.goalHeading.reverse
  goal := q.start
  goalHeading := q.startHeading.reverse

theorem reversed_reversed (q : Query) : q.reversed.reversed = q := by
  simp only [reversed, Heading.reverse_reverse]

theorem reversed_between (grid : Grid Nat) (row col : Int) (side : Side) (row' col' : Int)
    (side' : Side) : (between grid row col side row' col' side').reversed =
      between grid row' col' side' row col side := by
  simp only [reversed, between, Heading.reverse_reverse]

theorem turns_reversed (q : Query) (steps : List Heading) :
    q.reversed.turns (Heading.backward steps) = q.turns steps :=
  Heading.turns_backward q.startHeading q.goalHeading steps

theorem cost_reversed (q : Query) (steps : List Heading) :
    q.reversed.cost (Heading.backward steps) = q.cost steps := by
  rw [cost, cost, turns_reversed, Heading.length_backward]

/-- A walk that answers a query answers the reversed query when it is taken back, provided that
it can come back to its start. -/
theorem IsWalk.reversed (hw : q.IsWalk steps) (hstart : q.Free q.start) :
    q.reversed.IsWalk (Heading.backward steps) where
  unit := Heading.mem_steps_of_mem_backward hw.unit
  free := by
    intro v hv
    have hback := q.start.trace_backward steps
    rw [hw.arrives] at hback
    have hmem : v ∈ q.start.trace steps := by
      rw [← List.mem_reverse, ← hback]
      exact List.mem_cons_of_mem _ hv
    rcases List.mem_cons.mp hmem with rfl | hmem
    · exact hstart
    · exact hw.free v hmem
  arrives := by
    have hback := q.start.after_backward steps
    rwa [hw.arrives] at hback
  forward := (Heading.forward_backward q.startHeading q.goalHeading steps).mpr hw.forward

theorem BetweenSides.free_start (hq : q.BetweenSides) : q.Free q.start :=
  hq.start_within.free hq.start_lane

/-- The cheapest walks to and fro turn equally often and are equally long. -/
theorem BetweenSides.turns_and_length_eq (hq : q.BetweenSides) (hr : q.reversed.BetweenSides)
    (hw : q.IsWalk steps) (hbest : ∀ other, q.IsWalk other → q.cost steps ≤ q.cost other)
    {back : List Heading} (hb : q.reversed.IsWalk back)
    (hbest' : ∀ other, q.reversed.IsWalk other → q.reversed.cost back ≤ q.reversed.cost other) :
    q.reversed.turns back = q.turns steps ∧ back.length = steps.length := by
  have hto : q.reversed.IsWalk (Heading.backward steps) := hw.reversed hq.free_start
  have hfro : q.IsWalk (Heading.backward back) := by
    have := hb.reversed hr.free_start
    rwa [reversed_reversed] at this
  have hturns : q.turns (Heading.backward back) = q.reversed.turns back := by
    have := q.reversed.turns_reversed back
    rwa [reversed_reversed] at this
  have hturn : q.reversed.turns back = q.turns steps := by
    have hle := hr.turns_le hb hbest' hto
    have hge := hq.turns_le hw hbest hfro
    rw [turns_reversed] at hle
    rw [hturns] at hge
    exact Nat.le_antisymm hle hge
  have hle := hbest' _ hto
  have hge := hbest _ hfro
  rw [cost_reversed] at hle
  rw [cost, cost, hturns, Heading.length_backward, hturn] at hge
  rw [cost, cost, hturn] at hle
  exact ⟨hturn, by omega⟩

/-- Between two different sides of cells there are a route and a route back, both of them walks that
answer their queries. They turn equally often, the turns at their ends included, and are equally
long, whatever cells are occupied. -/
theorem route_back (grid : Grid Nat) (row col : Int) (side : Side) (row' col' : Int)
    (side' : Side) (h : grid.inBounds row col = true) (h' : grid.inBounds row' col' = true)
    (hne : (row, col, side) ≠ (row', col', side')) :
    ∃ steps back, (between grid row col side row' col' side').route =
        .ok ((Vertex.stub row col side).trace steps) ∧
      (between grid row' col' side' row col side).route =
        .ok ((Vertex.stub row' col' side').trace back) ∧
      (between grid row col side row' col' side').IsWalk steps ∧
      (between grid row' col' side' row col side).IsWalk back ∧
      (between grid row' col' side' row col side).turns back =
        (between grid row col side row' col' side').turns steps ∧
      back.length = steps.length := by
  have hq := betweenSides_between h h' hne
  have hr := betweenSides_between h' h hne.symm
  obtain ⟨steps, hroute, hw, hbest⟩ := hq.exists_best
  obtain ⟨back, hroute', hb, hbest'⟩ := hr.exists_best
  refine ⟨steps, back, hroute, hroute', hw, hb, ?_⟩
  rw [← reversed_between] at hr hb hbest' ⊢
  exact hq.turns_and_length_eq hr hw hbest hb hbest'

/-- Between the right side of a cell and the lower side of the one that lies below and to the
right of it, with a node in the cell between them. -/
theorem route_back_around_corner :
    let grid : Grid Nat := ⟨2, 2, .ofList [((0, 0), 0), ((0, 1), 1), ((1, 1), 2)]⟩
    (grid.inBounds 0 0 = true ∧ grid.inBounds 1 1 = true ∧
      ((0 : Int), (0 : Int), Side.east) ≠ (1, 1, .south)) ∧
    ∃ steps back, (between grid 0 0 .east 1 1 .south).route =
        .ok ((Vertex.stub 0 0 .east).trace steps) ∧
      (between grid 1 1 .south 0 0 .east).route = .ok ((Vertex.stub 1 1 .south).trace back) ∧
      (between grid 0 0 .east 1 1 .south).IsWalk steps ∧
      (between grid 1 1 .south 0 0 .east).IsWalk back ∧
      (between grid 1 1 .south 0 0 .east).turns back =
        (between grid 0 0 .east 1 1 .south).turns steps ∧
      back.length = steps.length :=
  ⟨⟨rfl, rfl, by decide⟩, route_back _ 0 0 .east 1 1 .south rfl rfl (by decide)⟩

end Query
end FlowGrid.Lattice
