import FlowGrid.Proofs.Chart.Ends
import FlowGrid.Proofs.Exact.StraightRuns

/-! What is simplified in a chart. A link that is no loop of one side is routed from anchor to
anchor by way of the vertices of a walk. With gaps that are not lost in the tolerance its points
lie a step from each other, so its simplified path runs the same way. -/

namespace FlowGrid

open FlowGrid.Lattice FlowGrid.Polyline

/-- The path of the route is what is left of these points: the anchor of its source, the vertices
of a walk, and the anchor of its target. Each of them lies a step from the one before it. -/
structure Route.IsSimplified (m : Metrics ℝ) (source target : Placement ℝ) (route : Route ℝ)
    (start finish : Point ℝ) (walk : List Vertex) : Prop where
  starts : source.node.shape.anchor source.box route.link.sourceSide = .ok start
  ends : target.node.shape.anchor target.box route.link.targetSide = .ok finish
  simplified : route.points = simplify (start :: (walk.map (·.toPoint m) ++ [finish]))
  steps : (start :: (walk.map (·.toPoint m) ++ [finish])).IsChain IsStep

namespace Chart

variable {m : Metrics ℝ} {chart : Chart ℝ}

/-- Every route of the chart but the loops of one side is simplified. -/
def IsSimplified (m : Metrics ℝ) (chart : Chart ℝ) : Prop :=
  ∀ (i : Nat) (source : Placement ℝ), chart.placements[i]? = some source →
    ∀ route ∈ source.routes, ¬ route.link.IsLoop i →
      ∃ target start finish walk, chart.placements[route.link.target]? = some target ∧
        route.IsSimplified m source target start finish walk

theorem isSimplified_of_compile (hm : m.Positive) (hgap : ∀ a, 2 / 10 ^ 9 ≤ m.gap a)
    {text : String} (hc : compile m text = .ok chart) : chart.IsSimplified m := by
  intro i source hi route hr hloop
  obtain ⟨grid, nodes, hs, hn⟩ := exists_seating_of_compile hc
  obtain ⟨target, htarget, hpath⟩ := route_eq hn hi hr
  obtain ⟨hnode, -⟩ := placement_eq hn hi
  obtain ⟨hnode', -⟩ := placement_eq hn htarget
  have hsource := List.mem_of_getElem? hnode
  have htarget' := List.mem_of_getElem? hnode'
  have hne : ¬ (source.node.index = target.node.index ∧
      route.link.sourceSide = route.link.targetSide) := by
    rw [hs.index hnode, hs.index hnode', eq_comm]
    exact hloop
  obtain ⟨steps, hroute, hw, -⟩ :=
    (betweenSides_latticeQuery hs hsource htarget' hne).exists_best
  have hruns := runs_link hm hs hsource htarget' (Metrics.two_mul_tolerance_le hgap) hw
  rw [linkPath_eq hm hne hroute] at hpath
  exact ⟨target, _, _, _, htarget, {
    starts := anchor_eq hm hn hi _
    ends := anchor_eq hm hn htarget _
    simplified := (Except.ok.inj hpath).symm
    steps := hruns.isChain_isStep }⟩

/-- Simplification leaves a polyline of steps that runs the same way and has nothing more to
simplify. What is simplified in a chart are such polylines, unless its gaps are lost in the
tolerance. -/
theorem simplify_steps :
    (∀ points : List (Point ℝ), points.IsChain IsStep →
      Simplifies (simplify points) points ∧ simplify (simplify points) = simplify points) ∧
    ∀ (m : Metrics ℝ) (text : String) (chart : Chart ℝ), m.Positive →
      (∀ a, 2 / 10 ^ 9 ≤ m.gap a) → compile m text = .ok chart → chart.IsSimplified m :=
  ⟨fun _ h => ⟨simplifies_simplify h, simplify_simplify h⟩,
    fun _ _ _ hm hgap hc => isSimplified_of_compile hm hgap hc⟩

/-- A polyline that repeats its start, goes on straight, turns back and bends. -/
def overrun : List (Point ℝ) := [⟨-1, 0⟩, ⟨-1, 0⟩, ⟨0, 0⟩, ⟨1, 0⟩, ⟨0, 0⟩, ⟨0, 1⟩]

theorem isChain_overrun : overrun.IsChain IsStep := by
  have hunit : (Scalar.tolerance : ℝ) ≤ 1 := by norm_num
  have hhorizontal {x x' : ℝ} (h : |x' - x| = 1) : IsStep ⟨x, 0⟩ ⟨x', 0⟩ :=
    .inr ⟨.horizontal, h.symm ▸ hunit, rfl⟩
  have hvertical {y y' : ℝ} (h : |y' - y| = 1) : IsStep ⟨0, y⟩ ⟨0, y'⟩ :=
    .inr ⟨.vertical, h.symm ▸ hunit, rfl⟩
  exact .cons_cons (.inl rfl) (.cons_cons (hhorizontal (by norm_num))
    (.cons_cons (hhorizontal (by norm_num)) (.cons_cons (hhorizontal (by norm_num))
      (.cons_cons (hvertical (by norm_num)) (.singleton _)))))

theorem simplify_steps_overrun :
    let m : Metrics ℝ := ⟨200, 100, 50, 50⟩
    (overrun.IsChain IsStep ∧ Simplifies (simplify overrun) overrun ∧
      simplify (simplify overrun) = simplify overrun) ∧
    ∃ chart, compile m "grid \x7b a(connect: \x7b e:w#x; n:n@ \x7d), b#x; \x7d" = .ok chart ∧
      chart.IsSimplified m := by
  intro m
  have hm : m.Positive := Metrics.positive_standard
  obtain ⟨chart, -, -, -, hc, -⟩ := exists_linkAndLoop hm
  obtain ⟨hsimplifies, hagain⟩ := simplify_steps.1 overrun isChain_overrun
  exact ⟨⟨isChain_overrun, hsimplifies, hagain⟩, chart, hc,
    simplify_steps.2 m _ chart hm Metrics.le_gap_standard hc⟩

end Chart
end FlowGrid
