import Mathlib
import FlowGrid.Proofs.Chart.Path

/-! Routes keep clear of the nodes. Over exact numbers, with gaps that are not lost in the
tolerance, every route of a compiled chart goes from anchor to anchor along the axes, leaves
and enters at right angles, never doubles back, stays on the canvas, and meets neither the
outline of a node that it joins nor the cell of any other one. -/

namespace FlowGrid

open FlowGrid.Lattice FlowGrid.Polyline

/-- What the route of a link from the node at `i` keeps to, given where its two nodes are
placed. -/
structure Route.IsClear (chart : Chart ℝ) (i : Nat) (source target : Placement ℝ)
    (route : Route ℝ) : Prop where
  /-- It starts where links touch the source. -/
  starts : ∃ p, source.node.shape.anchor source.box route.link.sourceSide = .ok p ∧
    route.points.head? = some p
  /-- It ends where links touch the target. -/
  ends : ∃ p, target.node.shape.anchor target.box route.link.targetSide = .ok p ∧
    route.points.getLast? = some p
  /-- Neighboring points differ in exactly one coordinate. -/
  straight : ∀ s ∈ segments route.points, s.IsStraight
  /-- No segment goes back along the one before it. -/
  forward : ((segments route.points).map Segment.heading).IsChain fun h k => k ≠ h.reverse
  /-- The first segment goes outward along the normal of the side of the source. -/
  leaves : ((segments route.points).map Segment.heading).head? =
    some (.ofSide route.link.sourceSide)
  /-- The last segment goes inward along the normal of the side of the target. -/
  enters : ((segments route.points).map Segment.heading).getLast? =
    some (Heading.ofSide route.link.targetSide).reverse
  /-- No segment meets the box of another node. -/
  avoids : ∀ j other, chart.placements[j]? = some other → j ≠ i → j ≠ route.link.target →
    ∀ s ∈ segments route.points, ∀ p, s.Contains p → ¬ other.box.Holds p
  /-- No segment meets the rectangle of the source's outline. -/
  avoids_source : ∀ s ∈ segments route.points, ∀ p, s.Contains p →
    ¬ source.node.shape.Covers source.box p
  /-- No segment meets the rectangle of the target's outline. -/
  avoids_target : ∀ s ∈ segments route.points, ∀ p, s.Contains p →
    ¬ target.node.shape.Covers target.box p
  /-- All points lie inside the canvas. -/
  inside : ∀ p ∈ route.points, (0 < p.x ∧ p.x < chart.width) ∧ 0 < p.y ∧ p.y < chart.height

namespace Chart

variable {m : Metrics ℝ} {chart : Chart ℝ}

/-- Every route of a chart leads to a node of it and keeps clear of all nodes. -/
theorem routes_clear (hm : m.Positive) (hgap : ∀ a, 2 / 10 ^ 9 ≤ m.gap a) {text : String}
    (hc : compile m text = .ok chart) {i : Nat} {source : Placement ℝ}
    (hi : chart.placements[i]? = some source) {route : Route ℝ} (hr : route ∈ source.routes) :
    ∃ target, chart.placements[route.link.target]? = some target ∧
      route.IsClear chart i source target := by
  obtain ⟨grid, nodes, hs, hn⟩ := exists_seating_of_compile hc
  obtain ⟨hwidth, hheight, -⟩ := eq_of_ofNodes hn
  obtain ⟨target, htarget, hpath⟩ := route_eq hn hi hr
  obtain ⟨hnode, hbox⟩ := placement_eq hn hi
  obtain ⟨hnode', hbox'⟩ := placement_eq hn htarget
  have hsource := List.mem_of_getElem? hnode
  have htarget' := List.mem_of_getElem? hnode'
  obtain ⟨points, hpoints, hp⟩ := exists_path hm hgap hs hsource htarget' route.link
  obtain rfl : points = route.points := Except.ok.inj (hpoints.symm.trans hpath)
  refine ⟨target, htarget, ?_⟩
  exact {
    starts := ⟨_, anchor_eq hm hn hi _, hp.head?_eq⟩
    ends := ⟨_, anchor_eq hm hn htarget _, hp.getLast?_eq⟩
    straight := hp.isStraight
    forward := hp.forward
    leaves := hp.head?_heading
    enters := hp.getLast?_heading
    avoids := by
      intro j other hj hji hjt s hseg p hcontains
      obtain ⟨hother, hbox⟩ := placement_eq hn hj
      rw [hbox]
      refine (hp.of_contains hseg hcontains).cell (List.mem_of_getElem? hother) ?_ ?_
      · intro heq
        rw [← hs.index hother, heq, hs.index hnode] at hji
        exact hji rfl
      · intro heq
        rw [← hs.index hother, heq, hs.index hnode'] at hjt
        exact hjt rfl
    avoids_source := by
      intro s hseg p hcontains
      rw [hbox]
      exact (hp.of_contains hseg hcontains).outline hsource
    avoids_target := by
      intro s hseg p hcontains
      rw [hbox']
      exact (hp.of_contains hseg hcontains).outline htarget'
    inside := by
      intro p hpoint
      rw [hwidth, hheight]
      exact (hp.of_mem hpoint).onCanvas }

/-- A node with a link to its neighbor and a loop. -/
def linkAndLoop : List Node :=
  [{ index := 0
     identifier := "a"
     row := 0
     col := 0
     label := none
     text := none
     classes := []
     shape := .rect
     links := [⟨0, 1, .east, .west, none, [], .finish⟩, ⟨0, 0, .north, .north, none, [], .finish⟩] },
   { index := 1
     identifier := "b"
     row := 0
     col := 1
     label := some "x"
     text := none
     classes := []
     shape := .rect
     links := [] }]

theorem nodes_eq_linkAndLoop (grid : Grid Nat) :
    (do let document ← Document.read "grid \x7b a(connect: \x7b e:w#x; n:n@ \x7d), b#x; \x7d"
        let drafts ← document.drafts
        Node.ofDrafts drafts grid) = .ok linkAndLoop := by
  cbv

theorem exists_drafts_linkAndLoop : ∃ document drafts,
    Document.read "grid \x7b a(connect: \x7b e:w#x; n:n@ \x7d), b#x; \x7d" = .ok document ∧
      document.drafts = .ok drafts ∧ ∀ grid, Node.ofDrafts drafts grid = .ok linkAndLoop :=
  exists_drafts_of_nodes nodes_eq_linkAndLoop

theorem exists_linkAndLoop (hm : m.Positive) :
    ∃ (chart : Chart ℝ) (source : Placement ℝ) (route loop : Route ℝ),
      compile m "grid \x7b a(connect: \x7b e:w#x; n:n@ \x7d), b#x; \x7d" = .ok chart ∧
      chart.placements[0]? = some source ∧ source.routes = [route, loop] := by
  obtain ⟨grid, chart, hc, hchart⟩ := exists_compile_of_nodes nodes_eq_linkAndLoop hm (by decide)
  obtain ⟨source, hsource, hplacement⟩ :=
    Result.exists_result_of_mapM (eq_of_ofNodes hchart).2.2 (i := 0) rfl
  have hroutes := Result.mapM_eq_ok_iff.mp (Placement.eq_of_ofNode hplacement).2.2
  obtain ⟨route, rest, hrest, -, hmore⟩ := List.map_eq_cons_iff.mp hroutes.symm
  obtain ⟨loop, rest', rfl, -, hnil⟩ := List.map_eq_cons_iff.mp hmore
  obtain rfl := List.map_eq_nil_iff.mp hnil
  exact ⟨chart, source, route, loop, hc, hsource, hrest⟩

/-- Both routes of a node with a link to its neighbor and a loop. -/
theorem routes_clear_of_linkAndLoop :
    let m : Metrics ℝ := ⟨200, 100, 50, 50⟩
    (m.Positive ∧ ∀ a, 2 / 10 ^ 9 ≤ m.gap a) ∧
    ∃ chart source route loop,
      compile m "grid \x7b a(connect: \x7b e:w#x; n:n@ \x7d), b#x; \x7d" = .ok chart ∧
      chart.placements[0]? = some source ∧ source.routes = [route, loop] ∧
      (∃ target, chart.placements[route.link.target]? = some target ∧
        route.IsClear chart 0 source target) ∧
      ∃ target, chart.placements[loop.link.target]? = some target ∧
        loop.IsClear chart 0 source target := by
  intro m
  have hm : m.Positive := Metrics.positive_standard
  have hgap : ∀ a, 2 / 10 ^ 9 ≤ m.gap a := Metrics.le_gap_standard
  obtain ⟨chart, source, route, loop, hc, hi, hroutes⟩ := exists_linkAndLoop hm
  refine ⟨⟨hm, hgap⟩, chart, source, route, loop, hc, hi, hroutes, ?_, ?_⟩
  · exact routes_clear hm hgap hc hi (by rw [hroutes]; simp)
  · exact routes_clear hm hgap hc hi (by rw [hroutes]; simp)

end Chart
end FlowGrid
