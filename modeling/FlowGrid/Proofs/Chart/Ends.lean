import FlowGrid.Proofs.Chart.StraightRoutes

/-! The ends of routes, however narrow the gaps are. Points closer than the tolerance count as
one, so an anchor may be lost that lies this close to the lane in front of it. A route always
begins at the anchor of its source, and it ends at a point that counts as the anchor of its
target: at this one itself if both anchors are farther from their lanes. A route of a single
point has no arrowheads. -/

namespace FlowGrid

open FlowGrid.Lattice FlowGrid.Polyline

variable {m : Metrics ℝ} {node source target : Node} {side side' : Side}

/-! ### Points that count as one -/

theorem Polyline.samePoint_shift_of_lt (p : Point ℝ) {h : Heading} (hh : h ∈ Heading.steps) {t : ℝ}
    (h0 : 0 ≤ t) (ht : t < Scalar.tolerance) : samePoint p (p.shift h t) = true := by
  refine samePoint_iff.mpr fun a => ?_
  rw [Point.along_shift, sub_add_cancel_left, abs_neg]
  rcases Axis.eq_or_eq_other h.axis a with rfl | rfl
  · rwa [Heading.abs_along_axis_mul hh h0]
  · rw [Heading.along_axis_other hh]
    simp

/-- Vertices that count as one are on one line where the lines are far enough apart. -/
theorem Lattice.Vertex.along_eq_of_samePoint {v w : Vertex}
    (h : samePoint (v.toPoint m) (w.toPoint m) = true) {a : Axis}
    (ha : Scalar.tolerance ≤ m.pitch a) : v.along a = w.along a := by
  have hnear := samePoint_iff.mp h a
  -- the lines are a whole number of pitches apart
  rw [along_toPoint, along_toPoint, add_sub_add_left_eq_sub, ← sub_mul, abs_mul, ← Int.cast_sub,
    ← Int.cast_abs] at hnear
  have hpitch : 0 < m.pitch a := lt_of_lt_of_le (by norm_num) ha
  rw [abs_of_pos hpitch] at hnear
  by_contra hne
  have hone : (1 : ℝ) ≤ |v.along a - w.along a| := by
    exact_mod_cast Int.one_le_abs (sub_ne_zero.mpr hne)
  exact absurd (le_mul_of_one_le_left hpitch.le hone) (not_le.mpr (hnear.trans_le ha))

/-! ### Anchors and lanes -/

/-- The anchor of a side does not count as the vertex in front of it: the stem between them is
not lost in the tolerance. -/
def Node.IsOff (m : Metrics ℝ) (node : Node) (side : Side) : Prop :=
  Scalar.tolerance ≤ node.stem m (Heading.ofSide side).axis

theorem Node.isOff_of_le_gap (hgap : ∀ a, 2 / 10 ^ 9 ≤ m.gap a) (node : Node) (side : Side) :
    node.IsOff m side :=
  node.le_stem (Metrics.two_mul_tolerance_le hgap) _

theorem Node.IsOff.apart_stub (h : node.IsOff m side) :
    Apart (node.anchor m side) ((Vertex.stub node.row node.col side).toPoint m) := by
  rw [Node.toPoint_stub]
  exact samePoint_shift _ (Heading.ofSide_mem_steps side) h

theorem Node.IsOff.le_pitch (h : node.IsOff m side) (hm : m.Positive) :
    Scalar.tolerance ≤ m.pitch (Heading.ofSide side).axis := by
  rw [IsOff, stem] at h
  linarith [node.extent_pos hm (Heading.ofSide side).axis]

/-- No vertex that counts as the one in front of the side counts as its anchor. -/
theorem Node.IsOff.apart_anchor (h : node.IsOff m side) (hm : m.Positive) {v : Vertex}
    (hv : samePoint (v.toPoint m) ((Vertex.stub node.row node.col side).toPoint m) = true) :
    Apart (v.toPoint m) (node.anchor m side) := by
  have hline := Vertex.along_eq_of_samePoint hv (h.le_pitch hm)
  have hoff : (v.toPoint m).along (Heading.ofSide side).axis -
      (node.anchor m side).along (Heading.ofSide side).axis =
        (Heading.ofSide side).along (Heading.ofSide side).axis *
          node.stem m (Heading.ofSide side).axis := by
    rw [Vertex.along_toPoint, hline, ← Vertex.along_toPoint, Node.toPoint_stub, Point.along_shift,
      add_sub_cancel_left]
  refine apart_iff_along.mpr ⟨(Heading.ofSide side).axis, ?_⟩
  rw [hoff, Heading.abs_along_axis_mul (Heading.ofSide_mem_steps side) (node.stem_pos hm _).le]
  exact h

/-! ### Paths -/

section Paths

variable {walk : List Vertex}

/-- The path of a walk has a second point unless its whole beginning counts as the first one. -/
theorem two_le_length_path (hstart : walk.head? = some (.stub source.row source.col side))
    (h : source.IsOff m side ∨ Apart (source.anchor m side) (target.anchor m side')) :
    2 ≤ (simplify (source.anchor m side ::
      (walk.map (·.toPoint m) ++ [target.anchor m side']))).length := by
  rw [two_le_length_simplify_iff]
  rcases h with h | h
  · have hmem : Vertex.stub source.row source.col side ∈ walk := List.mem_of_head? hstart
    exact ⟨_, List.mem_append_left _ (List.mem_map_of_mem hmem), h.apart_stub⟩
  · exact ⟨_, List.mem_concat_self, h⟩

/-- The path of a walk ends at the anchor of the target if this one and that of the source are
off their lanes. -/
theorem getLast?_path (hm : m.Positive)
    (hstart : walk.head? = some (.stub source.row source.col side))
    (hend : walk.getLast? = some (.stub target.row target.col side'))
    (h : source.IsOff m side ∨ Apart (source.anchor m side) (target.anchor m side'))
    (h' : target.IsOff m side') :
    (simplify (source.anchor m side ::
      (walk.map (·.toPoint m) ++ [target.anchor m side']))).getLast? =
        some (target.anchor m side') := by
  apply getLast?_simplify_concat
  -- the last point kept before the anchor, which counts as the last vertex
  obtain ⟨before, hbefore⟩ := List.getLast?_eq_some_iff.mp hend
  have hlast := samePoint_getLastD_concat (source.anchor m side) (before.map (·.toPoint m))
    ((Vertex.stub target.row target.col side').toPoint m)
  rw [← List.map_singleton, ← List.map_append, ← hbefore] at hlast
  rcases List.eq_nil_or_concat (dropRepeatsAfter (source.anchor m side)
    (walk.map (·.toPoint m))) with hnil | ⟨kept, q, hkept⟩
  · rcases h with h | h
    · have hmem : Vertex.stub source.row source.col side ∈ walk := List.mem_of_head? hstart
      have hsame := dropRepeatsAfter_eq_nil_iff.mp hnil _ (List.mem_map_of_mem hmem)
      exact absurd hsame (Bool.eq_false_iff.mp h.apart_stub)
    · rwa [hnil]
  · rw [hkept, List.concat_eq_append, List.getLastD_concat] at hlast ⊢
    have hq : q ∈ walk.map (·.toPoint m) := mem_of_mem_dropRepeatsAfter (by rw [hkept]; simp)
    obtain ⟨v, -, rfl⟩ := List.mem_map.mp hq
    exact h'.apart_anchor hm hlast

end Paths

/-- The points begin at `start`, and they end at `last`, which is less than the tolerance off
`finish` in both coordinates. There are at least two of them if the path `opens`, and the last one
is `finish` itself if the path `closes` as well. -/
structure Polyline.KeepsEnds (opens closes : Prop) (start finish last : Point ℝ)
    (points : List (Point ℝ)) : Prop where
  starts : points.head? = some start
  ends : points.getLast? = some last
  near : samePoint last finish = true
  two_points : opens → 2 ≤ points.length
  exact : opens → closes → last = finish

theorem Polyline.KeepsEnds.mono {opens closes opens' closes' : Prop} {start finish last : Point ℝ}
    {points : List (Point ℝ)} (h : KeepsEnds opens closes start finish last points)
    (hopens : opens' → opens) (hcloses : closes' → closes) :
    KeepsEnds opens' closes' start finish last points :=
  ⟨h.starts, h.ends, h.near, fun ho => h.two_points (hopens ho),
    fun ho hc => h.exact (hopens ho) (hcloses hc)⟩

section Links

variable {grid : Grid Nat} {nodes : List Node} {link : Link} {points : List (Point ℝ)}

/-- The path of a link that is not a loop of one side. -/
theorem exists_keepsEnds_linkPath (hm : m.Positive) (hs : Seating grid nodes)
    (hsource : source ∈ nodes) (htarget : target ∈ nodes)
    (hne : ¬ (source.index = target.index ∧ link.sourceSide = link.targetSide))
    (hpoints : linkPath m grid source target link = .ok points) :
    ∃ last, KeepsEnds (source.IsOff m link.sourceSide ∨
        Apart (source.anchor m link.sourceSide) (target.anchor m link.targetSide))
      (target.IsOff m link.targetSide) (source.anchor m link.sourceSide)
      (target.anchor m link.targetSide) last points := by
  obtain ⟨steps, hroute, hw, -⟩ := (betweenSides_latticeQuery hs hsource htarget hne).exists_best
  rw [linkPath_eq hm hne hroute] at hpoints
  cases hpoints
  have hend : ((latticeQuery grid source target link).start.trace steps).getLast? =
      some (.stub target.row target.col link.targetSide) := by
    rw [Vertex.getLast?_trace, hw.arrives]
    rfl
  refine ⟨_, rfl, getLast?_simplify _ _, samePoint_getLastD_concat _ _ _,
    two_le_length_path rfl, fun hopens hcloses => ?_⟩
  have hlast := getLast?_path hm rfl hend hopens hcloses
  rw [getLast?_simplify] at hlast
  exact Option.some.inj hlast

/-- A loop of one side comes back to its start. -/
theorem keepsEnds_loop (hm : m.Positive) (hs : Seating grid nodes) (hsource : source ∈ nodes)
    (hside : link.sourceSide = link.targetSide)
    (hpoints : linkPath m grid source source link = .ok points) (opens closes : Prop) :
    KeepsEnds opens closes (source.anchor m link.sourceSide) (source.anchor m link.targetSide)
      (source.anchor m link.sourceSide) points := by
  rw [linkPath_eq_sideLoop hm hside] at hpoints
  cases hpoints
  have hp := isPath_sideLoop hm hs hsource link.sourceSide
  exact {
    starts := hp.head?_eq
    ends := hp.getLast?_eq
    near := hside ▸ samePoint_self _
    two_points := fun _ => by simp [sideLoop]
    exact := fun _ _ => by rw [hside] }

end Links

/-! ### Neighbors that touch -/

section Neighbors

variable {grid : Grid Nat} {nodes : List Node} {link : Link}

/-- The route to the next cell meets one vertex, the one between the two nodes. -/
theorem linkPath_of_neighbors (hm : m.Positive) (hs : Seating grid nodes) (hsource : source ∈ nodes)
    (htarget : target ∈ nodes)
    (hopposite : (Heading.ofSide link.targetSide).reverse = .ofSide link.sourceSide)
    (haway : Node.IsAway link.sourceSide 1 source target) :
    linkPath m grid source target link = .ok (simplify [source.anchor m link.sourceSide,
      (Vertex.stub source.row source.col link.sourceSide).toPoint m,
      target.anchor m link.targetSide]) := by
  have hne : ¬ (source.index = target.index ∧ link.sourceSide = link.targetSide) := by
    rintro ⟨-, hside⟩
    rw [← hside] at hopposite
    exact Heading.ne_reverse_of_mem_steps (Heading.ofSide_mem_steps _) hopposite.symm
  obtain ⟨steps, hroute, -, hbest⟩ := (betweenSides_latticeQuery hs hsource htarget hne).exists_best
  have hcost : (latticeQuery grid source target link).cost [] = 0 := by
    have hstart : (latticeQuery grid source target link).startHeading =
      .ofSide link.sourceSide := rfl
    have hgoal : (latticeQuery grid source target link).goalHeading = .ofSide link.sourceSide :=
      hopposite
    simp [Query.cost, Query.turns, Heading.turns, hstart, hgoal]
  have hle := hbest [] (isWalk_straight (n := 0) hs hsource htarget hopposite haway (by omega))
  rw [hcost, Query.cost] at hle
  obtain rfl : steps = [] := List.length_eq_zero_iff.mp (by omega)
  exact linkPath_eq hm hne hroute

/-- From anchor to anchor of neighbors it is as far as both stems reach. -/
theorem anchor_of_neighbors (hm : m.Positive)
    (hopposite : (Heading.ofSide link.targetSide).reverse = .ofSide link.sourceSide)
    (haway : Node.IsAway link.sourceSide 1 source target) :
    target.anchor m link.targetSide =
      (source.anchor m link.sourceSide).shift (.ofSide link.sourceSide)
        (source.stem m (Heading.ofSide link.sourceSide).axis +
          target.stem m (Heading.ofSide link.sourceSide).axis) := by
  have hside' : Heading.ofSide link.targetSide = (Heading.ofSide link.sourceSide).reverse := by
    rw [← hopposite, Heading.reverse_reverse]
  rw [Node.anchor, Node.anchor, (Node.isAway_iff_toPoint hm).mp haway, hside',
    Heading.axis_reverse (Heading.ofSide_mem_steps _), Point.shift_reverse, Point.shift_shift,
    Point.shift_shift, Node.stem, Node.stem]
  congr 1
  push_cast
  ring

/-- Between neighbors whose stems are lost in the tolerance, a route is a single point. -/
theorem linkPath_of_touching (hm : m.Positive) (hs : Seating grid nodes) (hsource : source ∈ nodes)
    (htarget : target ∈ nodes)
    (hopposite : (Heading.ofSide link.targetSide).reverse = .ofSide link.sourceSide)
    (haway : Node.IsAway link.sourceSide 1 source target)
    (hstems : source.stem m (Heading.ofSide link.sourceSide).axis +
      target.stem m (Heading.ofSide link.sourceSide).axis < Scalar.tolerance) :
    linkPath m grid source target link = .ok [source.anchor m link.sourceSide] := by
  have hpos := source.stem_pos hm (Heading.ofSide link.sourceSide).axis
  have hpos' := target.stem_pos hm (Heading.ofSide link.sourceSide).axis
  have hsame {t : ℝ} (h0 : 0 ≤ t) (ht : t < Scalar.tolerance) :
      samePoint (source.anchor m link.sourceSide)
        ((source.anchor m link.sourceSide).shift (.ofSide link.sourceSide) t) = true :=
    samePoint_shift_of_lt _ (Heading.ofSide_mem_steps _) h0 ht
  rw [linkPath_of_neighbors hm hs hsource htarget hopposite haway, Node.toPoint_stub,
    anchor_of_neighbors hm hopposite haway]
  simp only [simplify, dropRepeats, dropRepeatsAfter, hsame hpos.le (by linarith),
    hsame (by linarith) hstems, if_true, Polyline.cornersAfter]

end Neighbors

/-! ### Charts -/

/-- The link goes from a side of the node at `i` to the same side. -/
def Link.IsLoop (i : Nat) (link : Link) : Prop :=
  link.target = i ∧ link.sourceSide = link.targetSide

/-- What the route of a link from the node at `i` keeps of its anchors `start` and `finish`, given
where its two nodes are placed. -/
structure Route.KeepsEnds (m : Metrics ℝ) (i : Nat) (source target : Placement ℝ)
    (start finish last : Point ℝ) (route : Route ℝ) : Prop extends
  -- a loop opens and closes in any case
  Polyline.KeepsEnds
    (route.link.IsLoop i ∨ source.node.IsOff m route.link.sourceSide ∨ Apart start finish)
    (route.link.IsLoop i ∨ target.node.IsOff m route.link.targetSide) start finish last
    route.points where
  /-- The arrowheads are those that are asked for, with their apexes at the ends of the path. -/
  marks : 2 ≤ route.points.length →
    route.arrowheads.map Arrowhead.mark = route.link.arrowheads.marks start last
  unmarked : route.points.length < 2 → route.arrowheads = []

namespace Chart

variable {chart : Chart ℝ}

/-- Every route of a chart keeps its ends, for all positive measures. -/
theorem ends_kept (hm : m.Positive) {text : String} (hc : compile m text = .ok chart) {i : Nat}
    {source : Placement ℝ} (hi : chart.placements[i]? = some source) {route : Route ℝ}
    (hr : route ∈ source.routes) :
    ∃ target start finish last, chart.placements[route.link.target]? = some target ∧
      source.node.shape.anchor source.box route.link.sourceSide = .ok start ∧
      target.node.shape.anchor target.box route.link.targetSide = .ok finish ∧
      route.KeepsEnds m i source target start finish last := by
  obtain ⟨grid, nodes, hs, hn⟩ := exists_seating_of_compile hc
  obtain ⟨target, htarget, hpath⟩ := route_eq hn hi hr
  have hheads := arrowheads_eq hn hi hr
  obtain ⟨hnode, -⟩ := placement_eq hn hi
  obtain ⟨hnode', -⟩ := placement_eq hn htarget
  have hsource := List.mem_of_getElem? hnode
  have htarget' := List.mem_of_getElem? hnode'
  have hloop : (source.node.index = target.node.index ∧
      route.link.sourceSide = route.link.targetSide) ↔ route.link.IsLoop i := by
    rw [hs.index hnode, hs.index hnode', Link.IsLoop, eq_comm]
  have hkeeps : ∃ last, Polyline.KeepsEnds
      (route.link.IsLoop i ∨ source.node.IsOff m route.link.sourceSide ∨
        Apart (source.node.anchor m route.link.sourceSide)
          (target.node.anchor m route.link.targetSide))
      (route.link.IsLoop i ∨ target.node.IsOff m route.link.targetSide)
      (source.node.anchor m route.link.sourceSide) (target.node.anchor m route.link.targetSide)
      last route.points := by
    by_cases hself : route.link.IsLoop i
    · obtain ⟨hindex, hside⟩ := hloop.mpr hself
      rw [← hs.eq_of_index hsource htarget' hindex] at hpath ⊢
      exact ⟨_, keepsEnds_loop hm hs hsource hside hpath _ _⟩
    · obtain ⟨last, h⟩ :=
        exists_keepsEnds_linkPath hm hs hsource htarget' (hloop.not.mpr hself) hpath
      exact ⟨last, h.mono (·.resolve_left hself) (·.resolve_left hself)⟩
  obtain ⟨last, hkeeps⟩ := hkeeps
  have hmarks := Arrowhead.map_mark_of_ofPath hheads hkeeps.starts hkeeps.ends
  refine ⟨target, _, _, last, htarget, anchor_eq hm hn hi _, anchor_eq hm hn htarget _,
    ⟨hkeeps, fun hlength => ?_, fun hlength => ?_⟩⟩
  · rwa [if_pos hlength] at hmarks
  · rwa [if_neg (Nat.not_le.mpr hlength), List.map_eq_nil_iff] at hmarks

/-- With gaps that are not lost in the tolerance, both routes of a node with a link to its neighbor
and a loop end at the anchors of their targets. -/
theorem ends_kept_of_linkAndLoop :
    let m : Metrics ℝ := ⟨200, 100, 50, 50⟩
    m.Positive ∧ ∃ (chart : Chart ℝ) (source : Placement ℝ) (route loop : Route ℝ),
      compile m "grid \x7b a(connect: \x7b e:w#x; n:n@ \x7d), b#x; \x7d" = .ok chart ∧
      chart.placements[0]? = some source ∧ source.routes = [route, loop] ∧
      ∀ r ∈ source.routes, ∃ (target : Placement ℝ) (start finish : Point ℝ),
        chart.placements[r.link.target]? = some target ∧
        source.node.shape.anchor source.box r.link.sourceSide = .ok start ∧
        target.node.shape.anchor target.box r.link.targetSide = .ok finish ∧
        r.KeepsEnds m 0 source target start finish finish ∧ 2 ≤ r.points.length := by
  intro m
  have hm : m.Positive := Metrics.positive_standard
  have hgap : ∀ a, 2 / 10 ^ 9 ≤ m.gap a := Metrics.le_gap_standard
  obtain ⟨chart, source, route, loop, hc, hi, hroutes⟩ := exists_linkAndLoop hm
  refine ⟨hm, chart, source, route, loop, hc, hi, hroutes, fun r hr => ?_⟩
  obtain ⟨target, start, finish, last, ht, hstart, hfinish, hends⟩ := ends_kept hm hc hi hr
  have hoff := source.node.isOff_of_le_gap hgap r.link.sourceSide
  have hoff' := target.node.isOff_of_le_gap hgap r.link.targetSide
  obtain rfl := hends.exact (.inr (.inl hoff)) (.inr hoff')
  exact ⟨target, start, last, ht, hstart, hfinish, hends, hends.two_points (.inr (.inl hoff))⟩

/-- A route between neighbors whose stems are lost in the tolerance is a single point without
arrowheads. -/
theorem route_of_touching (hm : m.Positive) {text : String} (hc : compile m text = .ok chart)
    {i : Nat} {source target : Placement ℝ} (hi : chart.placements[i]? = some source)
    {route : Route ℝ} (hr : route ∈ source.routes)
    (ht : chart.placements[route.link.target]? = some target)
    (hopposite : (Heading.ofSide route.link.targetSide).reverse = .ofSide route.link.sourceSide)
    (haway : Node.IsAway route.link.sourceSide 1 source.node target.node)
    (hstems : source.node.stem m (Heading.ofSide route.link.sourceSide).axis +
      target.node.stem m (Heading.ofSide route.link.sourceSide).axis < Scalar.tolerance) :
    route.points = [source.node.anchor m route.link.sourceSide] ∧ route.arrowheads = [] := by
  obtain ⟨grid, nodes, hs, hn⟩ := exists_seating_of_compile hc
  obtain ⟨_, ht', hpath⟩ := route_eq hn hi hr
  cases ht.symm.trans ht'
  have hsource := List.mem_of_getElem? (placement_eq hn hi).1
  have htarget := List.mem_of_getElem? (placement_eq hn ht).1
  rw [linkPath_of_touching hm hs hsource htarget hopposite haway hstems] at hpath
  have hpoints := (Except.ok.inj hpath).symm
  have hheads := arrowheads_eq hn hi hr
  rw [hpoints] at hheads
  exact ⟨hpoints, (Except.ok.inj hheads).symm⟩

theorem linkAndLoop_touch {a b : Node} (h : linkAndLoop = [a, b]) :
    let m : Metrics ℝ := ⟨200, 100, 1 / 10 ^ 10, 1 / 10 ^ 10⟩
    Node.IsAway .east 1 a b ∧
      a.stem m .horizontal + b.stem m .horizontal < Scalar.tolerance := by
  cases h
  refine ⟨⟨rfl, rfl⟩, ?_⟩
  norm_num [Node.stem, Node.box, Shape.extent, Shape.extents, Shape.isSquared, Metrics.pitch_eq,
    Metrics.size, Metrics.gap, Metrics.cellBox]

/-- With gaps that are lost in the tolerance, the route between neighbors is a single point. It
does not end at the anchor of its target, and it lacks the arrowhead there. -/
theorem end_lost_of_narrow_gaps :
    let m : Metrics ℝ := ⟨200, 100, 1 / 10 ^ 10, 1 / 10 ^ 10⟩
    m.Positive ∧ ∃ (chart : Chart ℝ) (source target : Placement ℝ) (route : Route ℝ)
        (start finish : Point ℝ),
      compile m "grid \x7b a(connect: \x7b e:w#x; n:n@ \x7d), b#x; \x7d" = .ok chart ∧
      chart.placements[0]? = some source ∧ route ∈ source.routes ∧
      chart.placements[route.link.target]? = some target ∧
      source.node.shape.anchor source.box route.link.sourceSide = .ok start ∧
      target.node.shape.anchor target.box route.link.targetSide = .ok finish ∧
      route.points = [start] ∧ start ≠ finish ∧
      route.link.arrowheads = .finish ∧ route.arrowheads = [] := by
  intro m
  have hm : m.Positive := Metrics.positive_narrow
  obtain ⟨grid, chart, hc, hn⟩ := exists_compile_of_nodes nodes_eq_linkAndLoop hm (by decide)
  obtain ⟨source, hi, route, hr, hlink⟩ := exists_route_of_ofNodes hn (i := 0) rfl (.head _)
  obtain ⟨target, ht, -⟩ := route_eq hn hi hr
  have hnode := (placement_eq hn hi).1
  have hnode' := (placement_eq hn ht).1
  rw [hlink] at hnode'
  have hnodes : linkAndLoop = [source.node, target.node] := by
    rw [← Option.some.inj hnode, ← Option.some.inj hnode']
    rfl
  obtain ⟨haway, hstems⟩ := linkAndLoop_touch hnodes
  obtain ⟨hpoints, hheads⟩ := route_of_touching hm hc hi hr ht (by rw [hlink]; rfl)
    (by rw [hlink]; exact haway) (by rw [hlink]; exact hstems)
  have hne : source.node.anchor m route.link.sourceSide ≠
      target.node.anchor m route.link.targetSide := by
    rw [hlink, anchor_of_neighbors hm rfl haway]
    exact ne_shift _ (Heading.ofSide_mem_steps _)
      (add_pos (source.node.stem_pos hm _) (target.node.stem_pos hm _))
  exact ⟨hm, chart, source, target, route, _, _, hc, hi, hr, ht, anchor_eq hm hn hi _,
    anchor_eq hm hn ht _, hpoints, hne, by rw [hlink], hheads⟩

end Chart
end FlowGrid
