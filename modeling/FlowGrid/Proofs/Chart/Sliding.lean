import FlowGrid.Proofs.Chart.ClearRoutes
import FlowGrid.Proofs.Chart.Correspondence

/-! What the layout depends on. Two documents with the same occupied cells and with links between
the same sides of the same nodes are laid out alike. Another shape moves an anchor only along the
normal of its side, in line with the lane that the route goes to first, so the ends of a route may
slide along these normals, and nothing in between moves. -/

namespace FlowGrid

open FlowGrid.Lattice FlowGrid.Polyline

/-! ### What may differ -/

/-- The two sides that a link joins and the node that it leads to. -/
def Link.course (link : Link) : Side × Side × Nat := (link.sourceSide, link.targetSide, link.target)

/-- The routes of links with one course from the node at `i` differ at most in where on the normals
of their sides they begin and end. -/
structure Route.Slides (i : Nat) (route route' : Route ℝ) : Prop where
  path : ¬ (route.link.target = i ∧ route.link.sourceSide = route.link.targetSide) →
    ∃ start between finish s t, route.points = start :: (between ++ [finish]) ∧
      route'.points = start.shift (.ofSide route.link.sourceSide) s ::
        (between ++ [finish.shift (.ofSide route.link.targetSide) t])
  /-- A loop moves as a whole. -/
  loop : route.link.target = i → route.link.sourceSide = route.link.targetSide →
    ∃ t, route'.points = route.points.map (·.shift (.ofSide route.link.sourceSide) t)

/-- The charts have one canvas and the same boxes, and corresponding routes differ at most in their
ends. -/
structure Chart.Slides (chart chart' : Chart ℝ) : Prop where
  width : chart'.width = chart.width
  height : chart'.height = chart.height
  boxes : chart'.placements.map Placement.box = chart.placements.map Placement.box
  count {i : Nat} {source source' : Placement ℝ} : chart.placements[i]? = some source →
    chart'.placements[i]? = some source' → source'.routes.length = source.routes.length
  routes {i k : Nat} {source source' : Placement ℝ} {route route' : Route ℝ} :
    chart.placements[i]? = some source → chart'.placements[i]? = some source' →
    source.routes[k]? = some route → source'.routes[k]? = some route' → route.Slides i route'

/-! ### Cells -/

/-- The row and the column of a node. -/
def Node.cell (node : Node) : Nat × Nat := (node.row, node.col)

namespace Document

variable {d d' : Document}

/-- The occupied cells have one reading order. -/
theorem places_eq (h : ∀ row col, d'.IsOccupied row col ↔ d.IsOccupied row col) :
    d'.places = d.places := by
  have hmem (e : Document) (p : Nat × Nat) : p ∈ e.places ↔ e.IsOccupied p.1 p.2 := by
    rw [isOccupied_iff_mem_places]
    exact ⟨fun hp => ⟨p, hp, rfl⟩, fun ⟨q, hq, heq⟩ => position_injective heq ▸ hq⟩
  have hperm : d'.places.Perm d.places := by
    refine (List.perm_ext_iff_of_nodup d'.nodup_places d.nodup_places).mpr fun p => ?_
    rw [hmem, hmem, h]
  refine hperm.eq_of_pairwise ?_ d'.pairwise_places d.pairwise_places
  rintro ⟨row, col⟩ ⟨row', col'⟩ - - hab hba
  simp only [Before] at hab hba
  omega

variable {drafts drafts' : List Draft}

theorem grid_eq (hd : d.drafts = .ok drafts) (hd' : d'.drafts = .ok drafts')
    (hrows : d'.rows.length = d.rows.length) (hcols : d'.columnCount = d.columnCount)
    (hplaces : d'.places = d.places) : d'.grid drafts' = d.grid drafts := by
  rw [grid, grid, positions_of_drafts hd, positions_of_drafts hd', hrows, hcols, hplaces]

/-- The nodes are in the occupied cells. -/
theorem map_cell_of_ofDrafts {cells : Grid Nat} {nodes : List Node} (hd : d.drafts = .ok drafts)
    (hn : Node.ofDrafts drafts cells = .ok nodes) : nodes.map Node.cell = d.places := by
  rw [← places_of_drafts hd]
  exact Node.map_eq_of_keeps (fun h => by rw [Node.cell, h.row, h.col]) (Node.keeps_of_ofDrafts hn)

end Document

/-! ### Anchors -/

namespace Node

variable {m : Metrics ℝ} {a b : Node}

/-- The anchors of nodes in one cell lie on one normal. -/
theorem exists_anchor_eq_shift (h : b.cell = a.cell) (side : Side) :
    ∃ t, b.anchor m side = (a.anchor m side).shift (.ofSide side) t := by
  obtain ⟨hrow, hcol⟩ := Prod.mk.inj h
  refine ⟨b.shape.extent (b.box m) (Heading.ofSide side).axis -
    a.shape.extent (a.box m) (Heading.ofSide side).axis, ?_⟩
  rw [anchor, anchor, Point.shift_shift, add_sub_cancel, vertex, vertex, hrow, hcol]

end Node

/-- A loop moves with its anchor along the normal of its side. -/
theorem sideLoop_shift (m : Metrics ℝ) (p : Point ℝ) (row col : Int) (side : Side) (t : ℝ) :
    sideLoop m (p.shift (.ofSide side) t) (m.cellBox row col) side =
      (sideLoop m p (m.cellBox row col) side).map (·.shift (.ofSide side) t) := by
  have hcomm (q : Point ℝ) (h : Heading) (s : ℝ) :
      (q.shift (.ofSide side) t).shift h s = (q.shift h s).shift (.ofSide side) t :=
    q.shift_comm _ _ _ _
  rw [sideLoop_eq, sideLoop_eq]
  simp only [hcomm, List.map_cons, List.map_nil]

/-! ### Routes -/

section Routes

variable {m : Metrics ℝ} {grid : Grid Nat} {nodes nodes' : List Node}
  {source target source' target' : Node} {link link' : Link}

theorem latticeQuery_eq (hsource : source'.cell = source.cell)
    (htarget : target'.cell = target.cell) (hlink : link'.course = link.course) :
    latticeQuery grid source' target' link' = latticeQuery grid source target link := by
  simp only [Node.cell, Link.course, Prod.mk.injEq] at hsource htarget hlink
  simp only [latticeQuery, hsource, htarget, hlink]

/-- Paths between sides of one cell each have the same points but for their ends. -/
theorem linkPath_slides (hm : m.Positive) (hgap : ∀ a, 2 / 10 ^ 9 ≤ m.gap a)
    (hs : Seating grid nodes) (hs' : Seating grid nodes') (hsource : source ∈ nodes)
    (htarget : target ∈ nodes) (hsource' : source' ∈ nodes') (htarget' : target' ∈ nodes')
    (hne : ¬ (source.index = target.index ∧ link.sourceSide = link.targetSide))
    (hne' : ¬ (source'.index = target'.index ∧ link'.sourceSide = link'.targetSide))
    (hcell : source'.cell = source.cell) (hcell' : target'.cell = target.cell)
    (hlink : link'.course = link.course) {points points' : List (Point ℝ)}
    (h : linkPath m grid source target link = .ok points)
    (h' : linkPath m grid source' target' link' = .ok points') :
    ∃ start between finish s t, points = start :: (between ++ [finish]) ∧
      points' = start.shift (.ofSide link.sourceSide) s ::
        (between ++ [finish.shift (.ofSide link.targetSide) t]) := by
  have hq : latticeQuery grid source' target' link' = latticeQuery grid source target link :=
    latticeQuery_eq hcell hcell' hlink
  obtain ⟨steps, hroute, hw, -⟩ := (betweenSides_latticeQuery hs hsource htarget hne).exists_best
  -- one walk answers both queries, so the runs of both paths have the same headings
  have hruns := runs_link hm hs hsource htarget (Metrics.two_mul_tolerance_le hgap) hw
  have hruns' := runs_link hm hs' hsource' htarget' (Metrics.two_mul_tolerance_le hgap) (hq ▸ hw)
  rw [linkPath_eq hm hne hroute, Except.ok.injEq] at h
  rw [linkPath_eq hm hne' ((congrArg Query.route hq).trans hroute), Except.ok.injEq] at h'
  obtain ⟨s, hstart⟩ := Node.exists_anchor_eq_shift (m := m) hcell link.sourceSide
  obtain ⟨t, hfinish⟩ := Node.exists_anchor_eq_shift (m := m) hcell' link.targetSide
  have hstub : Vertex.stub source'.row source'.col link'.sourceSide =
      Vertex.stub source.row source.col link.sourceSide := congrArg Query.start hq
  simp only [Link.course, Prod.mk.injEq] at hlink
  obtain ⟨hside, hside', -⟩ := hlink
  rw [hstub, hside, hside', hstart, hfinish] at hruns'
  rw [hside, hside'] at h'
  rw [hstart, hfinish] at h'
  exact ⟨_, _, _, s, t, h.symm.trans hruns.simplify_concat, h'.symm.trans hruns'.simplify_concat⟩

/-- Loops of one side of one cell have the same points up to a shift along the normal. -/
theorem loop_slides (hm : m.Positive) (hside : link.sourceSide = link.targetSide)
    (hcell : source'.cell = source.cell) (hlink : link'.course = link.course)
    {points points' : List (Point ℝ)} (h : linkPath m grid source source link = .ok points)
    (h' : linkPath m grid source' source' link' = .ok points') :
    ∃ t, points' = points.map (·.shift (.ofSide link.sourceSide) t) := by
  obtain ⟨t, hanchor⟩ := Node.exists_anchor_eq_shift (m := m) hcell link.sourceSide
  simp only [Link.course, Node.cell, Prod.mk.injEq] at hlink hcell
  obtain ⟨hsource, htarget, -⟩ := hlink
  rw [linkPath_eq_sideLoop hm hside, Except.ok.injEq] at h
  rw [linkPath_eq_sideLoop hm (hsource.trans (hside.trans htarget.symm)), Except.ok.injEq, hsource,
    hanchor, hcell.1, hcell.2, sideLoop_shift, h] at h'
  exact ⟨t, h'.symm⟩

end Routes

/-! ### Charts -/

/-- What two lists agree on throughout they agree on at an index. -/
theorem eq_of_map_eq {α β γ : Type} {f : α → γ} {g : β → γ} {l : List α} {l' : List β}
    (h : l'.map g = l.map f) {i : Nat} {a : α} {b : β} (ha : l[i]? = some a)
    (hb : l'[i]? = some b) : g b = f a := by
  have hi := congrArg (·[i]?) h
  simpa [ha, hb] using hi

namespace Chart

variable {m : Metrics ℝ} {d d' : Document} {chart chart' : Chart ℝ}

theorem map_box_of_ofNodes {grid : Grid Nat} {nodes : List Node}
    (h : ofNodes m grid nodes = .ok chart) : chart.placements.map Placement.box =
      (nodes.map Node.cell).map fun p => m.cellBox p.1 p.2 := by
  rw [← map_node_of_ofNodes h, List.map_map, List.map_map]
  refine List.map_congr_left fun p hp => ?_
  obtain ⟨i, hi⟩ := List.mem_iff_getElem?.mp hp
  exact (placement_eq h hi).2

/-- Routes with one course from the nodes of one index differ at most in their ends. -/
theorem slides_of_ofNodes (hm : m.Positive) (hgap : ∀ a, 2 / 10 ^ 9 ≤ m.gap a) {grid : Grid Nat}
    {nodes nodes' : List Node} (hs : Seating grid nodes) (hs' : Seating grid nodes')
    (hcells : nodes'.map Node.cell = nodes.map Node.cell) (hc : ofNodes m grid nodes = .ok chart)
    (hc' : ofNodes m grid nodes' = .ok chart') {i : Nat} {source source' : Placement ℝ}
    (hi : chart.placements[i]? = some source) (hi' : chart'.placements[i]? = some source')
    {route route' : Route ℝ} (hr : route ∈ source.routes) (hr' : route' ∈ source'.routes)
    (hlink : route'.link.course = route.link.course) : route.Slides i route' := by
  obtain ⟨target, ht, hpath⟩ := route_eq hc hi hr
  obtain ⟨target', ht', hpath'⟩ := route_eq hc' hi' hr'
  have hcourse := hlink
  simp only [Link.course, Prod.mk.injEq] at hcourse
  obtain ⟨hside, hside', htarget⟩ := hcourse
  rw [htarget] at ht'
  obtain ⟨hnode, -⟩ := placement_eq hc hi
  obtain ⟨hnode', -⟩ := placement_eq hc' hi'
  obtain ⟨hend, -⟩ := placement_eq hc ht
  obtain ⟨hend', -⟩ := placement_eq hc' ht'
  have hcell := eq_of_map_eq hcells hnode hnode'
  refine ⟨fun hne => ?_, fun hself hloop => ?_⟩
  · refine linkPath_slides hm hgap hs hs' (List.mem_of_getElem? hnode) (List.mem_of_getElem? hend)
      (List.mem_of_getElem? hnode') (List.mem_of_getElem? hend') ?_ ?_ hcell
      (eq_of_map_eq hcells hend hend') hlink hpath hpath'
    · rw [hs.index hnode, hs.index hend]
      exact fun h => hne ⟨h.1.symm, h.2⟩
    · rw [hs'.index hnode', hs'.index hend', hside, hside']
      exact fun h => hne ⟨h.1.symm, h.2⟩
  · rw [hself] at ht ht'
    obtain rfl : source = target := Option.some.inj (hi.symm.trans ht)
    obtain rfl : source' = target' := Option.some.inj (hi'.symm.trans ht')
    exact loop_slides hm hloop hcell hlink hpath hpath'

/-- The links of the nodes, in order, by their courses. -/
def courses (chart : Chart ℝ) : List (List (Side × Side × Nat)) :=
  chart.placements.map fun p => p.node.links.map Link.course

theorem courses_of_ofNodes {grid : Grid Nat} {nodes : List Node}
    (h : ofNodes m grid nodes = .ok chart) :
    chart.courses = nodes.map fun node => node.links.map Link.course := by
  rw [← map_node_of_ofNodes h, List.map_map]
  rfl

/-- The charts of documents with the same rows and columns, occupied cells and courses of links
differ at most in the ends of routes, whatever else is written in the documents. -/
theorem slides_of_courses (hm : m.Positive) (hgap : ∀ a, 2 / 10 ^ 9 ≤ m.gap a)
    (hc : ofDocument m d = .ok chart) (hc' : ofDocument m d' = .ok chart')
    (hrows : d'.rows.length = d.rows.length) (hcols : d'.columnCount = d.columnCount)
    (hcells : ∀ row col, d'.IsOccupied row col ↔ d.IsOccupied row col)
    (hcourses : chart'.courses = chart.courses) : chart.Slides chart' := by
  obtain ⟨drafts, grid, nodes, hd, hg, hn, hchart⟩ := exists_nodes_of_ofDocument hc
  obtain ⟨drafts', grid', nodes', hd', hg', hn', hchart'⟩ := exists_nodes_of_ofDocument hc'
  have hplaces := Document.places_eq hcells
  obtain rfl : grid = grid' := by
    rw [Document.grid_eq hd hd' hrows hcols hplaces, hg] at hg'
    exact Except.ok.inj hg'
  have hnodes : nodes'.map Node.cell = nodes.map Node.cell := by
    rw [Document.map_cell_of_ofDrafts hd hn, Document.map_cell_of_ofDrafts hd' hn', hplaces]
  obtain ⟨hwidth, hheight, -⟩ := eq_of_ofNodes hchart
  obtain ⟨hwidth', hheight', -⟩ := eq_of_ofNodes hchart'
  -- the routes of one node, by their courses
  have hroutes {i : Nat} {source source' : Placement ℝ} (hi : chart.placements[i]? = some source)
      (hi' : chart'.placements[i]? = some source') :
      (source'.routes.map fun r => r.link.course) = source.routes.map fun r => r.link.course := by
    have hlinks := eq_of_map_eq hcourses hi hi'
    rwa [← links_of_ofNodes hchart source (List.mem_of_getElem? hi),
      ← links_of_ofNodes hchart' source' (List.mem_of_getElem? hi'), List.map_map,
      List.map_map] at hlinks
  exact {
    width := by rw [hwidth, hwidth']
    height := by rw [hheight, hheight']
    boxes := by rw [map_box_of_ofNodes hchart, map_box_of_ofNodes hchart', hnodes]
    count := fun hi hi' => by simpa using congrArg List.length (hroutes hi hi')
    routes := fun hi hi' hk hk' =>
      slides_of_ofNodes hm hgap (Document.seating hd hg hn) (Document.seating hd' hg' hn') hnodes
        hchart hchart' hi hi' (List.mem_of_getElem? hk) (List.mem_of_getElem? hk')
        (eq_of_map_eq (hroutes hi hi') hk hk') }

/-- A rectangle with a link to its neighbor and a loop. -/
def loopedRectangle : Document where
  rows :=
    [[some ⟨"a", none, [⟨.connect [⟨.east, .west, .label "x", [], ⟨20, 1, 21⟩⟩,
          ⟨.north, .north, .self, [], ⟨27, 1, 28⟩⟩], ⟨9, 1, 10⟩⟩], ⟨7, 1, 8⟩⟩,
      some ⟨"b", some "x", [], ⟨36, 1, 37⟩⟩]]
  definitions := []

/-- A circle with a text and the same links. The loop names the circle by its label. -/
def loopedCircle : Document where
  rows :=
    [[some ⟨"a", some "me", [⟨.text "Go", ⟨12, 1, 13⟩⟩, ⟨.shape "circle", ⟨18, 1, 19⟩⟩,
          ⟨.connect [⟨.east, .west, .label "x", [], ⟨44, 1, 45⟩⟩,
            ⟨.north, .north, .label "me", [], ⟨51, 1, 52⟩⟩], ⟨33, 1, 34⟩⟩], ⟨7, 1, 8⟩⟩,
      some ⟨"b", some "x", [], ⟨62, 1, 63⟩⟩]]
  definitions := []

theorem read_loopedRectangle :
    Document.read "grid \x7b a(connect: \x7b e:w#x; n:n@ \x7d), b#x; \x7d" =
      .ok loopedRectangle := by
  cbv

theorem read_loopedCircle :
    Document.read
      "grid \x7b a#me(\"Go\", shape: circle, connect: \x7b e:w#x; n:n#me \x7d), b#x; \x7d" =
      .ok loopedCircle := by
  cbv

/-- The nodes of either document. -/
def loopedNodes (label text : Option String) (shape : Shape) : List Node :=
  [{ index := 0
     identifier := "a"
     row := 0
     col := 0
     label
     text
     classes := []
     shape
     links :=
       [⟨0, 1, .east, .west, none, [], .finish⟩, ⟨0, 0, .north, .north, none, [], .finish⟩] },
   { index := 1
     identifier := "b"
     row := 0
     col := 1
     label := some "x"
     text := none
     classes := []
     shape := .rect
     links := [] }]

theorem exists_loopedRectangle (hm : m.Positive) : ∃ grid chart,
    ofDocument m loopedRectangle = .ok chart ∧
      ofNodes m grid (loopedNodes none none .rect) = .ok chart :=
  exists_ofDocument hm rfl (fun _ _ => rfl) (by decide)

theorem exists_loopedCircle (hm : m.Positive) : ∃ grid chart,
    ofDocument m loopedCircle = .ok chart ∧
      ofNodes m grid (loopedNodes (some "me") (some "Go") .circle) = .ok chart :=
  exists_ofDocument hm rfl (fun _ _ => rfl) (by decide)

/-- The charts of two texts, one of which has a circle in the place of a rectangle. -/
theorem slides_of_courses_circle :
    let m : Metrics ℝ := ⟨200, 100, 50, 50⟩
    (m.Positive ∧ ∀ a, 2 / 10 ^ 9 ≤ m.gap a) ∧
    ∃ d d' chart chart',
      Document.read "grid \x7b a(connect: \x7b e:w#x; n:n@ \x7d), b#x; \x7d" = .ok d ∧
      Document.read
        "grid \x7b a#me(\"Go\", shape: circle, connect: \x7b e:w#x; n:n#me \x7d), b#x; \x7d" =
        .ok d' ∧
      ofDocument m d = .ok chart ∧ ofDocument m d' = .ok chart' ∧
      d'.rows.length = d.rows.length ∧ d'.columnCount = d.columnCount ∧
      (∀ row col, d'.IsOccupied row col ↔ d.IsOccupied row col) ∧ chart'.courses = chart.courses ∧
      chart.Slides chart' := by
  intro m
  have hm : m.Positive := Metrics.positive_standard
  have hgap : ∀ a, 2 / 10 ^ 9 ≤ m.gap a := Metrics.le_gap_standard
  obtain ⟨grid, chart, hc, hchart⟩ := exists_loopedRectangle hm
  obtain ⟨grid', chart', hc', hchart'⟩ := exists_loopedCircle hm
  have hcells (row col : Int) :
      loopedCircle.IsOccupied row col ↔ loopedRectangle.IsOccupied row col := by
    rw [Document.isOccupied_iff_mem_places, Document.isOccupied_iff_mem_places]
    rfl
  have hcourses : chart'.courses = chart.courses := by
    rw [courses_of_ofNodes hchart, courses_of_ofNodes hchart']
    rfl
  exact ⟨⟨hm, hgap⟩, _, _, chart, chart', read_loopedRectangle, read_loopedCircle, hc, hc', rfl,
    rfl, hcells, hcourses, slides_of_courses hm hgap hc hc' rfl rfl hcells hcourses⟩

end Chart
end FlowGrid
