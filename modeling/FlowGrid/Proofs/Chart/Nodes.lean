import FlowGrid.Chart
import FlowGrid.Proofs.Document.Cells
import FlowGrid.Proofs.Grid.Filling

/-! The nodes of a chart in its grid. The places of the drafts are distinct and lie within the
grid, so filling it succeeds, and every node sits in its cell with no other one. -/

namespace FlowGrid

/-! ### The grid of a document -/

/-- A place as a position in a grid. -/
def position (p : Nat × Nat) : Int × Int := (p.1, p.2)

theorem position_injective {a b : Nat × Nat} (h : position a = position b) : a = b := by
  cases a
  cases b
  simp only [position, Prod.mk.injEq] at h ⊢
  omega

namespace Document

variable {d : Document} {drafts : List Draft}

theorem positions_of_drafts (h : d.drafts = .ok drafts) :
    (drafts.map fun draft => ((draft.row : Int), (draft.col : Int))) = d.places.map position := by
  rw [← places_of_drafts h, List.map_map]
  rfl

theorem inBounds_of_mem_places (d : Document) {p : Nat × Nat} (hp : p ∈ d.places) :
    (Grid.empty d.rows.length d.columnCount : Grid Nat).inBounds p.1 p.2 = true := by
  obtain ⟨hrow, hcol⟩ := lt_of_mem_places hp
  rw [Grid.inBounds_iff, Grid.empty]
  dsimp only
  omega

/-- The nodes of a document always fit into its grid. -/
theorem exists_grid (h : d.drafts = .ok drafts) : ∃ grid, d.grid drafts = .ok grid := by
  rw [grid, Grid.ofPositions, positions_of_drafts h]
  apply Grid.exists_placeFrom
  intro p hp
  obtain ⟨place, hplace, rfl⟩ := List.mem_map.mp hp
  exact d.inBounds_of_mem_places hplace

/-- The grid of a document has its rows and as many columns as its longest row. -/
theorem limits_of_grid {grid : Grid Nat} (h : d.grid drafts = .ok grid) :
    grid.rows = d.rows.length ∧ grid.cols = d.columnCount :=
  Grid.limits_of_placeFrom h

end Document

/-! ### Seats -/

/-- Every node knows its index and sits in a cell of the grid that holds this index. -/
structure Seating (grid : Grid Nat) (nodes : List Node) : Prop where
  index {i : Nat} {node : Node} : nodes[i]? = some node → node.index = i
  inBounds {node : Node} : node ∈ nodes → grid.inBounds node.row node.col = true
  get? {node : Node} : node ∈ nodes → grid.get? node.row node.col = some node.index

theorem Seating.eq_of_index {grid : Grid Nat} {nodes : List Node} (hs : Seating grid nodes)
    {a b : Node} (ha : a ∈ nodes) (hb : b ∈ nodes) (hindex : a.index = b.index) : a = b := by
  obtain ⟨i, hi⟩ := List.mem_iff_getElem?.mp ha
  obtain ⟨j, hj⟩ := List.mem_iff_getElem?.mp hb
  rw [hs.index hi, hs.index hj] at hindex
  rw [hindex, hj] at hi
  exact Option.some.inj hi.symm

/-- A node has a cell to itself. -/
theorem Seating.eq_of_cell {grid : Grid Nat} {nodes : List Node} (hs : Seating grid nodes)
    {a b : Node} (ha : a ∈ nodes) (hb : b ∈ nodes) (hrow : a.row = b.row) (hcol : a.col = b.col) :
    a = b := by
  have hget := hs.get? ha
  rw [hrow, hcol, hs.get? hb] at hget
  exact hs.eq_of_index ha hb (Option.some.inj hget.symm)

namespace Node

variable {labels : List (String × Nat)} {grid : Grid Nat} {i : Nat} {d : Draft} {node : Node}

theorem place_of_ofDraft (h : Node.ofDraft labels grid i d = .ok node) :
    node.index = i ∧ node.row = d.row ∧ node.col = d.col := by
  obtain ⟨links, _, h⟩ := Result.bind_eq_ok_iff.mp h
  cases h
  exact ⟨rfl, rfl, rfl⟩

theorem exists_draft_of_ofDrafts {drafts : List Draft} {nodes : List Node}
    (h : Node.ofDrafts drafts grid = .ok nodes) (hi : nodes[i]? = some node) :
    ∃ draft, drafts[i]? = some draft ∧
      node.index = i ∧ node.row = draft.row ∧ node.col = draft.col := by
  obtain ⟨labels, _, h⟩ := Result.bind_eq_ok_iff.mp h
  obtain ⟨⟨draft, j⟩, hj, hnode⟩ := Result.exists_of_mapM h hi
  rw [List.getElem?_zipIdx, Nat.zero_add, Option.map_eq_some_iff] at hj
  obtain ⟨_, hdraft, hj⟩ := hj
  cases hj
  exact ⟨draft, hdraft, place_of_ofDraft hnode⟩

end Node

/-- The nodes of a document are seated in its grid. -/
theorem Document.seating {d : Document} {drafts : List Draft} {grid : Grid Nat}
    {nodes : List Node} (hd : d.drafts = .ok drafts) (hg : d.grid drafts = .ok grid)
    (hn : Node.ofDrafts drafts grid = .ok nodes) : Seating grid nodes := by
  rw [Document.grid, Grid.ofPositions, positions_of_drafts hd] at hg
  have hplace {i : Nat} {node : Node} (hi : nodes[i]? = some node) :
      node.index = i ∧ d.places[i]? = some (node.row, node.col) := by
    obtain ⟨draft, hdraft, hindex, hrow, hcol⟩ := Node.exists_draft_of_ofDrafts hn hi
    rw [← places_of_drafts hd, List.getElem?_map, hdraft, hrow, hcol]
    exact ⟨hindex, rfl⟩
  refine ⟨fun hi => (hplace hi).1, fun hnode => ?_, fun hnode => ?_⟩
  · obtain ⟨i, hi⟩ := List.mem_iff_getElem?.mp hnode
    have hin := d.inBounds_of_mem_places (List.mem_of_getElem? (hplace hi).2)
    rw [Grid.inBounds_iff] at hin ⊢
    rwa [(Grid.limits_of_placeFrom hg).1, (Grid.limits_of_placeFrom hg).2]
  · obtain ⟨i, hi⟩ := List.mem_iff_getElem?.mp hnode
    obtain ⟨rfl, hp⟩ := hplace hi
    have hnodup : (d.places.map position).Nodup :=
      List.pairwise_map.mpr (d.nodup_places.imp fun hne h => hne (position_injective h))
    have hget := Grid.get?_of_placeFrom hg hnodup (by rw [List.getElem?_map, hp]; rfl)
    rwa [Nat.zero_add] at hget

/-! ### Charts -/

section Charts

variable {α : Type} [Scalar α] {m : Metrics α} {grid : Grid Nat} {nodes : List Node}

theorem Route.eq_of_ofLink {source : Node} {link : Link} {route : Route α}
    (h : Route.ofLink m grid nodes source link = .ok route) :
    route.link = link ∧ ∃ target, nodes[link.target]? = some target ∧
      linkPath m grid source target link = .ok route.points ∧
      Arrowhead.ofPath route.points link.arrowheads Arrowhead.defaultSize =
        .ok route.arrowheads := by
  unfold Route.ofLink at h
  split at h
  · cases h
  · rename_i target htarget
    obtain ⟨points, hpoints, h⟩ := Result.bind_eq_ok_iff.mp h
    obtain ⟨arrowheads, harrowheads, h⟩ := Result.bind_eq_ok_iff.mp h
    cases h
    exact ⟨rfl, target, htarget, hpoints, Result.mapError_eq_ok_iff.mp harrowheads⟩

theorem Placement.eq_of_ofNode {node : Node} {placement : Placement α}
    (h : Placement.ofNode m grid nodes node = .ok placement) :
    placement.node = node ∧ placement.box = m.cellBox node.row node.col ∧
      node.links.mapM (Route.ofLink m grid nodes node) = .ok placement.routes := by
  obtain ⟨routes, hroutes, h⟩ := Result.bind_eq_ok_iff.mp h
  cases h
  exact ⟨rfl, rfl, hroutes⟩

/-- The routes of a node are those of its links. -/
theorem Placement.map_link_of_ofNode {node : Node} {placement : Placement α}
    (h : Placement.ofNode m grid nodes node = .ok placement) :
    placement.routes.map Route.link = node.links := by
  have hlinks : List.Forall₂ (fun link route => link = route.link) node.links placement.routes :=
    (Result.forall₂_of_mapM (eq_of_ofNode h).2.2).imp fun _ _ h => (Route.eq_of_ofLink h).1.symm
  rw [← List.forall₂_map_right_iff, List.forall₂_eq_eq_eq] at hlinks
  exact hlinks.symm

namespace Chart

variable {chart : Chart α}

theorem eq_of_ofNodes (h : ofNodes m grid nodes = .ok chart) :
    chart.width = m.canvasWidth grid.cols ∧ chart.height = m.canvasHeight grid.rows ∧
      nodes.mapM (Placement.ofNode m grid nodes) = .ok chart.placements := by
  obtain ⟨placements, hplacements, h⟩ := Result.bind_eq_ok_iff.mp h
  cases h
  exact ⟨rfl, rfl, hplacements⟩

theorem map_node_of_ofNodes (h : ofNodes m grid nodes = .ok chart) :
    chart.placements.map Placement.node = nodes := by
  have hnodes : List.Forall₂ (fun node placement => node = placement.node) nodes
      chart.placements :=
    (Result.forall₂_of_mapM (eq_of_ofNodes h).2.2).imp fun _ _ h =>
      (Placement.eq_of_ofNode h).1.symm
  rw [← List.forall₂_map_right_iff, List.forall₂_eq_eq_eq] at hnodes
  exact hnodes.symm

/-- The placement at an index is that of the node at the index. -/
theorem placement_eq (h : ofNodes m grid nodes = .ok chart) {i : Nat} {placement : Placement α}
    (hi : chart.placements[i]? = some placement) : nodes[i]? = some placement.node ∧
      placement.box = m.cellBox placement.node.row placement.node.col := by
  obtain ⟨node, hnode, hplacement⟩ := Result.exists_of_mapM (eq_of_ofNodes h).2.2 hi
  obtain ⟨rfl, hbox, -⟩ := Placement.eq_of_ofNode hplacement
  exact ⟨hnode, hbox⟩

/-- The routes of the nodes are those of their links, in order. -/
theorem links_of_ofNodes (h : ofNodes m grid nodes = .ok chart) :
    ∀ p ∈ chart.placements, p.routes.map Route.link = p.node.links := by
  intro p hp
  obtain ⟨i, hi⟩ := List.mem_iff_getElem?.mp hp
  obtain ⟨node, -, hplacement⟩ := Result.exists_of_mapM (eq_of_ofNodes h).2.2 hi
  rw [Placement.map_link_of_ofNode hplacement, (Placement.eq_of_ofNode hplacement).1]

/-- Every link of a node has a route. -/
theorem exists_route_of_ofNodes (h : ofNodes m grid nodes = .ok chart) {i : Nat} {node : Node}
    (hi : nodes[i]? = some node) {link : Link} (hlink : link ∈ node.links) :
    ∃ source, chart.placements[i]? = some source ∧ ∃ route ∈ source.routes, route.link = link := by
  obtain ⟨source, hsource, hplacement⟩ := Result.exists_result_of_mapM (eq_of_ofNodes h).2.2 hi
  rw [← Placement.map_link_of_ofNode hplacement, List.mem_map] at hlink
  exact ⟨source, hsource, hlink⟩

/-- Every route is made from its link. -/
theorem ofLink_eq (h : ofNodes m grid nodes = .ok chart) {i : Nat} {source : Placement α}
    (hi : chart.placements[i]? = some source) {route : Route α} (hr : route ∈ source.routes) :
    Route.ofLink m grid nodes source.node route.link = .ok route := by
  obtain ⟨node, -, hplacement⟩ := Result.exists_of_mapM (eq_of_ofNodes h).2.2 hi
  obtain ⟨rfl, -, hroutes⟩ := Placement.eq_of_ofNode hplacement
  obtain ⟨k, hk⟩ := List.mem_iff_getElem?.mp hr
  obtain ⟨link, -, hroute⟩ := Result.exists_of_mapM hroutes hk
  obtain ⟨rfl, -⟩ := Route.eq_of_ofLink hroute
  exact hroute

/-- A route joins the nodes of two placements by the path of its link. -/
theorem route_eq (h : ofNodes m grid nodes = .ok chart) {i : Nat} {source : Placement α}
    (hi : chart.placements[i]? = some source) {route : Route α} (hr : route ∈ source.routes) :
    ∃ target, chart.placements[route.link.target]? = some target ∧
      linkPath m grid source.node target.node route.link = .ok route.points := by
  obtain ⟨-, node, hnode, hpath, -⟩ := Route.eq_of_ofLink (ofLink_eq h hi hr)
  obtain ⟨target, htarget, hplacement⟩ := Result.exists_result_of_mapM (eq_of_ofNodes h).2.2 hnode
  obtain ⟨rfl, -, -⟩ := Placement.eq_of_ofNode hplacement
  exact ⟨target, htarget, hpath⟩

theorem arrowheads_eq (h : ofNodes m grid nodes = .ok chart) {i : Nat} {source : Placement α}
    (hi : chart.placements[i]? = some source) {route : Route α} (hr : route ∈ source.routes) :
    Arrowhead.ofPath route.points route.link.arrowheads Arrowhead.defaultSize =
      .ok route.arrowheads := by
  obtain ⟨-, node, -, -, harrowheads⟩ := Route.eq_of_ofLink (ofLink_eq h hi hr)
  exact harrowheads

/-- The chart of a document is made from the nodes of its drafts in its grid. -/
theorem exists_nodes_of_ofDocument {d : Document} (h : ofDocument m d = .ok chart) :
    ∃ drafts grid nodes, d.drafts = .ok drafts ∧ d.grid drafts = .ok grid ∧
      Node.ofDrafts drafts grid = .ok nodes ∧ ofNodes m grid nodes = .ok chart := by
  obtain ⟨drafts, hd, h⟩ := Result.bind_eq_ok_iff.mp h
  obtain ⟨grid, hg, h⟩ := Result.bind_eq_ok_iff.mp h
  obtain ⟨nodes, hn, h⟩ := Result.bind_eq_ok_iff.mp h
  exact ⟨drafts, grid, nodes, Result.mapError_eq_ok_iff.mp hd, Result.mapError_eq_ok_iff.mp hg,
    Result.mapError_eq_ok_iff.mp hn, h⟩

theorem ofDocument_eq_ok_iff {d : Document} : ofDocument m d = .ok chart ↔
    ∃ drafts grid nodes, d.drafts = .ok drafts ∧ d.grid drafts = .ok grid ∧
      Node.ofDrafts drafts grid = .ok nodes ∧ ofNodes m grid nodes = .ok chart := by
  refine ⟨exists_nodes_of_ofDocument, fun ⟨drafts, grid, nodes, hd, hg, hn, hchart⟩ => ?_⟩
  refine Result.bind_eq_ok_iff.mpr ⟨drafts, Result.mapError_eq_ok_iff.mpr hd, ?_⟩
  refine Result.bind_eq_ok_iff.mpr ⟨grid, Result.mapError_eq_ok_iff.mpr hg, ?_⟩
  exact Result.bind_eq_ok_iff.mpr ⟨nodes, Result.mapError_eq_ok_iff.mpr hn, hchart⟩

theorem compile_of_read {text : String} {d : Document} (hread : Document.read text = .ok d)
    (h : ofDocument m d = .ok chart) : compile m text = .ok chart :=
  Result.bind_eq_ok_iff.mpr ⟨d, Result.mapError_eq_ok_iff.mpr hread, h⟩

theorem exists_document_of_compile {text : String} (h : compile m text = .ok chart) :
    ∃ d, Document.read text = .ok d ∧ ofDocument m d = .ok chart := by
  obtain ⟨d, hread, h⟩ := Result.bind_eq_ok_iff.mp h
  exact ⟨d, Result.mapError_eq_ok_iff.mp hread, h⟩

/-- A chart is made from nodes that are seated in a grid. -/
theorem exists_seating_of_compile {text : String} (h : compile m text = .ok chart) :
    ∃ grid nodes, Seating grid nodes ∧ ofNodes m grid nodes = .ok chart := by
  obtain ⟨d, -, h⟩ := exists_document_of_compile h
  obtain ⟨drafts, grid, nodes, hd, hg, hn, h⟩ := exists_nodes_of_ofDocument h
  exact ⟨grid, nodes, Document.seating hd hg hn, h⟩

end Chart
end Charts
end FlowGrid
