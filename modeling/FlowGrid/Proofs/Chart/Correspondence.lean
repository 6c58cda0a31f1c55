import Mathlib
import FlowGrid.Proofs.Chart.Path
import FlowGrid.Proofs.Chart.Positions
import FlowGrid.Proofs.Chart.References

/-! From cells to placements. Every occupied cell of a document becomes one node, in reading
order, every intent of its draft one link, and every link one route, while the later stages only
add boxes, points and arrowheads. Empty cells at the end of a row change nothing, as the places of
the occupied ones and the length of the longest row stay the same. A text that is padded spells the
padded document, apart from the positions of what follows. -/

namespace FlowGrid

/-! ### Padding -/

namespace Document

/-- The second document has the rows of the first one with empty cells added at the end of some,
none of which becomes longer than the longest row. -/
structure Pads (d d' : Document) : Prop where
  definitions : d'.definitions = d.definitions
  rows : List.Forall₂ (fun cells cells' => (∃ n, cells' = cells ++ List.replicate n none) ∧
    cells'.length ≤ d.columnCount) d.rows d'.rows

variable {d d' : Document}

theorem occurrencesOfRow_append_replicate (row : Nat) (cells : List Cell) (n : Nat) :
    occurrencesOfRow row (cells ++ List.replicate n none) = occurrencesOfRow row cells := by
  rw [occurrencesOfRow, List.zipIdx_append, List.filterMap_append, ← occurrencesOfRow,
    List.append_right_eq_self]
  refine List.filterMap_eq_nil_iff.mpr fun p hp => ?_
  have hnone : p.1 = none := List.eq_of_mem_replicate (List.fst_mem_of_mem_zipIdx hp)
  simp [hnone]

theorem flatMap_occurrencesOfRow_eq {rows rows' : List (List Cell)}
    (h : List.Forall₂ (fun cells cells' => ∃ n, cells' = cells ++ List.replicate n none) rows rows')
    (row : Nat) : ((rows'.zipIdx row).flatMap fun p => occurrencesOfRow p.2 p.1) =
      (rows.zipIdx row).flatMap fun p => occurrencesOfRow p.2 p.1 := by
  induction h generalizing row with
  | nil => rfl
  | cons hcells _ ih =>
    obtain ⟨n, rfl⟩ := hcells
    rw [List.zipIdx_cons, List.zipIdx_cons, List.flatMap_cons, List.flatMap_cons, ih,
      occurrencesOfRow_append_replicate]

theorem foldl_max_le {l : List Nat} {n k : Nat} (hn : n ≤ k) (h : ∀ a ∈ l, a ≤ k) :
    l.foldl max n ≤ k := by
  induction l generalizing n with
  | nil => exact hn
  | cons a l ih =>
    obtain ⟨ha, h⟩ := List.forall_mem_cons.mp h
    exact ih (Nat.max_le.mpr ⟨hn, ha⟩) h

theorem columnCount_le {n : Nat} (h : ∀ cells ∈ d.rows, cells.length ≤ n) : d.columnCount ≤ n := by
  refine foldl_max_le (Nat.zero_le n) fun k hk => ?_
  obtain ⟨cells, hcells, rfl⟩ := List.mem_map.mp hk
  exact h cells hcells

namespace Pads

theorem columnCount_eq (h : d.Pads d') : d'.columnCount = d.columnCount := by
  refine Nat.le_antisymm (columnCount_le fun cells' hcells' => ?_)
    (columnCount_le fun cells hcells => ?_)
  · obtain ⟨i, hi, rfl⟩ := List.getElem_of_mem hcells'
    exact (h.rows.get (h.rows.length_eq ▸ hi) hi).2
  · obtain ⟨i, hi, rfl⟩ := List.getElem_of_mem hcells
    have hi' := h.rows.length_eq ▸ hi
    obtain ⟨⟨n, hn⟩, -⟩ := h.rows.get hi hi'
    have hle := length_le_columnCount (List.getElem_mem hi')
    rw [List.get_eq_getElem, List.get_eq_getElem] at hn
    rw [hn, List.length_append] at hle
    exact Nat.le_trans (Nat.le_add_right _ _) hle

theorem occurrences_eq (h : d.Pads d') : d'.occurrences = d.occurrences :=
  flatMap_occurrencesOfRow_eq (h.rows.imp fun _ _ hcells => hcells.1) 0

theorem drafts_eq (h : d.Pads d') : d'.drafts = d.drafts := by
  rw [drafts, drafts, h.definitions, h.occurrences_eq]

theorem grid_eq (h : d.Pads d') (drafts : List Draft) : d'.grid drafts = d.grid drafts := by
  rw [grid, grid, h.columnCount_eq, h.rows.length_eq]

/-- A padded document has the same chart, or the same fault. -/
theorem ofDocument_eq {α : Type} [Scalar α] (h : d.Pads d') (m : Metrics α) :
    Chart.ofDocument m d' = Chart.ofDocument m d := by
  unfold Chart.ofDocument
  simp only [h.drafts_eq, h.grid_eq]

end Pads
end Document

/-! ### Nodes and their drafts -/

/-- The link keeps what its draft says and starts at the node of the given index. -/
structure Link.Keeps (link : Link) (i : Nat) (draft : LinkDraft) : Prop where
  source : link.source = i
  sourceSide : link.sourceSide = draft.sourceSide
  targetSide : link.targetSide = draft.targetSide
  text : link.text = draft.text
  classes : link.classes = draft.classes
  arrowheads : link.arrowheads = draft.arrowheads

/-- The node keeps what its draft says and has the given index. -/
structure Node.Keeps (node : Node) (i : Nat) (draft : Draft) : Prop where
  index : node.index = i
  identifier : node.identifier = draft.identifier
  row : node.row = draft.row
  col : node.col = draft.col
  label : node.label = draft.label
  text : node.text = draft.text
  classes : node.classes = draft.classes
  shape : node.shape = draft.shape
  links : List.Forall₂ (fun intent link => link.Keeps i intent) draft.links node.links

section Nodes

variable {labels : List (String × Nat)} {grid : Grid Nat} {i : Nat} {draft : Draft}

theorem Link.keeps_of_ofDraft {intent : LinkDraft} {link : Link}
    (h : Link.ofDraft labels grid i draft intent = .ok link) : link.Keeps i intent := by
  obtain ⟨target, -, h⟩ := Result.bind_eq_ok_iff.mp h
  cases h
  exact ⟨rfl, rfl, rfl, rfl, rfl, rfl⟩

theorem Node.keeps_of_ofDraft {node : Node} (h : Node.ofDraft labels grid i draft = .ok node) :
    node.Keeps i draft := by
  obtain ⟨links, hlinks, h⟩ := Result.bind_eq_ok_iff.mp h
  cases h
  exact ⟨rfl, rfl, rfl, rfl, rfl, rfl, rfl, rfl,
    (Result.forall₂_of_mapM hlinks).imp fun _ _ => Link.keeps_of_ofDraft⟩

theorem Node.keeps_of_ofDrafts {drafts : List Draft} {nodes : List Node}
    (h : Node.ofDrafts drafts grid = .ok nodes) :
    List.Forall₂ (fun p node => node.Keeps p.2 p.1) drafts.zipIdx nodes := by
  obtain ⟨labels, -, h⟩ := Result.bind_eq_ok_iff.mp h
  exact (Result.forall₂_of_mapM h).imp fun _ _ => Node.keeps_of_ofDraft

/-- What the drafts and their nodes agree on is the same list for both. -/
theorem Node.map_eq_of_keeps {β : Type} {f : Draft → β} {g : Node → β}
    (hfg : ∀ {node : Node} {i : Nat} {draft : Draft}, node.Keeps i draft → g node = f draft)
    {drafts : List Draft} {nodes : List Node}
    (h : List.Forall₂ (fun p node => node.Keeps p.2 p.1) drafts.zipIdx nodes) :
    nodes.map g = drafts.map f := by
  have heq : List.Forall₂ (fun p node => f p.1 = g node) drafts.zipIdx nodes :=
    h.imp fun _ _ hkeeps => (hfg hkeeps).symm
  have hmap : drafts.map f = drafts.zipIdx.map fun p => f p.1 := by
    rw [← Function.comp_def f Prod.fst, ← List.map_map, List.zipIdx_map_fst]
  rw [hmap]
  rw [← List.forall₂_map_right_iff, ← List.forall₂_map_left_iff, List.forall₂_eq_eq_eq] at heq
  exact heq.symm

/-- The nodes have the places, identifiers and labels of the occupied cells. -/
theorem Node.map_cell_of_keeps {d : Document} {drafts : List Draft} (hd : d.drafts = .ok drafts)
    {nodes : List Node}
    (h : List.Forall₂ (fun p node => node.Keeps p.2 p.1) drafts.zipIdx nodes) :
    (nodes.map fun node => (node.row, node.col, node.identifier, node.label)) =
      d.occurrences.map fun (row, col, cell) => (row, col, cell.identifier, cell.label) := by
  rw [Node.map_eq_of_keeps (f := fun draft => (draft.row, draft.col, draft.identifier, draft.label))
    (fun h => by rw [h.row, h.col, h.identifier, h.label]) h]
  obtain ⟨_, -, hcells⟩ := Result.bind_eq_ok_iff.mp hd
  rw [Document.draftCells_eq_ok hcells, List.map_map]
  rfl

end Nodes

/-! ### Charts -/

section Charts

variable {α : Type}

def Chart.nodes (chart : Chart α) : List Node := chart.placements.map Placement.node

/-- The node of an occupied cell. -/
structure Node.IsOf (node : Node) (row col : Nat) (cell : Occurrence) : Prop where
  row : node.row = row
  col : node.col = col
  identifier : node.identifier = cell.identifier
  label : node.label = cell.label

variable [Scalar α] {m : Metrics α} {chart : Chart α}

/-- How a chart stands for the cells of a document and their drafts. -/
structure Chart.Renders (m : Metrics α) (d : Document) (drafts : List Draft) (chart : Chart α) :
    Prop where
  /-- Every occupied cell has a node. -/
  exists_node {row col : Nat} {cells : List Cell} {cell : Occurrence} : d.rows[row]? = some cells →
    cells[col]? = some (some cell) → ∃ node ∈ chart.nodes, node.IsOf row col cell
  /-- Every node has an occupied cell. -/
  exists_cell {node : Node} : node ∈ chart.nodes → ∃ row col cells cell, d.rows[row]? = some cells ∧
    cells[col]? = some (some cell) ∧ node.IsOf row col cell
  /-- The nodes are in reading order, so no two of them share a cell. -/
  ordered : chart.nodes.Pairwise fun a b => Before (a.row, a.col) (b.row, b.col)
  index {i : Nat} {node : Node} : chart.nodes[i]? = some node → node.index = i
  /-- No label is carried twice. -/
  labels : (chart.nodes.filterMap (·.label)).Nodup
  /-- The nodes are those of the drafts in turn, with one link for each intent. -/
  drafted : List.Forall₂ (fun p node => node.Keeps p.2 p.1) drafts.zipIdx chart.nodes
  /-- Every link leads to a node. -/
  target {node : Node} {link : Link} : node ∈ chart.nodes → link ∈ node.links →
    link.target < chart.nodes.length
  /-- Layout and routes change nothing of the nodes. -/
  resolved : ∃ grid, d.grid drafts = .ok grid ∧ Node.ofDrafts drafts grid = .ok chart.nodes
  /-- Layout puts every node into its cell. -/
  box {p : Placement α} : p ∈ chart.placements → p.box = m.cellBox p.node.row p.node.col
  /-- There is one route for each link. -/
  routes {p : Placement α} : p ∈ chart.placements → p.routes.map Route.link = p.node.links

/-- Nothing of a document is lost, doubled or moved on the way to its chart. -/
theorem Chart.exists_renders {d : Document} (h : ofDocument m d = .ok chart) :
    ∃ drafts, d.drafts = .ok drafts ∧ chart.Renders m d drafts := by
  obtain ⟨drafts, grid, nodes, hd, hg, hn, hchart⟩ := exists_nodes_of_ofDocument h
  obtain rfl : chart.nodes = nodes := map_node_of_ofNodes hchart
  have hkeeps := Node.keeps_of_ofDrafts hn
  have hcells := Node.map_cell_of_keeps hd hkeeps
  have hmem (row col : Nat) (identifier : String) (label : Option String) :
      (∃ node ∈ chart.nodes, node.row = row ∧ node.col = col ∧ node.identifier = identifier ∧
        node.label = label) ↔ ∃ cell, (row, col, cell) ∈ d.occurrences ∧
          cell.identifier = identifier ∧ cell.label = label := by
    have := congrArg ((row, col, identifier, label) ∈ ·) hcells
    simpa [eq_comm] using this
  refine ⟨drafts, hd, ?_⟩
  exact {
    exists_node := by
      intro row col cells cell hrow hcol
      obtain ⟨node, hnode, hplace⟩ := (hmem row col cell.identifier cell.label).mpr
        ⟨cell, Document.mem_occurrences.mpr ⟨cells, hrow, hcol⟩, rfl, rfl⟩
      exact ⟨node, hnode, hplace.1, hplace.2.1, hplace.2.2.1, hplace.2.2.2⟩
    exists_cell := by
      intro node hnode
      obtain ⟨cell, hcell, hidentifier, hlabel⟩ :=
        (hmem node.row node.col node.identifier node.label).mp ⟨node, hnode, rfl, rfl, rfl, rfl⟩
      obtain ⟨cells, hrow, hcol⟩ := Document.mem_occurrences.mp hcell
      exact ⟨node.row, node.col, cells, cell, hrow, hcol, rfl, rfl, hidentifier.symm, hlabel.symm⟩
    ordered := by
      have hplaces := Node.map_eq_of_keeps (f := fun draft => (draft.row, draft.col))
        (g := fun node => (node.row, node.col)) (fun h => by rw [h.row, h.col]) hkeeps
      rw [Document.places_of_drafts hd] at hplaces
      exact List.pairwise_map.mp (hplaces ▸ d.pairwise_places)
    index := (Document.seating hd hg hn).index
    labels := by
      have hlabels : chart.nodes.map Node.label = drafts.map Draft.label :=
        Node.map_eq_of_keeps Node.Keeps.label hkeeps
      have hnames : chart.nodes.filterMap (·.label) = labelNames drafts := by
        have := congrArg (List.filterMap id) hlabels
        rwa [List.filterMap_map, List.filterMap_map] at this
      rw [hnames]
      exact Document.nodup_of_ofDrafts hn
    drafted := hkeeps
    target := fun hnode hlink => Document.target_lt_of_ofDrafts hd hg hn hnode hlink
    resolved := ⟨grid, hg, hn⟩
    box := by
      intro p hp
      obtain ⟨i, hi⟩ := List.mem_iff_getElem?.mp hp
      exact (placement_eq hchart hi).2
    routes := links_of_ofNodes hchart _ }

/-- A document that is padded, and laid out in another way, has the same chart. -/
theorem Chart.ofDocument_of_pads {d d' : Document} (hpads : d.unlocated.Pads d'.unlocated)
    (h : ofDocument m d = .ok chart) : ofDocument m d' = .ok chart := by
  rw [← ofDocument_unlocated, hpads.ofDocument_eq, ofDocument_unlocated]
  exact h

/-- The chart of a text renders the document that is read from it. It is also the chart of that
document with its rows padded, and of every text that spells the padded document. -/
theorem Chart.renders_of_compile {text : String} (h : compile m text = .ok chart) :
    ∃ d drafts, Document.read text = .ok d ∧ d.drafts = .ok drafts ∧ chart.Renders m d drafts ∧
      ∀ d', d.unlocated.Pads d'.unlocated → ofDocument m d' = .ok chart ∧
        ∀ text', Document.read text' = .ok d' → compile m text' = .ok chart := by
  obtain ⟨d, hread, h⟩ := exists_document_of_compile h
  obtain ⟨drafts, hd, hrenders⟩ := exists_renders h
  refine ⟨d, drafts, hread, hd, hrenders, fun d' hpads => ?_⟩
  have hpadded := ofDocument_of_pads hpads h
  exact ⟨hpadded, fun text' hread' => compile_of_read hread' hpadded⟩

/-- Two rows of cells with a link between them. The first row ends with `n` empty cells, and the
last cell begins at `p`. -/
def raggedText (n : Nat) (p : Position) : Document where
  rows :=
    [some ⟨"a", none, [⟨.connect [⟨.south, .north, .label "x", [], ⟨20, 1, 21⟩⟩], ⟨9, 1, 10⟩⟩],
        ⟨7, 1, 8⟩⟩ :: List.replicate n none,
      [none, some ⟨"b", some "x", [], p⟩]]
  definitions := []

theorem read_ragged :
    Document.read "grid \x7b a(connect: \x7b s:n#x; \x7d); _, b#x; \x7d" =
      .ok (raggedText 0 ⟨34, 1, 35⟩) := by
  cbv

theorem read_padded :
    Document.read "grid \x7b a(connect: \x7b s:n#x; \x7d), _; _, b#x; \x7d" =
      .ok (raggedText 1 ⟨37, 1, 38⟩) := by
  cbv

/-- The chart of a text of two rows, and of the text with the first one padded. -/
theorem renders_of_ragged :
    ∃ (m : Metrics ℝ) (chart : Chart ℝ) (drafts : List Draft),
      Chart.compile m "grid \x7b a(connect: \x7b s:n#x; \x7d); _, b#x; \x7d" = .ok chart ∧
      (raggedText 0 ⟨34, 1, 35⟩).drafts = .ok drafts ∧
      chart.Renders m (raggedText 0 ⟨34, 1, 35⟩) drafts ∧
      Chart.compile m "grid \x7b a(connect: \x7b s:n#x; \x7d), _; _, b#x; \x7d" = .ok chart := by
  obtain ⟨-, chart, hc, -⟩ := Chart.exists_compile Metrics.positive_standard read_ragged rfl
    (fun _ _ => rfl) (by decide)
  obtain ⟨d, drafts, hread, hd, hrenders, hpadded⟩ := Chart.renders_of_compile hc
  obtain rfl : d = raggedText 0 ⟨34, 1, 35⟩ := Except.ok.inj (hread.symm.trans read_ragged)
  have hpads : (raggedText 0 ⟨34, 1, 35⟩).unlocated.Pads (raggedText 1 ⟨37, 1, 38⟩).unlocated :=
    ⟨rfl, .cons ⟨⟨1, rfl⟩, by decide⟩ (.cons ⟨⟨0, rfl⟩, by decide⟩ .nil)⟩
  exact ⟨_, chart, drafts, hc, hd, hrenders, (hpadded _ hpads).2 _ read_padded⟩

end Charts
end FlowGrid
