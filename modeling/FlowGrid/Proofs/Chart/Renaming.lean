import Mathlib
import FlowGrid.Proofs.Chart.Path
import FlowGrid.Proofs.Document.Drafting

/-! Names in a document. Labels and identifiers only tell nodes and definitions apart: with other
names, none of which stands for two, a document has the chart that it had, or the fault that it
had. The stages may compare names and copy them, so each of them is carried over by itself, and
labels are never compared with identifiers. Positions are not even compared, so they may move. -/

namespace FlowGrid

open Result

/-! ### Other names -/

/-- Other names for labels and for identifiers; no two of a kind become one. -/
structure Renaming where
  label : String → String
  identifier : String → String
  label_injective : Function.Injective label
  identifier_injective : Function.Injective identifier

/-- A renaming that may move what it renames to other positions. -/
structure Rewriting extends Renaming where
  position : Position → Position

/-- Names as they are. -/
def Renaming.refl : Renaming := ⟨id, id, Function.injective_id, Function.injective_id⟩

def Destination.renamed (r : Renaming) : Destination → Destination
  | .label name => .label (r.label name)
  | d => d

section

variable (w : Rewriting)

def Located.rewritten {σ : Type} (f : σ → σ) (s : Located σ) : Located σ :=
  ⟨f s.value, w.position s.position⟩

def LinkSpec.rewritten (spec : LinkSpec) : LinkSpec :=
  { spec with
    destination := spec.destination.renamed w.toRenaming
    settings := spec.settings.map (.rewritten w id)
    position := w.position spec.position }

def NodeSetting.rewritten : NodeSetting → NodeSetting
  | .connect specs => .connect (specs.map (LinkSpec.rewritten w))
  | s => s

def Occurrence.rewritten (cell : Occurrence) : Occurrence where
  identifier := w.identifier cell.identifier
  label := cell.label.map w.label
  settings := cell.settings.map (.rewritten w (NodeSetting.rewritten w))
  position := w.position cell.position

def Definition.rewritten (d : Definition) : Definition where
  identifier := w.identifier d.identifier
  settings := d.settings.map (.rewritten w (NodeSetting.rewritten w))
  position := w.position d.position

def Document.rewritten (d : Document) : Document where
  rows := d.rows.map (List.map (Option.map (Occurrence.rewritten w)))
  definitions := d.definitions.map (Definition.rewritten w)

def LinkDraft.rewritten (link : LinkDraft) : LinkDraft :=
  { link with
    destination := link.destination.renamed w.toRenaming
    position := w.position link.position }

def Draft.rewritten (draft : Draft) : Draft :=
  { draft with
    identifier := w.identifier draft.identifier
    label := draft.label.map w.label
    links := draft.links.map (LinkDraft.rewritten w)
    position := w.position draft.position }

end

/-- The document with other names for its labels, where they are carried and where they are
destinations, and for its identifiers, in its cells and in its definitions. -/
def Document.renamed (r : Renaming) (d : Document) : Document :=
  d.rewritten { r with position := id }

section

variable (r : Renaming)

def Node.renamed (node : Node) : Node :=
  { node with identifier := r.identifier node.identifier, label := node.label.map r.label }

def Placement.renamed {α : Type} (p : Placement α) : Placement α :=
  { p with node := p.node.renamed r }

/-- The chart with other names on its nodes. -/
def Chart.renamed {α : Type} (chart : Chart α) : Chart α :=
  { chart with placements := chart.placements.map (Placement.renamed r) }

def Cause.renamed : Cause → Cause
  | .redefined identifier => .redefined (r.identifier identifier)
  | .duplicateLabel name => .duplicateLabel (r.label name)
  | .unresolvedLabel name => .unresolvedLabel (r.label name)
  | cause => cause

theorem Cause.kind_renamed (cause : Cause) : (cause.renamed r).kind = cause.kind := by
  cases cause <;> rfl

end

def Diagnostic.rewritten (w : Rewriting) (d : Diagnostic) : Diagnostic :=
  ⟨d.cause.renamed w.toRenaming, w.position d.position⟩

def Fault.rewritten (w : Rewriting) : Fault → Fault
  | .source d => .source (d.rewritten w)
  | fault => fault

variable {w : Rewriting}

/-! ### Settings -/

namespace NodeSetting

theorem key_rewritten (s : NodeSetting) : (s.rewritten w).key = s.key := by
  cases s <;> rfl

theorem text?_rewritten (s : NodeSetting) : (s.rewritten w).text? = s.text? := by
  cases s <;> rfl

theorem classes?_rewritten (s : NodeSetting) : (s.rewritten w).classes? = s.classes? := by
  cases s <;> rfl

theorem shape?_rewritten (s : NodeSetting) : (s.rewritten w).shape? = s.shape? := by
  cases s <;> rfl

theorem connect?_rewritten (s : NodeSetting) :
    (s.rewritten w).connect? = s.connect?.map (List.map (LinkSpec.rewritten w)) := by
  cases s <;> rfl

end NodeSetting

namespace Keyed

variable {α κ : Type} [DecidableEq κ] {key : α → κ} {e : α → α}

theorem repeatedAfter?_map (h : ∀ a, key (e a) = key a) (seen : List κ) (entries : List α) :
    repeatedAfter? key seen (entries.map e) = (repeatedAfter? key seen entries).map e := by
  induction entries generalizing seen with
  | nil => rfl
  | cons a entries ih =>
    rw [List.map_cons, repeatedAfter?, repeatedAfter?, h, ih]
    split_ifs <;> rfl

/-- Lists that are merged after a change of their entries that keeps the keys. -/
theorem merge_map (h : ∀ a, key (e a) = key a) (base own : List α) :
    merge key (base.map e) (own.map e) = (merge key base own).map e := by
  have hkeys : (base.map e).map key = base.map key := by
    rw [List.map_map]
    exact List.map_congr_left fun a _ => h a
  simp only [merge, hkeys, List.map_append, List.map_map, List.find?_map, List.filter_map,
    Function.comp_def, h, Option.getD_map]

end Keyed

namespace Draft

section Settings

variable {σ β : Type} {key : σ → String} {f : σ → σ}

theorem checkKeys_rewritten (hkey : ∀ v, key (f v) = key v) (settings : List (Located σ)) :
    checkKeys key (settings.map (.rewritten w f)) =
      both (Diagnostic.rewritten w) id (checkKeys key settings) := by
  have hrepeated : Keyed.repeated? (fun s : Located σ => key s.value)
      (settings.map (.rewritten w f)) =
        (Keyed.repeated? (fun s => key s.value) settings).map (.rewritten w f) :=
    Keyed.repeatedAfter?_map (fun s => hkey s.value) [] settings
  rw [checkKeys, checkKeys, hrepeated]
  cases Keyed.repeated? (fun s : Located σ => key s.value) settings with
  | none => rfl
  | some s =>
    have hs : key (s.rewritten w f).value = key s.value := hkey s.value
    simp only [Option.map_some, hs]
    rfl

theorem locate?_rewritten {pick : σ → Option β} (hpick : ∀ v, pick (f v) = pick v)
    (settings : List (Located σ)) : locate? pick (settings.map (.rewritten w f)) =
      (locate? pick settings).map (.rewritten w id) := by
  rw [locate?, locate?, List.findSome?_map, List.map_findSome?]
  refine congrArg (List.findSome? · settings) (funext fun s => ?_)
  have hs : pick (s.rewritten w f).value = pick s.value := hpick s.value
  rw [Function.comp_apply, Function.comp_apply, hs, Option.map_map]
  rfl

theorem pick?_rewritten {pick : σ → Option β} {g : β → β}
    (hpick : ∀ v, pick (f v) = (pick v).map g) (settings : List (Located σ)) :
    pick? pick (settings.map (.rewritten w f)) = (pick? pick settings).map g := by
  rw [pick?, pick?, List.findSome?_map, List.map_findSome?]
  exact congrArg (List.findSome? · settings) (funext fun s => hpick s.value)

theorem pick?_rewritten_eq {pick : σ → Option β} (hpick : ∀ v, pick (f v) = pick v)
    (settings : List (Located σ)) :
    pick? pick (settings.map (.rewritten w f)) = pick? pick settings := by
  rw [pick?_rewritten (g := id) (by simpa using hpick), Option.map_id, id]

theorem checkKeyword_rewritten (key : String) (allowed : List String)
    (keyword : Option (Located String)) :
    checkKeyword key allowed (keyword.map (.rewritten w id)) =
      both (Diagnostic.rewritten w) id (checkKeyword key allowed keyword) := by
  cases keyword with
  | none => rfl
  | some k =>
    have hk : (k.rewritten w id).value = k.value := rfl
    rw [Option.map_some, checkKeyword, checkKeyword, hk]
    split_ifs <;> rfl

end Settings

theorem checkLink_rewritten (spec : LinkSpec) : checkLink (spec.rewritten w) =
    both (Diagnostic.rewritten w) id (checkLink spec) := by
  have hlocate : locate? LinkSetting.arrowheads? (spec.rewritten w).settings =
      (locate? LinkSetting.arrowheads? spec.settings).map (.rewritten w id) :=
    locate?_rewritten (fun _ => rfl) spec.settings
  refine both_bind (checkKeys_rewritten (fun _ => rfl) spec.settings) fun _ => ?_
  rw [hlocate]
  exact checkKeyword_rewritten _ _ _

theorem checkLinks_rewritten (specs : List LinkSpec) :
    checkLinks (specs.map (LinkSpec.rewritten w)) =
      both (Diagnostic.rewritten w) id (checkLinks specs) := by
  induction specs with
  | nil => rfl
  | cons spec specs ih => exact both_bind (checkLink_rewritten spec) fun _ => ih

theorem connect?_rewritten (settings : List (Located NodeSetting)) :
    (pick? NodeSetting.connect? (settings.map (.rewritten w (NodeSetting.rewritten w)))).getD [] =
      ((pick? NodeSetting.connect? settings).getD []).map (LinkSpec.rewritten w) := by
  rw [pick?_rewritten NodeSetting.connect?_rewritten]
  cases pick? NodeSetting.connect? settings <;> rfl

theorem checkNode_rewritten (settings : List (Located NodeSetting)) :
    checkNode (settings.map (.rewritten w (NodeSetting.rewritten w))) =
      both (Diagnostic.rewritten w) id (checkNode settings) := by
  refine both_bind (checkKeys_rewritten NodeSetting.key_rewritten settings) fun _ => ?_
  rw [locate?_rewritten NodeSetting.shape?_rewritten, connect?_rewritten]
  exact both_bind (checkKeyword_rewritten _ _ _) fun _ => checkLinks_rewritten _

/-- A definition is taken for another one of its identifier exactly when it was. -/
theorem checkDefinitions_rewritten (seen : List String) (definitions : List Definition) :
    checkDefinitions (seen.map w.identifier) (definitions.map (Definition.rewritten w)) =
      both (Diagnostic.rewritten w) id (checkDefinitions seen definitions) := by
  induction definitions generalizing seen with
  | nil => rfl
  | cons d definitions ih =>
    have hseen : (d.rewritten w).identifier ∈ seen.map w.identifier ↔ d.identifier ∈ seen :=
      List.mem_map_of_injective w.identifier_injective
    rw [List.map_cons, checkDefinitions, checkDefinitions]
    by_cases h : d.identifier ∈ seen
    · simp only [h, hseen, if_true]
      rfl
    · simp only [h, hseen, if_false]
      exact both_bind (checkNode_rewritten d.settings) fun _ => ih (d.identifier :: seen)

/-! ### Drafts -/

theorem mergeSettings_rewritten (base own : List (Located NodeSetting)) :
    mergeSettings (base.map (.rewritten w (NodeSetting.rewritten w)))
        (own.map (.rewritten w (NodeSetting.rewritten w))) =
      (mergeSettings base own).map (.rewritten w (NodeSetting.rewritten w)) :=
  Keyed.merge_map (fun s => NodeSetting.key_rewritten s.value) base own

theorem defined_rewritten (definitions : List Definition) (identifier : String) :
    defined (definitions.map (Definition.rewritten w)) (w.identifier identifier) =
      (defined definitions identifier).map (.rewritten w (NodeSetting.rewritten w)) := by
  have hid (d : Definition) :
      (d.rewritten w).identifier = w.identifier identifier ↔ d.identifier = identifier :=
    w.identifier_injective.eq_iff
  rw [defined, defined, List.find?_map, Function.comp_def]
  simp only [hid]
  cases definitions.find? fun d => d.identifier = identifier <;> rfl

theorem ofLink_rewritten (spec : LinkSpec) :
    ofLink (spec.rewritten w) = (ofLink spec).rewritten w := by
  have hpick {β : Type} (pick : LinkSetting → Option β) :
      pick? pick (spec.rewritten w).settings = pick? pick spec.settings :=
    pick?_rewritten_eq (fun _ => rfl) spec.settings
  simp only [ofLink, hpick]
  rfl

theorem classWords_rewritten (settings : List (Located NodeSetting)) :
    classWords (settings.map (.rewritten w (NodeSetting.rewritten w))) = classWords settings := by
  rw [classWords, classWords, pick?_rewritten_eq NodeSetting.classes?_rewritten]

theorem ofOccurrence_rewritten (base : List (Located NodeSetting)) (row col : Nat)
    (cell : Occurrence) :
    ofOccurrence (base.map (.rewritten w (NodeSetting.rewritten w))) row col (cell.rewritten w) =
      (ofOccurrence base row col cell).rewritten w := by
  simp only [ofOccurrence, Draft.rewritten, Occurrence.rewritten, mergeSettings_rewritten,
    classWords_rewritten, connect?_rewritten, pick?_rewritten_eq NodeSetting.text?_rewritten,
    pick?_rewritten_eq NodeSetting.shape?_rewritten, List.map_map, Function.comp_def,
    ofLink_rewritten]

end Draft

namespace Document

theorem draftCells_rewritten (definitions : List Definition)
    (cells : List (Nat × Nat × Occurrence)) :
    draftCells (definitions.map (Definition.rewritten w))
        (cells.map fun (row, col, cell) => (row, col, cell.rewritten w)) =
      both (Diagnostic.rewritten w) (List.map (Draft.rewritten w))
        (draftCells definitions cells) := by
  induction cells with
  | nil => rfl
  | cons c cells ih =>
    obtain ⟨row, col, cell⟩ := c
    have hdraft : Draft.ofOccurrence (Draft.defined (definitions.map (Definition.rewritten w))
          (cell.rewritten w).identifier) row col (cell.rewritten w) =
        (Draft.ofOccurrence (Draft.defined definitions cell.identifier) row col cell).rewritten
          w := by
      have hdefined := Draft.defined_rewritten (w := w) definitions cell.identifier
      rw [← Draft.ofOccurrence_rewritten, ← hdefined]
      rfl
    rw [List.map_cons, draftCells, draftCells, hdraft]
    exact both_bind (Draft.checkNode_rewritten cell.settings) fun _ => both_bind ih fun _ => rfl

theorem occurrences_rewritten (d : Document) : (d.rewritten w).occurrences =
    d.occurrences.map fun (row, col, cell) => (row, col, cell.rewritten w) :=
  occurrences_map rfl

theorem drafts_rewritten (d : Document) : (d.rewritten w).drafts =
    both (Diagnostic.rewritten w) (List.map (Draft.rewritten w)) d.drafts := by
  rw [drafts, drafts, occurrences_rewritten]
  exact both_bind (Draft.checkDefinitions_rewritten [] d.definitions) fun _ =>
    draftCells_rewritten d.definitions d.occurrences

theorem grid_rewritten (d : Document) (drafts : List Draft) :
    (d.rewritten w).grid (drafts.map (Draft.rewritten w)) = d.grid drafts := by
  have hrows : (d.rewritten w).rows.length = d.rows.length := List.length_map _
  rw [grid, grid, columnCount_map rfl, hrows, List.map_map]
  rfl

end Document

/-! ### Nodes -/

/-- A label is known under its other name exactly when it was known. -/
theorem lookup_renamed (r : Renaming) (known : List (String × Nat)) (name : String) :
    (known.map (Prod.map r.label id)).lookup (r.label name) = known.lookup name := by
  induction known with
  | nil => rfl
  | cons p known ih =>
    have hname : (r.label name == r.label p.1) = (name == p.1) := by
      rw [Bool.eq_iff_iff, beq_iff_eq, beq_iff_eq, r.label_injective.eq_iff]
    rw [List.map_cons, Prod.map, List.lookup_cons, List.lookup_cons, hname, ih]
    rfl

theorem labelsFrom_rewritten (known : List (String × Nat)) (index : Nat) (drafts : List Draft) :
    labelsFrom (known.map (Prod.map w.label id)) index (drafts.map (Draft.rewritten w)) =
      both (Diagnostic.rewritten w) (List.map (Prod.map w.label id))
        (labelsFrom known index drafts) := by
  induction drafts generalizing known index with
  | nil => rfl
  | cons draft drafts ih =>
    have hlabel : (draft.rewritten w).label = draft.label.map w.label := rfl
    rw [List.map_cons, labelsFrom, labelsFrom, hlabel]
    cases draft.label with
    | none => exact ih known (index + 1)
    | some name =>
      simp only [Option.map_some, lookup_renamed w.toRenaming]
      split_ifs
      · rfl
      · have hrest := ih (known ++ [(name, index)]) (index + 1)
        rwa [List.map_append] at hrest

section Nodes

variable (labels : List (String × Nat)) (grid : Grid Nat) (i : Nat) (draft : Draft)

theorem targetIndex_rewritten (link : LinkDraft) :
    targetIndex (labels.map (Prod.map w.label id)) grid i (draft.rewritten w) (link.rewritten w) =
      both (Diagnostic.rewritten w) id (targetIndex labels grid i draft link) := by
  obtain ⟨sourceSide, targetSide, destination, text, classes, arrowheads, position⟩ := link
  cases destination with
  | self => rfl
  | label name =>
    simp only [LinkDraft.rewritten, Destination.renamed, targetIndex, lookup_renamed w.toRenaming]
    cases labels.lookup name <;> rfl
  | toward side =>
    simp only [LinkDraft.rewritten, Destination.renamed, Draft.rewritten, targetIndex]
    cases grid.neighbor? draft.row draft.col side <;> rfl

theorem Link.ofDraft_rewritten (link : LinkDraft) :
    Link.ofDraft (labels.map (Prod.map w.label id)) grid i (draft.rewritten w) (link.rewritten w) =
      both (Diagnostic.rewritten w) id (Link.ofDraft labels grid i draft link) :=
  both_bind (targetIndex_rewritten labels grid i draft link) fun _ => rfl

theorem Node.ofDraft_rewritten :
    Node.ofDraft (labels.map (Prod.map w.label id)) grid i (draft.rewritten w) =
      both (Diagnostic.rewritten w) (Node.renamed w.toRenaming)
        (Node.ofDraft labels grid i draft) := by
  have hlinks := both_mapM (Link.ofDraft_rewritten (w := w) labels grid i draft) draft.links
  rw [List.map_id_fun] at hlinks
  exact both_bind hlinks fun _ => rfl

end Nodes

theorem Node.ofDrafts_rewritten (drafts : List Draft) (grid : Grid Nat) :
    Node.ofDrafts (drafts.map (Draft.rewritten w)) grid =
      both (Diagnostic.rewritten w) (List.map (Node.renamed w.toRenaming))
        (Node.ofDrafts drafts grid) := by
  refine both_bind (labelsFrom_rewritten [] 0 drafts) fun labels => ?_
  rw [List.zipIdx_map]
  exact both_mapM (fun p => Node.ofDraft_rewritten labels grid p.2 p.1) _

/-! ### Charts -/

section Charts

variable {α : Type} [Scalar α] {m : Metrics α} {grid : Grid Nat} {β : Type}

/-- An arithmetic fault tells no name. -/
theorem both_arithmetic (x : Except ArithmeticFault β) :
    x.mapError .arithmetic = both (Fault.rewritten w) id (x.mapError .arithmetic) := by
  cases x <;> rfl

theorem both_route (q : Lattice.Query) : q.route = both (Fault.rewritten w) id q.route := by
  unfold Lattice.Query.route
  split <;> rfl

theorem linkPath_renamed (source target : Node) (link : Link) :
    linkPath m grid (source.renamed w.toRenaming) (target.renamed w.toRenaming) link =
      both (Fault.rewritten w) id (linkPath m grid source target link) := by
  refine both_bind (both_arithmetic _) fun start => both_bind (both_arithmetic _) fun finish => ?_
  have hindex (node : Node) : (node.renamed w.toRenaming).index = node.index := rfl
  simp only [hindex]
  split_ifs
  · rfl
  · exact both_bind (both_route _) fun walk => rfl

theorem Route.ofLink_renamed (nodes : List Node) (source : Node) (link : Link) :
    Route.ofLink m grid (nodes.map (Node.renamed w.toRenaming)) (source.renamed w.toRenaming) link =
      both (Fault.rewritten w) id (Route.ofLink m grid nodes source link) := by
  rw [Route.ofLink, Route.ofLink, List.getElem?_map]
  cases nodes[link.target]? with
  | none => rfl
  | some target =>
    exact both_bind (linkPath_renamed source target link) fun points =>
      both_bind (both_arithmetic _) fun heads => rfl

theorem Placement.ofNode_renamed (nodes : List Node) (node : Node) :
    Placement.ofNode m grid (nodes.map (Node.renamed w.toRenaming)) (node.renamed w.toRenaming) =
      both (Fault.rewritten w) (Placement.renamed w.toRenaming)
        (Placement.ofNode m grid nodes node) :=
  both_bind (both_mapM_id (Route.ofLink_renamed nodes node) node.links) fun _ => rfl

theorem Chart.ofNodes_renamed (nodes : List Node) :
    ofNodes m grid (nodes.map (Node.renamed w.toRenaming)) =
      both (Fault.rewritten w) (Chart.renamed w.toRenaming) (ofNodes m grid nodes) :=
  both_bind (both_mapM (Placement.ofNode_renamed nodes) nodes) fun _ => rfl

/-- The chart of a document with other names, or its fault. -/
theorem Chart.ofDocument_rewritten (w : Rewriting) (m : Metrics α) (d : Document) :
    ofDocument m (d.rewritten w) =
      both (Fault.rewritten w) (Chart.renamed w.toRenaming) (ofDocument m d) := by
  refine both_bind (both_mapError (d.drafts_rewritten) fun _ => rfl) fun drafts => ?_
  have hgrid : ((d.rewritten w).grid (drafts.map (Draft.rewritten w))).mapError .grid =
      both (Fault.rewritten w) id ((d.grid drafts).mapError .grid) := by
    rw [Document.grid_rewritten]
    cases d.grid drafts <;> rfl
  refine both_bind hgrid fun grid => ?_
  exact both_bind (both_mapError (Node.ofDrafts_rewritten drafts grid) fun _ => rfl) fun nodes =>
    ofNodes_renamed nodes

end Charts

/-- The faults are one fault but for the names that they tell: either both are mistakes in a text,
of one kind and at one position, or they are the same. -/
inductive Fault.IsAlike : Fault → Fault → Prop
  | source {d e : Diagnostic} (kind : d.cause.kind = e.cause.kind)
      (position : d.position = e.position) : IsAlike (.source d) (.source e)
  | refl (fault : Fault) : IsAlike fault fault

theorem Fault.isAlike_renamed (r : Renaming) (fault : Fault) :
    fault.IsAlike (fault.rewritten { r with position := id }) := by
  cases fault with
  | source d => exact .source (d.cause.kind_renamed r).symm rfl
  | _ => exact .refl _

/-- With other names for its labels and identifiers a document has the same chart with these
names, whatever the numbers are, or else a fault of the same kind at the same position. -/
theorem Chart.ofDocument_renamed {α : Type} [Scalar α] (r : Renaming) (m : Metrics α)
    (d : Document) :
    match ofDocument m d with
    | .ok chart => ofDocument m (d.renamed r) = .ok (chart.renamed r)
    | .error fault => ∃ other, ofDocument m (d.renamed r) = .error other ∧ fault.IsAlike other := by
  rw [Document.renamed, ofDocument_rewritten]
  cases ofDocument m d with
  | ok chart => rfl
  | error fault => exact ⟨_, rfl, fault.isAlike_renamed r⟩

/-- Two labels and two identifiers change places. -/
def Renaming.exchange : Renaming where
  label := Equiv.swap "x" "y"
  identifier := Equiv.swap "a" "b"
  label_injective := (Equiv.swap _ _).injective
  identifier_injective := (Equiv.swap _ _).injective

/-- A node with a link and a definition, next to another node. -/
def linkedText : String :=
  "grid \x7b a#x(connect: e:w#y), b#y; \x7d define \x7b a(shape: circle); \x7d"

/-- The same text with other names. -/
def exchangedText : String :=
  "grid \x7b b#y(connect: e:w#x), a#x; \x7d define \x7b b(shape: circle); \x7d"

/-- The nodes of that text. -/
def linkedNodes : List Node :=
  [{ index := 0
     identifier := "a"
     row := 0
     col := 0
     label := some "x"
     text := none
     classes := []
     shape := .circle
     links := [⟨0, 1, .east, .west, none, [], .finish⟩] },
   { index := 1
     identifier := "b"
     row := 0
     col := 1
     label := some "y"
     text := none
     classes := []
     shape := .rect
     links := [] }]

theorem nodes_eq_linkedNodes (grid : Grid Nat) :
    (do let document ← Document.read linkedText
        let drafts ← document.drafts
        Node.ofDrafts drafts grid) = .ok linkedNodes := by
  cbv

/-- The text with exchanged names has the same chart with exchanged names. -/
theorem Chart.ofDocument_renamed_exchange :
    let m : Metrics ℝ := ⟨200, 100, 50, 50⟩
    ∃ d chart, Document.read linkedText = .ok d ∧
      Document.read exchangedText = .ok (d.renamed .exchange) ∧ ofDocument m d = .ok chart ∧
      ofDocument m (d.renamed .exchange) = .ok (chart.renamed .exchange) ∧
      (chart.renamed .exchange).placements.map (fun p => (p.node.identifier, p.node.label)) =
        [("b", some "y"), ("a", some "x")] := by
  intro m
  have hexchanged : Document.read exchangedText =
      (Document.read linkedText).map (Document.renamed .exchange) := by decide +kernel
  obtain ⟨grid, chart, hchart, hnodes⟩ :=
    exists_compile_of_nodes nodes_eq_linkedNodes Metrics.positive_standard (by decide)
  obtain ⟨d, hread, hd⟩ := exists_document_of_compile hchart
  rw [hread] at hexchanged
  have hrenamed := ofDocument_renamed .exchange m d
  rw [hd] at hrenamed
  refine ⟨d, chart, hread, hexchanged, hd, hrenamed, ?_⟩
  have hnames : (linkedNodes.map (Node.renamed .exchange)).map (fun n => (n.identifier, n.label)) =
      [("b", some "y"), ("a", some "x")] := by decide +kernel
  rw [← hnames, ← map_node_of_ofNodes hnodes, Chart.renamed]
  simp only [List.map_map]
  rfl

end FlowGrid
