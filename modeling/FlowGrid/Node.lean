import FlowGrid.Draft
import FlowGrid.Grid

/-! Nodes and links with their destinations looked up. A label names the one node that
carries it, a direction names the node in the next cell, and `@` alone the node that
the link starts from. -/

namespace FlowGrid

/-- A link between the nodes of two indices. -/
structure Link where
  source : Nat
  target : Nat
  sourceSide : Side
  targetSide : Side
  text : Option String
  classes : List String
  arrowheads : Arrowheads
deriving DecidableEq, Repr

structure Node where
  index : Nat
  identifier : String
  row : Nat
  col : Nat
  label : Option String
  text : Option String
  classes : List String
  shape : Shape
  links : List Link
deriving DecidableEq, Repr

/-! ### Labels -/

/-- Adds the labels of the drafts from `index` on to the ones known so far. -/
def labelsFrom (known : List (String × Nat)) (index : Nat) :
    List Draft → Except Diagnostic (List (String × Nat))
  | [] => .ok known
  | d :: rest =>
    match d.label with
    | none => labelsFrom known (index + 1) rest
    | some name =>
      if (known.lookup name).isSome then .error ⟨.duplicateLabel name, d.position⟩
      else labelsFrom (known ++ [(name, index)]) (index + 1) rest

/-- The labels with the indices of the nodes that carry them, in order. -/
def labelIndex (drafts : List Draft) : Except Diagnostic (List (String × Nat)) :=
  labelsFrom [] 0 drafts

/-! ### Destinations -/

/-- The index of the node that a link of the draft at `index` leads to. -/
def targetIndex (labels : List (String × Nat)) (grid : Grid Nat) (index : Nat) (d : Draft)
    (link : LinkDraft) : Except Diagnostic Nat :=
  match link.destination with
  | .self => .ok index
  | .label name =>
    match labels.lookup name with
    | some i => .ok i
    | none => .error ⟨.unresolvedLabel name, link.position⟩
  | .toward side =>
    match grid.neighbor? d.row d.col side with
    | some i => .ok i
    | none => .error ⟨.noNeighbor side d.row d.col, link.position⟩

def Link.ofDraft (labels : List (String × Nat)) (grid : Grid Nat) (index : Nat) (d : Draft)
    (link : LinkDraft) : Except Diagnostic Link := do
  let target ← targetIndex labels grid index d link
  pure { source := index
         target
         sourceSide := link.sourceSide
         targetSide := link.targetSide
         text := link.text
         classes := link.classes
         arrowheads := link.arrowheads }

def Node.ofDraft (labels : List (String × Nat)) (grid : Grid Nat) (index : Nat) (d : Draft) :
    Except Diagnostic Node := do
  let links ← d.links.mapM (Link.ofDraft labels grid index d)
  pure { index
         identifier := d.identifier
         row := d.row
         col := d.col
         label := d.label
         text := d.text
         classes := d.classes
         shape := d.shape
         links }

/-- The nodes of all drafts, in order. -/
def Node.ofDrafts (drafts : List Draft) (grid : Grid Nat) : Except Diagnostic (List Node) := do
  let labels ← labelIndex drafts
  drafts.zipIdx.mapM fun (d, index) => Node.ofDraft labels grid index d

/-- The grid in which the drafts of a document occupy their cells. -/
def Document.grid (d : Document) (drafts : List Draft) : Except GridFault (Grid Nat) :=
  Grid.ofPositions (drafts.map fun draft => ((draft.row : Int), (draft.col : Int)))
    d.rows.length d.columnCount

end FlowGrid
