import FlowGrid.Diagnostic
import FlowGrid.Document.Basic
import FlowGrid.Keyed
import FlowGrid.Keyword
import FlowGrid.Text.Blank

/-! Drafts of nodes: the cells of a document with their settings merged over those of the
definition of the same identifier. A setting of the cell replaces the defined one as
a whole; only classes add up. All settings are checked on the way, those of
definitions that no cell uses included. -/

namespace FlowGrid

/-- A link whose destination has not been looked up. -/
structure LinkDraft where
  sourceSide : Side
  targetSide : Side
  destination : Destination
  text : Option String
  classes : List String
  arrowheads : Arrowheads
  position : Position
deriving DecidableEq, Repr

/-- A node with its merged settings and its cell. -/
structure Draft where
  identifier : String
  row : Nat
  col : Nat
  label : Option String
  text : Option String
  classes : List String
  shape : Shape
  links : List LinkDraft
  position : Position
deriving DecidableEq, Repr

/-- The class names in a setting, each at its first appearance. -/
def classNames (value : String) : List String := (Text.words value).eraseDups

/-! ### Checks -/

namespace Draft

/-- Refuses a key that is given twice. -/
def checkKeys {σ : Type} (key : σ → String) (settings : List (Located σ)) :
    Except Diagnostic Unit :=
  match Keyed.repeated? (fun s => key s.value) settings with
  | some s => .error ⟨.duplicateKey (key s.value), s.position⟩
  | none => .ok ()

/-- The first setting of a kind, with its place. -/
def locate? {σ β : Type} (pick : σ → Option β) (settings : List (Located σ)) :
    Option (Located β) :=
  settings.findSome? fun s => (pick s.value).map fun b => ⟨b, s.position⟩

/-- The first setting of a kind. -/
def pick? {σ β : Type} (pick : σ → Option β) (settings : List (Located σ)) : Option β :=
  settings.findSome? fun s => pick s.value

/-- Refuses a keyword that is not among the allowed ones. -/
def checkKeyword (key : String) (allowed : List String) (keyword : Option (Located String)) :
    Except Diagnostic Unit :=
  match keyword with
  | none => .ok ()
  | some k =>
    if k.value ∈ allowed then .ok ()
    else .error ⟨.unknownKeyword key k.value allowed, k.position⟩

def checkLink (spec : LinkSpec) : Except Diagnostic Unit := do
  checkKeys LinkSetting.key spec.settings
  checkKeyword "arrowheads" (Arrowheads.all.map Arrowheads.name)
    (locate? LinkSetting.arrowheads? spec.settings)

def checkLinks : List LinkSpec → Except Diagnostic Unit
  | [] => .ok ()
  | spec :: rest => do
    checkLink spec
    checkLinks rest

/-- Checks the settings of a cell or a definition: its keys, then its shape, then its links
one after the other. -/
def checkNode (settings : List (Located NodeSetting)) : Except Diagnostic Unit := do
  checkKeys NodeSetting.key settings
  checkKeyword "shape" (Shape.all.map Shape.name) (locate? NodeSetting.shape? settings)
  checkLinks ((pick? NodeSetting.connect? settings).getD [])

/-- Checks definitions in order; `seen` are the identifiers defined before. -/
def checkDefinitions (seen : List String) : List Definition → Except Diagnostic Unit
  | [] => .ok ()
  | d :: rest => do
    if d.identifier ∈ seen then throw ⟨.redefined d.identifier, d.position⟩
    checkNode d.settings
    checkDefinitions (d.identifier :: seen) rest

/-! ### Merging -/

/-- The settings that a definition gives to an identifier. -/
def defined (definitions : List Definition) (identifier : String) :
    List (Located NodeSetting) :=
  ((definitions.find? fun d => d.identifier = identifier).map (·.settings)).getD []

def mergeSettings (base own : List (Located NodeSetting)) : List (Located NodeSetting) :=
  Keyed.merge (fun s => s.value.key) base own

def ofLink (spec : LinkSpec) : LinkDraft where
  sourceSide := spec.sourceSide
  targetSide := spec.targetSide
  destination := spec.destination
  text := pick? LinkSetting.text? spec.settings
  classes := ((pick? LinkSetting.classes? spec.settings).map classNames).getD []
  arrowheads :=
    ((pick? LinkSetting.arrowheads? spec.settings).bind Arrowheads.named?).getD .finish
  position := spec.position

/-- The words of the class setting, if there is one. -/
def classWords (settings : List (Located NodeSetting)) : List String :=
  ((pick? NodeSetting.classes? settings).map Text.words).getD []

/-- The draft of the cell at `row` and `col`, given the settings defined for it. -/
def ofOccurrence (base : List (Located NodeSetting)) (row col : Nat) (cell : Occurrence) :
    Draft :=
  let merged := mergeSettings base cell.settings
  { identifier := cell.identifier
    row
    col
    label := cell.label
    text := pick? NodeSetting.text? merged
    classes := (classWords base ++ classWords cell.settings).eraseDups
    shape := ((pick? NodeSetting.shape? merged).map Shape.named).getD .rect
    links := ((pick? NodeSetting.connect? merged).getD []).map ofLink
    position := cell.position }

end Draft

/-! ### Whole documents -/

namespace Document

/-- The cells of one row that hold a node, with their places. -/
def occurrencesOfRow (row : Nat) (cells : List Cell) : List (Nat × Nat × Occurrence) :=
  cells.zipIdx.filterMap fun (cell, col) => cell.map (row, col, ·)

/-- The cells that hold a node with their row and column, row by row. -/
def occurrences (d : Document) : List (Nat × Nat × Occurrence) :=
  d.rows.zipIdx.flatMap fun (cells, row) => occurrencesOfRow row cells

/-- Checks the cells in order and drafts their nodes. -/
def draftCells (definitions : List Definition) :
    List (Nat × Nat × Occurrence) → Except Diagnostic (List Draft)
  | [] => .ok []
  | (row, col, cell) :: rest => do
    Draft.checkNode cell.settings
    let drafts ← draftCells definitions rest
    pure (.ofOccurrence (Draft.defined definitions cell.identifier) row col cell :: drafts)

/-- One draft for each cell that holds a node, row by row. -/
def drafts (d : Document) : Except Diagnostic (List Draft) := do
  Draft.checkDefinitions [] d.definitions
  draftCells d.definitions d.occurrences

/-- The identifiers that are defined but stand in no cell, in alphabetical order. -/
def unusedDefinitions (d : Document) : List String :=
  let used := d.occurrences.map fun (_, _, cell) => cell.identifier
  ((d.definitions.map (·.identifier)).filter fun name => name ∉ used).mergeSort (· ≤ ·)

end Document
end FlowGrid
