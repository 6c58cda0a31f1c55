import FlowGrid.Side
import FlowGrid.Text.Position

/-! The tree that a source text spells. A document is a grid of cells, row by row, and
definitions that cells of the same identifier share. Cells and definitions carry
settings, and the setting `connect` carries the specifications of links. -/

namespace FlowGrid

/-- Where a link leads. -/
inductive Destination
  | label (name : String)
  | toward (side : Side)
  | self
deriving DecidableEq, Repr

/-! ### Settings -/

/-- A setting of a link. -/
inductive LinkSetting
  | text (value : String)
  | classes (value : String)
  | arrowheads (keyword : String)
deriving DecidableEq, Repr

namespace LinkSetting

def key : LinkSetting → String
  | .text _ => "text"
  | .classes _ => "class"
  | .arrowheads _ => "arrowheads"

def keys : List String := ["text", "class", "arrowheads"]

def text? : LinkSetting → Option String
  | .text value => some value
  | _ => none

def classes? : LinkSetting → Option String
  | .classes value => some value
  | _ => none

def arrowheads? : LinkSetting → Option String
  | .arrowheads keyword => some keyword
  | _ => none

end LinkSetting

/-- A link as a source text specifies it: from a side of the node that carries it to a
side of its destination. -/
structure LinkSpec where
  sourceSide : Side
  targetSide : Side
  destination : Destination
  settings : List (Located LinkSetting)
  position : Position
deriving DecidableEq, Repr

/-- A setting of a cell or a definition. -/
inductive NodeSetting
  | text (value : String)
  | classes (value : String)
  | shape (keyword : String)
  | connect (specs : List LinkSpec)
deriving DecidableEq, Repr

namespace NodeSetting

def key : NodeSetting → String
  | .text _ => "text"
  | .classes _ => "class"
  | .shape _ => "shape"
  | .connect _ => "connect"

def keys : List String := ["text", "class", "shape", "connect"]

def text? : NodeSetting → Option String
  | .text value => some value
  | _ => none

def classes? : NodeSetting → Option String
  | .classes value => some value
  | _ => none

def shape? : NodeSetting → Option String
  | .shape keyword => some keyword
  | _ => none

def connect? : NodeSetting → Option (List LinkSpec)
  | .connect specs => some specs
  | _ => none

end NodeSetting

/-! ### Documents -/

/-- A cell that holds a node. -/
structure Occurrence where
  identifier : String
  label : Option String
  settings : List (Located NodeSetting)
  position : Position
deriving DecidableEq, Repr

/-- A cell of the grid; an empty one holds nothing. -/
abbrev Cell := Option Occurrence

/-- Settings for all cells of an identifier. -/
structure Definition where
  identifier : String
  settings : List (Located NodeSetting)
  position : Position
deriving DecidableEq, Repr

structure Document where
  rows : List (List Cell)
  definitions : List Definition
deriving DecidableEq, Repr

namespace Document

/-- The count of columns: the length of the longest row. -/
def columnCount (d : Document) : Nat := (d.rows.map List.length).foldl max 0

end Document
end FlowGrid
