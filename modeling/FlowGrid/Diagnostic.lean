import FlowGrid.Side
import FlowGrid.Text.Position
import FlowGrid.Text.Quoted

/-! What can be wrong with a source text. A diagnostic is a cause with the place that
it is reported at. -/

namespace FlowGrid

inductive Cause
  /-- Something else was expected here. -/
  | expected (what found : String)
  /-- A bare text after a pair. -/
  | misplacedText
  | duplicateKey (key : String)
  | unknownKeyword (key value : String) (allowed : List String)
  | redefined (identifier : String)
  | duplicateLabel (name : String)
  | unresolvedLabel (name : String)
  /-- The cell on that side of the cell at `row` and `col` holds no node. -/
  | noNeighbor (side : Side) (row col : Nat)
deriving DecidableEq, Repr

namespace Cause

/-- The kind of mistake, in a few words. -/
def kind : Cause → String
  | .expected .. => "syntax error"
  | .misplacedText => "misplaced text shorthand"
  | .duplicateKey _ => "duplicate attribute"
  | .unknownKeyword .. => "unknown value"
  | .redefined _ => "duplicate define entry"
  | .duplicateLabel _ => "duplicate label"
  | .unresolvedLabel _ => "unresolved label"
  | .noNeighbor .. => "no adjacent node"

def text : Cause → String
  | .expected what found => s!"Expected {what}, found {Text.quoted found}"
  | .misplacedText => "Text shorthand must be the first item of an attribute list"
  | .duplicateKey key => s!"Attribute \"{key}\" is given more than once"
  | .unknownKeyword key value allowed =>
    s!"Unknown value \"{value}\" for \"{key}\"; expected one of: " ++ ", ".intercalate allowed
  | .redefined identifier => s!"Identifier \"{identifier}\" is defined more than once"
  | .duplicateLabel name => s!"Label \"{name}\" is used more than once"
  | .unresolvedLabel name => s!"No node with label \"{name}\""
  | .noNeighbor side row col =>
    s!"No node next to grid cell ({row}, {col}) in direction \"{side.name}\""

/-- The text of a cause with a line and a column after it. -/
def textAt (cause : Cause) (line column : Int) : String :=
  s!"{cause.text} (line {line}, column {column})"

end Cause

structure Diagnostic where
  cause : Cause
  position : Position
deriving DecidableEq, Repr

def Diagnostic.message (d : Diagnostic) : String :=
  d.cause.textAt d.position.line d.position.column

end FlowGrid
