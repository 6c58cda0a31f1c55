import FlowGrid.Diagnostic
import FlowGrid.Grid
import FlowGrid.Lattice.Basic
import FlowGrid.Settings

/-! What can stop the making of a chart. A mistake in the source text is the user's; the
others come from measures that are out of range or from charts put together by hand. -/

namespace FlowGrid

inductive Fault
  | source (d : Diagnostic)
  | arithmetic (f : ArithmeticFault)
  | grid (f : GridFault)
  | size (f : SizeFault)
  | noRoute (start goal : Lattice.Vertex)
  /-- A link leads to a node that the chart does not have. -/
  | missingNode (index : Nat)
  /-- A figure without a box is to be drawn. -/
  | missingBox

def Fault.message : Fault → String
  | .source d => d.message
  | .arithmetic f => f.message
  | .grid f => f.message
  | .size f => f.message
  | .noRoute start goal =>
    s!"no lattice route from ({start.x}, {start.y}) to ({goal.x}, {goal.y})"
  | .missingNode index => s!"the chart has no node {index}"
  | .missingBox => ""

instance : MonadLift (Except Diagnostic) (Except Fault) := ⟨Except.mapError .source⟩

instance : MonadLift (Except ArithmeticFault) (Except Fault) := ⟨Except.mapError .arithmetic⟩

instance : MonadLift (Except GridFault) (Except Fault) := ⟨Except.mapError .grid⟩

instance : MonadLift (Except SizeFault) (Except Fault) := ⟨Except.mapError .size⟩

end FlowGrid
