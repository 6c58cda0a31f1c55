import FlowGrid.Geometry.Metrics
import FlowGrid.Number.Length

/-! What a user can set for one chart: the measures of the grid, style sheets to embed,
and whether the built-in one comes first. No measure may be zero or
negative. -/

namespace FlowGrid

/-- A measure of the grid. -/
inductive Measure
  | cellWidth
  | cellHeight
  | gapX
  | gapY
deriving DecidableEq, Repr

def Measure.name : Measure → String
  | .cellWidth => "node_width"
  | .cellHeight => "node_height"
  | .gapX => "gap_x"
  | .gapY => "gap_y"

def Metrics.get {α : Type} (m : Metrics α) : Measure → α
  | .cellWidth => m.cellWidth
  | .cellHeight => m.cellHeight
  | .gapX => m.gapX
  | .gapY => m.gapY

/-- A measure that is zero or negative. -/
structure SizeFault where
  measure : Measure
  length : Length

def SizeFault.message (f : SizeFault) : String :=
  s!"{f.measure.name} must be positive, got {f.length.text}"

def Metrics.standard : Metrics Length := ⟨.whole 200, .whole 100, .whole 50, .whole 50⟩

structure Settings where
  sizes : Metrics Length
  sheets : List String
  builtInSheet : Bool

namespace Settings

def standard : Settings := ⟨.standard, [], true⟩

/-- The measures as numbers, unless one of them is refused; then the first such one. -/
def metrics (s : Settings) : Except SizeFault (Metrics Float) :=
  match [Measure.cellWidth, .cellHeight, .gapX, .gapY].find? fun m =>
      (s.sizes.get m).isAtMostZero with
  | some m => .error ⟨m, s.sizes.get m⟩
  | none => .ok (s.sizes.map Length.toFloat)

end Settings
end FlowGrid
