import FlowGrid.Document.Reader
import FlowGrid.Fault
import FlowGrid.Geometry.Arrowhead
import FlowGrid.Geometry.Outline
import FlowGrid.Geometry.Polyline
import FlowGrid.Lattice.Search
import FlowGrid.Node

/-! Charts: nodes in their boxes and links along their routes. A route leaves its source
along the normal of a side and enters its target against the normal of another; in
between it follows the lanes between cells and crosses empty ones. A link from a side
of a node to the same side is a small loop. -/

namespace FlowGrid

/-- A link with the path that is drawn for it. -/
structure Route (α : Type) where
  link : Link
  points : List (Point α)
  arrowheads : List (Arrowhead α)

/-- A node in its box, with the routes of its links. -/
structure Placement (α : Type) where
  node : Node
  box : Box α
  routes : List (Route α)

structure Chart (α : Type) where
  width : α
  height : α
  placements : List (Placement α)

variable {α : Type} [Scalar α]

/-! ### Routes -/

/-- A rectangle off the middle of the stem that leaves a side at `anchor` and returns. -/
def sideLoop (m : Metrics α) (anchor : Point α) (box : Box α) (side : Side) : List (Point α) :=
  let nx : α := (side.dx : α)
  let ny : α := (side.dy : α)
  let tx : α := ((-side.dy : Int) : α)
  let ty : α := (side.dx : α)
  let depth := Scalar.half (if side.isVertical then m.gapY else m.gapX)
  let quarter := (if side.isVertical then box.width else box.height) / ((4 : Int) : α)
  let width := if quarter < depth then quarter else depth
  let outer : Point α := ⟨anchor.x + nx * depth, anchor.y + ny * depth⟩
  let inner : Point α :=
    ⟨anchor.x + Scalar.half (nx * depth), anchor.y + Scalar.half (ny * depth)⟩
  [anchor, outer, ⟨outer.x + tx * width, outer.y + ty * width⟩,
    ⟨inner.x + tx * width, inner.y + ty * width⟩, inner, anchor]

/-- The query for a route that leaves one side of a cell and enters another one. -/
def Lattice.Query.between (grid : Grid Nat) (row col : Int) (side : Side) (row' col' : Int)
    (side' : Side) : Lattice.Query where
  grid
  start := .stub row col side
  startHeading := .ofSide side
  goal := .stub row' col' side'
  goalHeading := (Lattice.Heading.ofSide side').reverse

/-- The query for the route of a link between two nodes. -/
def latticeQuery (grid : Grid Nat) (source target : Node) (link : Link) : Lattice.Query :=
  .between grid source.row source.col link.sourceSide target.row target.col link.targetSide

/-- The vertices of the best route, or the fault that there is none. -/
def Lattice.Query.route (q : Lattice.Query) : Except Fault (List Lattice.Vertex) :=
  match q.route? with
  | some walk => .ok walk
  | none => .error (.noRoute q.start q.goal)

/-- The path of a link between two nodes. -/
def linkPath (m : Metrics α) (grid : Grid Nat) (source target : Node) (link : Link) :
    Except Fault (List (Point α)) := do
  let sourceBox := m.cellBox source.row source.col
  let targetBox := m.cellBox target.row target.col
  let start ← source.shape.anchor sourceBox link.sourceSide
  let finish ← target.shape.anchor targetBox link.targetSide
  if source.index = target.index ∧ link.sourceSide = link.targetSide then
    pure (sideLoop m start sourceBox link.sourceSide)
  else
    let walk ← (latticeQuery grid source target link).route
    pure (Polyline.simplify (start :: walk.map (·.toPoint m) ++ [finish]))

/-- The route of a link that leaves `source`. -/
def Route.ofLink (m : Metrics α) (grid : Grid Nat) (nodes : List Node) (source : Node)
    (link : Link) : Except Fault (Route α) := do
  match nodes[link.target]? with
  | none => throw (.missingNode link.target)
  | some target =>
    let points ← linkPath m grid source target link
    let arrowheads ← Arrowhead.ofPath points link.arrowheads Arrowhead.defaultSize
    pure ⟨link, points, arrowheads⟩

def Placement.ofNode (m : Metrics α) (grid : Grid Nat) (nodes : List Node) (node : Node) :
    Except Fault (Placement α) := do
  let routes ← node.links.mapM (Route.ofLink m grid nodes node)
  pure ⟨node, m.cellBox node.row node.col, routes⟩

/-! ### Charts -/

namespace Chart

/-- Lays out the nodes of a grid and routes their links. -/
def ofNodes (m : Metrics α) (grid : Grid Nat) (nodes : List Node) : Except Fault (Chart α) := do
  let placements ← nodes.mapM (Placement.ofNode m grid nodes)
  pure ⟨m.canvasWidth grid.cols, m.canvasHeight grid.rows, placements⟩

/-- The chart that a document describes. -/
def ofDocument (m : Metrics α) (document : Document) : Except Fault (Chart α) := do
  let drafts ← document.drafts
  let grid ← document.grid drafts
  let nodes ← Node.ofDrafts drafts grid
  ofNodes m grid nodes

/-- The chart that a source text describes. -/
def compile (m : Metrics α) (text : String) : Except Fault (Chart α) := do
  let document ← Document.read text
  ofDocument m document

end Chart
end FlowGrid
