import FlowGrid.Chart
import FlowGrid.Svg.Stylesheet

/-! Drawings as SVG. A drawing has its style element first, then a background, then a group
with one group for each figure, then a group with one group for each path. The class
names are those that style sheets address. -/

namespace FlowGrid.Svg

/-- What is drawn for a node. -/
structure Figure (α : Type) where
  shape : Shape
  text : Option String
  classes : List String
  box : Option (Box α)

/-- What is drawn for a link. -/
structure Trace (α : Type) where
  points : List (Point α)
  arrowheads : List (Arrowhead α)
  text : Option String
  classes : List String

structure Drawing (α : Type) where
  width : α
  height : α
  figures : List (Figure α)
  traces : List (Trace α)

variable {α : Type}

def Figure.ofPlacement (p : Placement α) : Figure α :=
  ⟨p.node.shape, p.node.text, p.node.classes, some p.box⟩

def Trace.ofRoute (r : Route α) : Trace α :=
  ⟨r.points, r.arrowheads, r.link.text, r.link.classes⟩

def Drawing.ofChart (c : Chart α) : Drawing α where
  width := c.width
  height := c.height
  figures := c.placements.map .ofPlacement
  traces := c.placements.flatMap fun p => p.routes.map .ofRoute

variable [Scalar α]

/-! ### Text -/

/-- The height of a line of text, in hundredths of the font size. -/
def lineHeight : Nat := 120

/-- The shift that centers a line on its place. -/
def baselineShift : String := "0.35em"

/-- The lines of a text, centered around their place as a block. -/
def lineSpans (x : String) (lines : List String) : List Element :=
  let first : Int := -(((lines.length - 1) * lineHeight / 2 : Nat) : Int)
  lines.zipIdx.map fun (line, i) =>
    let shift := Decimal.ofHundredths (if i = 0 then first else lineHeight)
    .text "tspan" [.plain "x" x, .plain "dy" (shift ++ "em")] line

def textElement (text : String) (center : Point α) : Except ArithmeticFault Element := do
  let x ← Scalar.text center.x
  let y ← Scalar.text center.y
  let attributes : List Attribute :=
    [.plain "x" x, .plain "y" y, .plain "text-anchor" "middle", .plain "dy" baselineShift]
  let lines := (text.toList.splitOn '\n').map String.ofList
  if lines.length ≤ 1 then pure (.text "text" attributes text)
  else pure (.joined "text" attributes (lineSpans x lines))

/-- The element of a text that is given and not empty. -/
def textElements (text : Option String) (center : Point α) :
    Except ArithmeticFault (List Element) :=
  match text with
  | none => .ok []
  | some s => if s.isEmpty then .ok [] else (textElement s center).map ([·])

/-! ### Figures -/

/-- A class attribute: a word of the drawing, then the other class names. -/
def classAttribute (word : String) (names : List String) : Attribute :=
  .plain "class" (" ".intercalate (word :: names.filter fun name => name ≠ word))

/-- An attribute that holds a number. -/
def number (name : String) (value : α) : Except ArithmeticFault Attribute :=
  (Scalar.text value).map (.plain name)

/-- Two numbers with a comma between them. -/
def corner (x y : α) : Except ArithmeticFault String := do
  let x ← Scalar.text x
  let y ← Scalar.text y
  pure (x ++ "," ++ y)

/-- The element of an outline in its box. -/
def outline (shape : Shape) (box : Box α) : Except ArithmeticFault Element := do
  let (hw, hh) := shape.extents box
  let cls := Attribute.verbatim "class" ("node " ++ shape.name)
  match shape with
  | .ellipse =>
    let cx ← number "cx" box.cx
    let cy ← number "cy" box.cy
    let rx ← number "rx" hw
    let ry ← number "ry" hh
    pure (.empty "ellipse" [cls, cx, cy, rx, ry])
  | .circle =>
    let cx ← number "cx" box.cx
    let cy ← number "cy" box.cy
    let r ← number "r" hw
    pure (.empty "circle" [cls, cx, cy, r])
  | .diamond | .angledSquare =>
    let top ← corner box.cx (box.cy - hh)
    let right ← corner (box.cx + hw) box.cy
    let bottom ← corner box.cx (box.cy + hh)
    let left ← corner (box.cx - hw) box.cy
    pure (.empty "polygon" [cls, .plain "points" (" ".intercalate [top, right, bottom, left])])
  | _ =>
    let x ← number "x" (box.cx - hw)
    let y ← number "y" (box.cy - hh)
    let width ← number "width" (((2 : Int) : α) * hw)
    let height ← number "height" (((2 : Int) : α) * hh)
    pure (.empty "rect" [cls, x, y, width, height])

def Figure.element (f : Figure α) : Except Fault Element := do
  match f.box with
  | none => throw .missingBox
  | some box =>
    let shape ← outline f.shape box
    let text ← textElements f.text box.center
    pure (.lines "g" [classAttribute "node-wrapper" f.classes] (shape :: text))

/-! ### Traces -/

/-- A move to a point or a line to it. -/
def command (letter : String) (p : Point α) : Except ArithmeticFault String := do
  let x ← Scalar.text p.x
  let y ← Scalar.text p.y
  pure (" ".intercalate [letter, x, y])

/-- The commands that draw a polyline. -/
def pathData (points : List (Point α)) : Except ArithmeticFault String := do
  match points with
  | [] => pure ""
  | first :: rest =>
    let move ← command "M" first
    let lines ← rest.mapM (command "L")
    pure (" ".intercalate (move :: lines))

def arrowheadElement (a : Arrowhead α) : Except ArithmeticFault Element := do
  let d ← pathData [a.apex, a.left, a.right]
  pure (.empty "path" [.plain "class" ("arrowhead " ++ a.terminal.name), .plain "d" (d ++ " Z")])

def Trace.element (t : Trace α) : Except ArithmeticFault Element := do
  let d ← pathData t.points
  let heads ← t.arrowheads.mapM arrowheadElement
  let text ← textElements t.text (Polyline.midpoint t.points)
  pure (.lines "g" [classAttribute "connection" t.classes]
    (.empty "path" [.plain "class" "path", .plain "d" d] :: heads ++ text))

def traceElements (ts : List (Trace α)) : Except ArithmeticFault (List Element) :=
  ts.mapM Trace.element

/-! ### Drawings -/

namespace Drawing

/-- The element of a drawing that embeds the given style sheets. -/
def element (d : Drawing α) (sheets : List String) : Except Fault Element := do
  let width ← Scalar.text d.width
  let height ← Scalar.text d.height
  let figures ← d.figures.mapM Figure.element
  let traces ← traceElements d.traces
  let background : Element :=
    .empty "rect" [.plain "class" "background", .plain "x" "0", .plain "y" "0",
      .plain "width" width, .plain "height" height]
  let attributes : List Attribute :=
    [.plain "xmlns" "http://www.w3.org/2000/svg", .plain "viewBox" s!"0 0 {width} {height}",
      .plain "width" width, .plain "height" height]
  pure (.lines "svg" attributes ((styleElement? sheets).toList ++
    [background, .lines "g" [.plain "class" "nodes"] figures,
      .lines "g" [.plain "class" "connections"] traces]))

def write (d : Drawing α) (sheets : List String) : Except Fault String :=
  (d.element sheets).map fun e => e.write ++ "\n"

end Drawing

/-- The style sheets of a drawing, in the order in which they apply. -/
def sheetsOf (s : Settings) : List String :=
  (if s.builtInSheet then [builtInSheet .standard] else []) ++ s.sheets

/-- The drawing of the chart that a source text describes, with the given measures. -/
def draw (m : Metrics α) (sheets : List String) (text : String) : Except Fault String := do
  let chart ← Chart.compile m text
  (Drawing.ofChart chart).write sheets

/-- The drawing of the chart that a source text describes. -/
def render (s : Settings) (text : String) : Except Fault String := do
  let m ← s.metrics
  draw m (sheetsOf s) text

end FlowGrid.Svg
