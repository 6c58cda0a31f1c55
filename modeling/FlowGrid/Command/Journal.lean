import FlowGrid.Chart
import FlowGrid.Settings

/-! The journal of a run: one line for each stage that a source text gets through. -/

namespace FlowGrid.Command

/-- The texts in brackets, each between quotes. -/
def quotedList (names : List String) : String :=
  "[" ++ ", ".intercalate (names.map Text.quoted) ++ "]"

def linkCount (nodes : List Node) : Nat := nodes.foldl (fun count n => count + n.links.length) 0

def documentLine (d : Document) : String :=
  s!"DEBUG gridchart.parser: parsed {d.rows.length} grid rows and " ++
    s!"{d.definitions.length} define entries"

def draftLines (d : Document) (drafts : List Draft) : List String :=
  let unused := d.unusedDefinitions
  (if unused.isEmpty then []
    else ["DEBUG gridchart.attributes: define entries without grid occurrences: " ++
      quotedList unused]) ++
    [s!"DEBUG gridchart.attributes: resolved attributes for {drafts.length} nodes"]

def nodeLine (nodes : List Node) : String :=
  s!"DEBUG gridchart.references: resolved {linkCount nodes} connections " ++
    s!"across {nodes.length} nodes"

/-- The size of the canvas is told in the terms in which the measures are given. -/
def layoutLine (sizes : Metrics Length) (grid : Grid Nat) (nodes : List Node) : String :=
  let width := (sizes.canvasWidth grid.cols).text
  let height := (sizes.canvasHeight grid.rows).text
  s!"DEBUG gridchart.layout: laid out {nodes.length} nodes on a " ++
    s!"{grid.rows}x{grid.cols} grid ({width}x{height} px)"

def routeLine (nodes : List Node) : String :=
  s!"DEBUG gridchart.routing: routed {linkCount nodes} connections"

/-- The lines for a source text, given what its compilation came to. -/
def journal (sizes : Metrics Length) (text : String) (chart : Except Fault (Chart Float)) :
    List String :=
  match Document.read text with
  | .error _ => []
  | .ok document =>
    documentLine document ::
      match document.drafts with
      | .error _ => []
      | .ok drafts =>
        draftLines document drafts ++
          match document.grid drafts with
          | .error _ => []
          | .ok grid =>
            match Node.ofDrafts drafts grid with
            | .error _ => []
            | .ok nodes =>
              [nodeLine nodes, layoutLine sizes grid nodes] ++
                match chart with
                | .error _ => []
                | .ok _ => [routeLine nodes]

end FlowGrid.Command
