import FlowGrid.Proofs.Chart.Path
import FlowGrid.Proofs.Chart.References
import FlowGrid.Svg.Drawing

/-! What stops a text from being drawn. Whatever the numbers are, it is a mistake in the text, or
a quotient, a square or the text of a number that is out of range: the nodes of a document fit
into its grid, every link leads to one of them along some route, and what is drawn has a box. -/

namespace FlowGrid

open Result

/-- A mistake in a text, found by the first stage that the text does not pass: reading it,
drafting its cells, or looking up its links. -/
inductive Mistake (text : String) : Diagnostic → Prop
  | reading {fault : Diagnostic} (failed : Document.read text = .error fault) : Mistake text fault
  | drafting {d : Document} {fault : Diagnostic} (read : Document.read text = .ok d)
    (failed : d.drafts = .error fault) : Mistake text fault
  | linking {d : Document} {drafts : List Draft} {grid : Grid Nat} {fault : Diagnostic}
    (read : Document.read text = .ok d) (drafted : d.drafts = .ok drafts)
    (placed : d.grid drafts = .ok grid) (failed : Node.ofDrafts drafts grid = .error fault) :
    Mistake text fault

/-- A mistake of a kind, or a number out of range. -/
inductive Fault.IsExpected (mistake : Diagnostic → Prop) : Fault → Prop
  | source {d : Diagnostic} (h : mistake d) : IsExpected mistake (.source d)
  | arithmetic (f : ArithmeticFault) : IsExpected mistake (.arithmetic f)

namespace Fault

variable {β : Type} {mistake : Diagnostic → Prop}

theorem yields_source {x : Except Diagnostic β} (h : ∀ d, x = .error d → mistake d) :
    Yields (fun b => x = .ok b) (IsExpected mistake) (x.mapError .source) := by
  cases x with
  | error d => exact .source (h d rfl)
  | ok b => rfl

theorem yields_arithmetic (x : Except ArithmeticFault β) :
    Yields (fun b => x = .ok b) (IsExpected mistake) (x.mapError .arithmetic) := by
  cases x with
  | error f => exact .arithmetic f
  | ok b => rfl

end Fault

section Charts

variable {α : Type} [Scalar α] {m : Metrics α} {grid : Grid Nat} {nodes : List Node}
  {mistake : Diagnostic → Prop}

open Fault

theorem yields_linkPath (hs : Seating grid nodes) {source target : Node} (hsource : source ∈ nodes)
    (htarget : target ∈ nodes) (link : Link) :
    Yields (fun _ => True) (IsExpected mistake) (linkPath m grid source target link) := by
  refine (yields_arithmetic _).bind fun start _ => (yields_arithmetic _).bind fun finish _ => ?_
  split_ifs with hloop
  · trivial
  · obtain ⟨steps, hroute, -, -⟩ :=
      (betweenSides_latticeQuery hs hsource htarget hloop).exists_best
    rw [hroute]
    trivial

theorem yields_ofLink (hs : Seating grid nodes) {source : Node} (hsource : source ∈ nodes)
    {link : Link} (hlink : link.target < nodes.length) :
    Yields (fun _ => True) (IsExpected mistake) (Route.ofLink m grid nodes source link) := by
  have htarget := List.getElem?_eq_getElem hlink
  unfold Route.ofLink
  rw [htarget]
  refine (yields_linkPath hs hsource (List.mem_of_getElem? htarget) link).bind fun points _ => ?_
  exact (yields_arithmetic _).bind fun heads _ => trivial

theorem yields_ofNodes (hs : Seating grid nodes)
    (htargets : ∀ node ∈ nodes, ∀ link ∈ node.links, link.target < nodes.length) :
    Yields (fun _ => True) (IsExpected mistake) (Chart.ofNodes m grid nodes) := by
  have hnode : ∀ node ∈ nodes,
      Yields (fun _ => True) (IsExpected mistake) (Placement.ofNode m grid nodes node) := by
    intro node hnode
    have hroute (link : Link) (hlink : link ∈ node.links) :
        Yields (fun _ => True) (IsExpected mistake) (Route.ofLink m grid nodes node link) :=
      yields_ofLink hs hnode (htargets node hnode link hlink)
    have hroutes := Yields.mapM hroute
    exact hroutes.bind fun routes _ => trivial
  exact (Yields.mapM hnode).bind fun placements _ => trivial

/-- A text has a chart, or a mistake, or numbers out of range. -/
theorem Chart.yields_compile (m : Metrics α) (text : String) :
    Yields (fun _ => True) (IsExpected (Mistake text)) (Chart.compile m text) := by
  refine (yields_source fun _ => .reading).bind fun document hread => ?_
  refine (yields_source fun _ => .drafting hread).bind fun drafts hd => ?_
  have hgrid : Yields (fun grid => document.grid drafts = .ok grid) (IsExpected (Mistake text))
      ((document.grid drafts).mapError .grid) := by
    obtain ⟨grid, hgrid⟩ := Document.exists_grid hd
    rw [hgrid]
    rfl
  refine hgrid.bind fun grid hg => ?_
  refine (yields_source fun _ => .linking hread hd hg).bind fun nodes hn => ?_
  exact yields_ofNodes (Document.seating hd hg hn) fun node hnode link hlink =>
    Document.target_lt_of_ofDrafts hd hg hn hnode hlink

end Charts

namespace Svg

variable {α : Type} [Scalar α] {mistake : Diagnostic → Prop}

open Fault

theorem yields_figure_fault (p : Placement α) :
    Yields (fun _ => True) (IsExpected mistake) (Figure.ofPlacement p).element :=
  (yields_arithmetic _).bind fun _ _ => (yields_arithmetic _).bind fun _ _ => trivial

theorem yields_write_fault (chart : Chart α) (sheets : List String) :
    Yields (fun _ => True) (IsExpected mistake) ((Drawing.ofChart chart).write sheets) := by
  have hfigures : Yields (fun _ => True) (IsExpected mistake)
      ((Drawing.ofChart chart).figures.mapM Figure.element) := by
    refine (Yields.mapM (r := fun _ _ => True) fun f hf => ?_).mono (fun _ _ => trivial)
      fun _ h => h
    obtain ⟨p, -, rfl⟩ := List.mem_map.mp hf
    exact yields_figure_fault p
  have helement : Yields (fun _ => True) (IsExpected mistake)
      ((Drawing.ofChart chart).element sheets) :=
    (yields_arithmetic _).bind fun _ _ => (yields_arithmetic _).bind fun _ _ =>
      hfigures.bind fun _ _ => (yields_arithmetic _).bind fun _ _ => trivial
  exact helement.map fun _ _ => trivial

end Svg
end FlowGrid
