import FlowGrid.Proofs.Chart.ClearRoutes
import FlowGrid.Proofs.Chart.Faults
import FlowGrid.Proofs.Exact.Midpoint
import FlowGrid.Proofs.Number.Hundredths
import FlowGrid.Svg.Drawing

/-! Every text is drawn unless it has a mistake. Over exact numbers the only faults are those
that are found while the text is read, while its cells are drafted, and while its links are
looked up. The stages after these succeed, and no quotient in them has the divisor zero. -/

namespace FlowGrid

/-! ### Checked quotients -/

section Checked

variable {α : Type} [Scalar α]

namespace Shape

/-- How far a ray can go, with the quotient checked. -/
def checkedReach (extent u : α) : Except ArithmeticFault (Option α) :=
  if Scalar.tolerance < Scalar.abs u then (Scalar.quotient extent (Scalar.abs u)).map some
  else .ok none

/-- The distance to the outline, with every quotient checked. -/
def checkedDistance (shape : Shape) (hw hh ux uy : α) : Except ArithmeticFault α :=
  match shape with
  | .ellipse | .circle | .diamond | .angledSquare => shape.distance hw hh ux uy
  | _ => do
    let a ← checkedReach hw ux
    let b ← checkedReach hh uy
    pure (nearer a b)

/-- The point where a ray leaves the outline, with every quotient checked. -/
def checkedBoundaryPoint (shape : Shape) (box : Box α) (dx dy : α) :
    Except ArithmeticFault (Point α) :=
  let length := Scalar.length dx dy
  if length < Scalar.tolerance then .ok box.center
  else do
    let ux ← Scalar.quotient dx length
    let uy ← Scalar.quotient dy length
    let (hw, hh) := shape.extents box
    let t ← shape.checkedDistance hw hh ux uy
    pure ⟨box.cx + t * ux, box.cy + t * uy⟩

end Shape

end Checked

namespace Shape

theorem checkedReach_eq (extent u : ℝ) : checkedReach extent u = .ok (reach extent u) := by
  unfold checkedReach reach
  split_ifs with h
  · rw [Scalar.abs_real, Scalar.quotient_real _ (abs_pos_of_tolerance_lt h).ne']
    rfl
  · rfl

theorem checkedDistance_eq (shape : Shape) (hw hh ux uy : ℝ) :
    shape.checkedDistance hw hh ux uy = shape.distance hw hh ux uy := by
  cases shape <;> simp only [checkedDistance, checkedReach_eq] <;> rfl

/-- A ray is only divided by its length when that is not lost in the tolerance. -/
theorem checkedBoundaryPoint_eq (shape : Shape) (box : Box ℝ) (dx dy : ℝ) :
    shape.checkedBoundaryPoint box dx dy = shape.boundaryPoint box dx dy := by
  dsimp only [checkedBoundaryPoint, boundaryPoint]
  split_ifs with h
  · rfl
  · have hlength : Scalar.length dx dy ≠ 0 := by
      have hpos : (0 : ℝ) < Scalar.tolerance := by norm_num
      exact (hpos.trans_le (not_lt.mp h)).ne'
    simp only [Scalar.quotient_real _ hlength, checkedDistance_eq]
    rfl

end Shape

/-! ### Drawings -/

namespace Svg

theorem text_real (x : ℝ) :
    Scalar.text x = .ok (Decimal.ofHundredths (nearestEven (100 * x))) := by
  generalize hh : nearestEven (100 * x) = h
  have hrounded : Scalar.rounded x = (h : ℝ) / 100 := congrArg (fun n : ℤ => (n : ℝ) / 100) hh
  have hscaled : 100 * |(h : ℝ) / 100| = (|h| : ℤ) := by
    rw [abs_div, abs_of_pos (by norm_num : (0 : ℝ) < 100), mul_div_cancel₀ _ (by norm_num),
      Int.cast_abs]
  obtain ⟨i, hi⟩ : ∃ i, Scalar.truncated (Scalar.rounded x) = .ok i := ⟨_, rfl⟩
  refine Scalar.text_eq hi (fun hint => ?_) fun _ => ?_
  · have hwhole : Scalar.rounded x = (i : ℝ) := of_decide_eq_true hint
    rw [hrounded, div_eq_iff (by norm_num), mul_comm] at hwhole
    exact_mod_cast hwhole
  · have hsign : (h : ℝ) / 100 < 0 ↔ h < 0 := by
      rw [div_lt_iff₀ (by norm_num), zero_mul, Int.cast_lt_zero]
    rw [hrounded]
    change (decide ((h : ℝ) / 100 < 0), (nearestEven (100 * |(h : ℝ) / 100|)).natAbs) = _
    rw [hscaled, nearestEven_intCast, Int.natAbs_abs, decide_eq_decide.mpr hsign]

theorem exists_textElement (text : String) (center : Point ℝ) :
    ∃ e, textElement text center = .ok e := by
  unfold textElement
  rw [text_real, text_real]
  dsimp only [bind, Except.bind]
  split_ifs <;> exact ⟨_, rfl⟩

theorem exists_textElements (text : Option String) (center : Point ℝ) :
    ∃ es, textElements text center = .ok es := by
  cases text with
  | none => exact ⟨[], rfl⟩
  | some s =>
    obtain ⟨e, he⟩ := exists_textElement s center
    rw [textElements]
    split_ifs
    · exact ⟨[], rfl⟩
    · exact ⟨[e], by rw [he]; rfl⟩

theorem exists_outline (shape : Shape) (box : Box ℝ) : ∃ e, outline shape box = .ok e := by
  unfold outline number corner
  simp only [text_real]
  cases shape <;> exact ⟨_, rfl⟩

/-- A node that is placed has the box that its figure is drawn in. -/
theorem exists_figure (p : Placement ℝ) : ∃ e, (Figure.ofPlacement p).element = .ok e := by
  obtain ⟨shape, hshape⟩ := exists_outline p.node.shape p.box
  obtain ⟨text, htext⟩ := exists_textElements p.node.text p.box.center
  exact ⟨_, Result.bind_eq_ok_iff.mpr ⟨shape, Result.mapError_eq_ok_iff.mpr hshape,
    Result.bind_eq_ok_iff.mpr ⟨text, Result.mapError_eq_ok_iff.mpr htext, rfl⟩⟩⟩

theorem exists_pathData (points : List (Point ℝ)) : ∃ d, pathData points = .ok d := by
  cases points with
  | nil => exact ⟨"", rfl⟩
  | cons first points =>
    have hcommand (letter : String) (p : Point ℝ) : ∃ c, command letter p = .ok c := by
      unfold command
      rw [text_real, text_real]
      exact ⟨_, rfl⟩
    obtain ⟨move, hmove⟩ := hcommand "M" first
    obtain ⟨lines, hlines⟩ := Result.exists_mapM (l := points) fun p _ => hcommand "L" p
    exact ⟨_, Result.bind_eq_ok_iff.mpr ⟨move, hmove,
      Result.bind_eq_ok_iff.mpr ⟨lines, hlines, rfl⟩⟩⟩

theorem exists_arrowheadElement (a : Arrowhead ℝ) : ∃ e, arrowheadElement a = .ok e := by
  obtain ⟨d, hd⟩ := exists_pathData [a.apex, a.left, a.right]
  exact ⟨_, Result.bind_eq_ok_iff.mpr ⟨d, hd, rfl⟩⟩

theorem exists_trace (t : Trace ℝ) : ∃ e, t.element = .ok e := by
  obtain ⟨d, hd⟩ := exists_pathData t.points
  obtain ⟨heads, hheads⟩ :=
    Result.exists_mapM (l := t.arrowheads) fun a _ => exists_arrowheadElement a
  obtain ⟨text, htext⟩ := exists_textElements t.text (Polyline.midpoint t.points)
  exact ⟨_, Result.bind_eq_ok_iff.mpr ⟨d, hd, Result.bind_eq_ok_iff.mpr ⟨heads, hheads,
    Result.bind_eq_ok_iff.mpr ⟨text, htext, rfl⟩⟩⟩⟩

/-- Every chart has a drawing. -/
theorem exists_write (chart : Chart ℝ) (sheets : List String) :
    ∃ svg, (Drawing.ofChart chart).write sheets = .ok svg := by
  have hfigure : ∀ f ∈ (Drawing.ofChart chart).figures, ∃ e, f.element = .ok e := by
    intro f hf
    obtain ⟨p, -, rfl⟩ := List.mem_map.mp hf
    exact exists_figure p
  obtain ⟨figures, hfigures⟩ := Result.exists_mapM hfigure
  obtain ⟨traces, htraces⟩ :=
    Result.exists_mapM (l := (Drawing.ofChart chart).traces) fun t _ => exists_trace t
  have helement : ∃ e, (Drawing.ofChart chart).element sheets = .ok e :=
    ⟨_, Result.bind_eq_ok_iff.mpr ⟨_, Result.mapError_eq_ok_iff.mpr (text_real _),
      Result.bind_eq_ok_iff.mpr ⟨_, Result.mapError_eq_ok_iff.mpr (text_real _),
        Result.bind_eq_ok_iff.mpr ⟨figures, hfigures, Result.bind_eq_ok_iff.mpr
          ⟨traces, Result.mapError_eq_ok_iff.mpr htraces, rfl⟩⟩⟩⟩⟩
  obtain ⟨e, he⟩ := helement
  exact ⟨_, by rw [Drawing.write, he]; rfl⟩

end Svg

/-! ### Mistakes -/

/-- A text that passes these stages has no mistake. -/
theorem not_mistake {text : String} {d : Document} {drafts : List Draft} {nodes : List Node}
    (hread : Document.read text = .ok d) (hdrafts : d.drafts = .ok drafts)
    (hnodes : ∀ grid, d.grid drafts = .ok grid → Node.ofDrafts drafts grid = .ok nodes)
    (fault : Diagnostic) : ¬ Mistake text fault := by
  intro h
  cases h with
  | reading failed => cases hread.symm.trans failed
  | drafting read failed =>
    cases hread.symm.trans read
    cases hdrafts.symm.trans failed
  | linking read drafted placed failed =>
    cases hread.symm.trans read
    cases hdrafts.symm.trans drafted
    cases (hnodes _ placed).symm.trans failed

namespace Chart

variable {m : Metrics ℝ} {text : String}

/-- Where the geometry of a chart divides, no divisor is zero. -/
structure DividesSafely (chart : Chart ℝ) : Prop where
  /-- Rays from the centers of the boxes leave the outlines. -/
  anchors : ∀ p ∈ chart.placements, ∀ side : Side,
    ∃ q, p.node.shape.checkedBoundaryPoint p.box (side.dx : ℝ) (side.dy : ℝ) = .ok q
  /-- Routes have a point halfway. -/
  midpoints : ∀ p ∈ chart.placements, ∀ r ∈ p.routes,
    Polyline.checkedMidpoint r.points = .ok (Polyline.midpoint r.points)

theorem dividesSafely_of_compile (hm : m.Positive) {chart : Chart ℝ}
    (h : compile m text = .ok chart) : chart.DividesSafely := by
  obtain ⟨grid, nodes, -, hn⟩ := exists_seating_of_compile h
  refine ⟨fun p hp side => ?_, fun p _ r _ => Polyline.checkedMidpoint_eq r.points⟩
  obtain ⟨i, hi⟩ := List.mem_iff_getElem?.mp hp
  rw [Shape.checkedBoundaryPoint_eq, (placement_eq hn hi).2]
  exact ⟨_, Node.anchor_eq hm p.node side⟩

theorem compile_eq_error {fault : Diagnostic} (h : Mistake text fault) :
    compile m text = .error (.source fault) := by
  cases h with
  | reading failed =>
    exact Result.bind_eq_error_iff.mpr (.inl (Result.mapError_eq_error _ failed))
  | drafting read failed =>
    refine Result.bind_eq_error_iff.mpr (.inr ⟨_, Result.mapError_eq_ok_iff.mpr read, ?_⟩)
    exact Result.bind_eq_error_iff.mpr (.inl (Result.mapError_eq_error _ failed))
  | linking read drafted placed failed =>
    refine Result.bind_eq_error_iff.mpr (.inr ⟨_, Result.mapError_eq_ok_iff.mpr read, ?_⟩)
    refine Result.bind_eq_error_iff.mpr (.inr ⟨_, Result.mapError_eq_ok_iff.mpr drafted, ?_⟩)
    refine Result.bind_eq_error_iff.mpr (.inr ⟨_, Result.mapError_eq_ok_iff.mpr placed, ?_⟩)
    exact Result.bind_eq_error_iff.mpr (.inl (Result.mapError_eq_error _ failed))

/-- A text has a mistake or a chart. -/
theorem mistake_or_compile (hm : m.Positive) (text : String) :
    (∃ fault, Mistake text fault) ∨
      (∀ fault, ¬ Mistake text fault) ∧ ∃ chart, compile m text = .ok chart := by
  cases hread : Document.read text with
  | error fault => exact .inl ⟨fault, .reading hread⟩
  | ok d =>
    cases hdrafts : d.drafts with
    | error fault => exact .inl ⟨fault, .drafting hread hdrafts⟩
    | ok drafts =>
      obtain ⟨grid, hgrid⟩ := Document.exists_grid hdrafts
      cases hn : Node.ofDrafts drafts grid with
      | error fault => exact .inl ⟨fault, .linking hread hdrafts hgrid hn⟩
      | ok nodes =>
        have hnodes (grid' : Grid Nat) (h : d.grid drafts = .ok grid') :
            Node.ofDrafts drafts grid' = .ok nodes := by
          cases hgrid.symm.trans h
          exact hn
        have htargets : ∀ node ∈ nodes, ∀ link ∈ node.links, link.target < nodes.length :=
          fun node hnode link hlink => Document.target_lt_of_ofDrafts hdrafts hgrid hn hnode hlink
        obtain ⟨-, chart, hchart, -⟩ := exists_compile hm hread hdrafts hnodes htargets
        exact .inr ⟨not_mistake hread hdrafts hnodes, chart, hchart⟩

end Chart

namespace Svg

/-- Whatever the measures are, as long as they are positive, a text is drawn or has a mistake,
and only the mistake is reported. -/
theorem drawn_or_mistaken {m : Metrics ℝ} (hm : m.Positive) (sheets : List String)
    (text : String) :
    (∃ fault, Mistake text fault ∧ Chart.compile m text = .error (.source fault) ∧
      draw m sheets text = .error (.source fault)) ∨
    (∀ fault, ¬ Mistake text fault) ∧ ∃ chart svg, Chart.compile m text = .ok chart ∧
      chart.DividesSafely ∧ (Drawing.ofChart chart).write sheets = .ok svg ∧
      draw m sheets text = .ok svg := by
  rcases Chart.mistake_or_compile hm text with ⟨fault, h⟩ | ⟨hnone, chart, hchart⟩
  · have hcompile : Chart.compile m text = .error (.source fault) := Chart.compile_eq_error h
    exact .inl ⟨fault, h, hcompile, by rw [draw, hcompile]; rfl⟩
  · obtain ⟨svg, hsvg⟩ := exists_write chart sheets
    refine .inr ⟨hnone, chart, svg, hchart, Chart.dividesSafely_of_compile hm hchart, hsvg, ?_⟩
    exact Result.bind_eq_ok_iff.mpr ⟨chart, hchart, hsvg⟩

/-- A link and a loop are drawn where all gaps are lost in the tolerance. -/
theorem drawn_or_mistaken_of_narrow_gaps :
    let m : Metrics ℝ := ⟨200, 100, 1 / 10 ^ 10, 1 / 10 ^ 10⟩
    m.Positive ∧ ∃ chart svg,
      Chart.compile m "grid \x7b a(connect: \x7b e:w#x; n:n@ \x7d), b#x; \x7d" = .ok chart ∧
      chart.DividesSafely ∧
      draw m [] "grid \x7b a(connect: \x7b e:w#x; n:n@ \x7d), b#x; \x7d" = .ok svg := by
  intro m
  have hm : m.Positive := Metrics.positive_narrow
  refine ⟨hm, ?_⟩
  obtain ⟨document, drafts, hread, hdrafts, hnodes⟩ := Chart.exists_drafts_linkAndLoop
  rcases drawn_or_mistaken hm [] "grid \x7b a(connect: \x7b e:w#x; n:n@ \x7d), b#x; \x7d" with
    ⟨fault, h, -⟩ | ⟨-, chart, svg, hchart, hsafe, -, hsvg⟩
  · exact absurd h (not_mistake hread hdrafts (fun grid _ => hnodes grid) fault)
  · exact ⟨chart, svg, hchart, hsafe, hsvg⟩

end Svg
end FlowGrid
