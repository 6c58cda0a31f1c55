import FlowGrid.Proofs.Chart.Nodes
import FlowGrid.Proofs.Exact.Anchor
import FlowGrid.Proofs.Exact.Arrowhead
import FlowGrid.Proofs.Exact.Polyline
import FlowGrid.Proofs.Lattice.FewestTurns

/-! The path of a link over exact numbers. It leaves its source along a stem, which ends in
the lane around the cell, follows a walk over free vertices and enters its target along
another stem; a loop stays beside the stem of its side. Stems and loops stay around the cell
of their node and outside its outline, and a step between free vertices meets no occupied
cell, so no point of the path lies in another node or inside an outline. -/

namespace FlowGrid

open FlowGrid.Lattice

variable {m : Metrics ℝ} {grid : Grid Nat} {nodes : List Node} {source target : Node}

/-! ### Clear points -/

/-- The box of the cell that a node sits in. -/
def Node.box (m : Metrics ℝ) (node : Node) : Box ℝ := m.cellBox node.row node.col

/-- The center of a node on the lattice. -/
def Node.vertex (node : Node) : Vertex := .ofCell node.row node.col

theorem Node.size_box (m : Metrics ℝ) (node : Node) (a : Axis) : (node.box m).size a = m.size a := by
  cases a <;> rfl

theorem Node.center_box (m : Metrics ℝ) (node : Node) :
    (node.box m).center = node.vertex.toPoint m := m.center_cellBox node.row node.col

/-- A link between two nodes may pass the point: it lies on the canvas, inside no outline, and
in no cell of a node but the two. -/
structure Clears (m : Metrics ℝ) (grid : Grid Nat) (nodes : List Node) (source target : Node)
    (p : Point ℝ) : Prop where
  onCanvas : m.OnCanvas grid.rows grid.cols p
  outline {node : Node} : node ∈ nodes → ¬ node.shape.Covers (node.box m) p
  cell {node : Node} : node ∈ nodes → node ≠ source → node ≠ target → ¬ (node.box m).Holds p

/-- The points of a step between free vertices are clear. -/
theorem clears_of_step (hm : m.Positive) (hs : Seating grid nodes) {q : Query}
    (hq : q.grid = grid) {v : Vertex} {h : Heading} (hv : q.Free v) (hw : q.Free (v.move h))
    (hh : h ∈ Heading.steps) {t : ℝ} (ht : t ∈ Set.Icc 0 (m.pitch h.axis)) :
    Clears m grid nodes source target ((v.toPoint m).shift h t) := by
  subst hq
  have hcell {node : Node} (hn : node ∈ nodes) :
      ¬ (node.box m).Holds ((v.toPoint m).shift h t) := by
    intro hp
    have hnone : q.grid.get? node.row node.col = none := by
      rcases m.center_of_step hm hh ht hp with hc | hc
      · exact hv.2.2 _ _ hc.symm
      · exact hw.2.2 _ _ hc.symm
    rw [hs.get? hn] at hnone
    cases hnone
  refine ⟨?_, fun hn hp => hcell hn hp.holds, fun hn _ _ => hcell hn⟩
  rcases m.spans_step v hh ht with hp | hp
  · exact hp.onCanvas hm hv.within hw.within
  · exact hp.onCanvas hm hw.within hv.within

/-- The points around the cell of an end and outside its outline are clear. -/
theorem clears_of_around (hm : m.Positive) (hs : Seating grid nodes) {node : Node}
    (hn : node ∈ nodes) (hend : node = source ∨ node = target) {p : Point ℝ}
    (hp : m.Around node.row node.col p) (hout : ¬ node.shape.Covers (node.box m) p) :
    Clears m grid nodes source target p := by
  have hself {other : Node} (ho : other ∈ nodes) (hb : (other.box m).Holds p) : other = node := by
    obtain ⟨hrow, hcol⟩ := hp.cell_eq hm hb
    exact hs.eq_of_cell ho hn (by omega) (by omega)
  refine ⟨hp.onCanvas hm (hs.inBounds hn), fun ho hb => ?_, fun ho hsource htarget hb => ?_⟩
  · obtain rfl := hself ho hb.holds
    exact hout hb
  · obtain rfl := hself ho hb
    exact hend.elim hsource htarget

/-! ### Beside a side -/

theorem Lattice.Heading.abs_along_axis_mul {h : Heading} (hh : h ∈ Heading.steps) {t : ℝ}
    (ht : 0 ≤ t) : |(h.along h.axis : ℝ) * t| = t := by
  rw [abs_mul, ← Int.cast_abs, Int.abs_eq_natAbs, Heading.natAbs_along_axis hh, abs_of_nonneg ht]
  simp

/-- A point in front of a side, off its normal by `r`, is clear when it is not nearer to the
center than the outline and no farther than the lanes. -/
theorem clears_beside (hm : m.Positive) (hs : Seating grid nodes) {node : Node}
    (hn : node ∈ nodes) (hend : node = source ∨ node = target) {h k : Heading}
    (hh : h ∈ Heading.steps) (hk : k ∈ Heading.steps) (hkh : k.axis = h.axis.other) {t r : ℝ}
    (ht : t ∈ Set.Icc (node.shape.extent (node.box m) h.axis) (m.pitch h.axis))
    (hr : r ∈ Set.Icc 0 (m.pitch k.axis)) :
    Clears m grid nodes source target (((node.vertex.toPoint m).shift h t).shift k r) := by
  have hextent : 0 < node.shape.extent (node.box m) h.axis :=
    node.shape.extent_pos (fun a => by rw [Node.size_box]; exact hm.size a) _
  have hoff (a : Axis) : (((node.vertex.toPoint m).shift h t).shift k r).along a -
      (node.vertex.toPoint m).along a = h.along a * t + k.along a * r := by
    rw [Point.along_shift, Point.along_shift]
    ring
  have hfront : h.along h.axis * t + k.along h.axis * r = h.along h.axis * t := by
    have := Heading.along_axis_other hk
    rw [hkh, Axis.other_other] at this
    rw [this]
    simp
  have hside : h.along k.axis * t + k.along k.axis * r = k.along k.axis * r := by
    rw [hkh, Heading.along_axis_other hh]
    simp
  apply clears_of_around hm hs hn hend
  · refine (m.around_iff _ _ _).mpr fun a => ?_
    rw [← Node.vertex, hoff]
    rcases Axis.eq_or_eq_other h.axis a with rfl | rfl
    · rw [hfront, Heading.abs_along_axis_mul hh (by linarith [ht.1])]
      exact ht.2
    · rw [← hkh, hside, Heading.abs_along_axis_mul hk hr.1]
      exact hr.2
  · rw [Shape.covers_iff, Node.center_box]
    intro hcovers
    have := hcovers h.axis
    rw [hoff, hfront, Heading.abs_along_axis_mul hh (by linarith [ht.1])] at this
    exact not_le.mpr this ht.1

theorem clears_stem (hm : m.Positive) (hs : Seating grid nodes) {node : Node}
    (hn : node ∈ nodes) (hend : node = source ∨ node = target) {h : Heading}
    (hh : h ∈ Heading.steps) {t : ℝ}
    (ht : t ∈ Set.Icc (node.shape.extent (node.box m) h.axis) (m.pitch h.axis)) :
    Clears m grid nodes source target ((node.vertex.toPoint m).shift h t) := by
  have hside := clears_beside hm hs hn hend hh (h.axis.other.toward_mem_steps one_ne_zero)
    (Heading.axis_toward _ one_ne_zero) ht ⟨le_rfl, (hm.pitch _).le⟩
  rwa [Point.shift_zero] at hside

/-! ### Stems -/

/-- The point where links touch a side of a node. -/
noncomputable def Node.anchor (m : Metrics ℝ) (node : Node) (side : Side) : Point ℝ :=
  (node.vertex.toPoint m).shift (.ofSide side)
    (node.shape.extent (node.box m) (Heading.ofSide side).axis)

theorem Node.anchor_eq (hm : m.Positive) (node : Node) (side : Side) :
    node.shape.anchor (m.cellBox node.row node.col) side = .ok (node.anchor m side) := by
  rw [← Node.box, Shape.anchor_eq, Node.center_box, Node.anchor]
  intro a
  rw [Node.size_box]
  exact hm.size a

/-- Links touch a node in its box at its anchors. -/
theorem Chart.anchor_eq (hm : m.Positive) {chart : Chart ℝ} (h : ofNodes m grid nodes = .ok chart)
    {i : Nat} {placement : Placement ℝ} (hi : chart.placements[i]? = some placement) (side : Side) :
    placement.node.shape.anchor placement.box side = .ok (placement.node.anchor m side) := by
  rw [(placement_eq h hi).2]
  exact Node.anchor_eq hm placement.node side

/-- The length of the stem between a side and the lane along it. -/
noncomputable def Node.stem (m : Metrics ℝ) (node : Node) (a : Axis) : ℝ :=
  m.pitch a - node.shape.extent (node.box m) a

theorem Node.half_gap_le_stem (m : Metrics ℝ) (node : Node) (a : Axis) :
    m.gap a / 2 ≤ node.stem m a := by
  have := node.shape.extent_le (node.box m) a
  rw [Node.size_box] at this
  rw [stem, Metrics.pitch_eq]
  linarith

theorem Node.le_stem {ε : ℝ} (hε : ∀ a, 2 * ε ≤ m.gap a) (node : Node) (a : Axis) :
    ε ≤ node.stem m a := by
  linarith [hε a, node.half_gap_le_stem m a]

theorem Node.stem_pos (hm : m.Positive) (node : Node) (a : Axis) : 0 < node.stem m a := by
  linarith [hm.gap a, node.half_gap_le_stem m a]

theorem Node.toPoint_stub (m : Metrics ℝ) (node : Node) (side : Side) :
    (Vertex.stub node.row node.col side).toPoint m =
      (node.anchor m side).shift (.ofSide side) (node.stem m (Heading.ofSide side).axis) := by
  rw [Vertex.stub, Vertex.toPoint_move m _ (Heading.ofSide_mem_steps side), anchor,
    Point.shift_shift, stem, add_sub_cancel, vertex]

theorem clears_leaving (hm : m.Positive) (hs : Seating grid nodes) {node : Node}
    (hn : node ∈ nodes) (hend : node = source ∨ node = target) (side : Side) {t : ℝ}
    (ht : t ∈ Set.Icc 0 (node.stem m (Heading.ofSide side).axis)) :
    Clears m grid nodes source target ((node.anchor m side).shift (.ofSide side) t) := by
  rw [Node.stem] at ht
  rw [Node.anchor, Point.shift_shift]
  exact clears_stem hm hs hn hend (Heading.ofSide_mem_steps side)
    ⟨by linarith [ht.1], by linarith [ht.2]⟩

theorem clears_entering (hm : m.Positive) (hs : Seating grid nodes) {node : Node}
    (hn : node ∈ nodes) (hend : node = source ∨ node = target) (side : Side) {t : ℝ}
    (ht : t ∈ Set.Icc 0 (node.stem m (Heading.ofSide side).axis)) :
    Clears m grid nodes source target
      (((Vertex.stub node.row node.col side).toPoint m).shift (Heading.ofSide side).reverse t) := by
  rw [Node.toPoint_stub, Point.shift_reverse, Point.shift_shift]
  exact clears_leaving hm hs hn hend side ⟨by linarith [ht.2], by linarith [ht.1]⟩

/-! ### Routes -/

open FlowGrid.Polyline

theorem Lattice.Heading.forward_iff_isChain (h : Heading) (l : List Heading) :
    h.Forward l ↔ (h :: l).IsChain fun a b => b ≠ a.reverse := by
  induction l generalizing h with
  | nil => simp [Forward]
  | cons k l ih => rw [Forward, ih, List.isChain_cons_cons]

/-- A walk over free vertices is a polyline of clear points, one run for every step. -/
theorem runs_walk (hm : m.Positive) (hs : Seating grid nodes) {q : Query} (hq : q.grid = grid)
    {ε : ℝ} (hε : ∀ a, ε ≤ m.pitch a) {finish : Point ℝ} {into : Heading} {steps : List Heading}
    {v w : Vertex} (hu : ∀ h ∈ steps, h ∈ Heading.steps) (hfree : ∀ u ∈ v.trace steps, q.Free u)
    (hw : v.after steps = w)
    (hlast : Runs (Clears m grid nodes source target) ε (w.toPoint m) [finish] [into]) :
    Runs (Clears m grid nodes source target) ε (v.toPoint m)
      ((v.visits steps).map (·.toPoint m) ++ [finish]) (steps ++ [into]) := by
  induction steps generalizing v with
  | nil =>
    obtain rfl := hw
    exact hlast
  | cons h steps ih =>
    have hh := hu h (.head _)
    have hrest := ih (fun k hk => hu k (.tail _ hk)) (fun u hu => hfree u (.tail _ hu)) hw
    have hstep (t : ℝ) (ht : t ∈ Set.Icc 0 (m.pitch h.axis)) :
        Clears m grid nodes source target ((v.toPoint m).shift h t) :=
      clears_of_step hm hs hq (hfree v (.head _)) (hfree _ (.tail _ (.head _))) hh ht
    rw [Vertex.visits, List.map_cons, List.cons_append, List.cons_append]
    rw [Vertex.toPoint_move m v hh] at hrest ⊢
    exact .cons hh (hm.pitch _) (hε _) hstep hrest

theorem runs_entering (hm : m.Positive) (hs : Seating grid nodes) (htarget : target ∈ nodes)
    (side : Side) {ε : ℝ} (hε : ∀ a, 2 * ε ≤ m.gap a) :
    Runs (Clears m grid nodes source target) ε
      ((Vertex.stub target.row target.col side).toPoint m)
      [target.anchor m side] [(Heading.ofSide side).reverse] := by
  have hfinish : target.anchor m side = ((Vertex.stub target.row target.col side).toPoint m).shift
      (Heading.ofSide side).reverse (target.stem m (Heading.ofSide side).axis) := by
    rw [Node.toPoint_stub, Point.shift_reverse, Point.shift_shift, add_neg_cancel,
      Point.shift_zero]
  rw [hfinish]
  exact .cons (Heading.reverse_mem_steps (Heading.ofSide_mem_steps side)) (target.stem_pos hm _)
    (target.le_stem hε _) (fun t ht => clears_entering hm hs htarget (.inr rfl) side ht) (.nil _)

/-- The walk of a link with its stems is a polyline of clear points. -/
theorem runs_link (hm : m.Positive) (hs : Seating grid nodes) (hsource : source ∈ nodes)
    (htarget : target ∈ nodes) {link : Link} {ε : ℝ} (hε : ∀ a, 2 * ε ≤ m.gap a)
    {steps : List Heading} (hw : (latticeQuery grid source target link).IsWalk steps) :
    Runs (Clears m grid nodes source target) ε (source.anchor m link.sourceSide)
      (((Vertex.stub source.row source.col link.sourceSide).trace steps).map (·.toPoint m) ++
        [target.anchor m link.targetSide])
      (.ofSide link.sourceSide :: (steps ++ [(Heading.ofSide link.targetSide).reverse])) := by
  have hstart : (latticeQuery grid source target link).Free
      (.stub source.row source.col link.sourceSide) :=
    (Query.within_stub (hs.inBounds hsource) link.sourceSide).free (Vertex.stub_lane _ _ _)
  have hfree : ∀ u ∈ (Vertex.stub source.row source.col link.sourceSide).trace steps,
      (latticeQuery grid source target link).Free u := by
    intro u hu
    rcases List.mem_cons.mp hu with rfl | hu
    · exact hstart
    · exact hw.free u hu
  have hpitch (a : Axis) : ε ≤ m.pitch a := by
    rw [Metrics.pitch_eq]
    linarith [hε a, hm.size a, hm.gap a]
  have hlast : Runs (Clears m grid nodes source target) ε
      ((latticeQuery grid source target link).goal.toPoint m) _ _ :=
    runs_entering hm hs htarget link.targetSide hε
  have hwalk := runs_walk hm hs rfl hpitch hw.unit hfree hw.arrives hlast
  rw [Vertex.trace, List.map_cons, List.cons_append]
  rw [Node.toPoint_stub] at hwalk ⊢
  exact .cons (Heading.ofSide_mem_steps _) (source.stem_pos hm _) (source.le_stem hε _)
    (fun t ht => clears_leaving hm hs hsource (.inl rfl) _ ht) hwalk

theorem betweenSides_latticeQuery (hs : Seating grid nodes) (hsource : source ∈ nodes)
    (htarget : target ∈ nodes) {link : Link}
    (hne : ¬ (source.index = target.index ∧ link.sourceSide = link.targetSide)) :
    (latticeQuery grid source target link).BetweenSides := by
  apply Query.betweenSides_between (hs.inBounds hsource) (hs.inBounds htarget)
  intro heq
  simp only [Prod.mk.injEq, Int.natCast_inj] at heq
  obtain rfl := hs.eq_of_cell hsource htarget heq.1 heq.2.1
  exact hne ⟨rfl, heq.2.2⟩

theorem linkPath_eq (hm : m.Positive) {link : Link}
    (hne : ¬ (source.index = target.index ∧ link.sourceSide = link.targetSide))
    {walk : List Vertex} (hroute : (latticeQuery grid source target link).route = .ok walk) :
    linkPath m grid source target link = .ok (simplify (source.anchor m link.sourceSide ::
      (walk.map (·.toPoint m) ++ [target.anchor m link.targetSide]))) := by
  rw [linkPath, Node.anchor_eq hm, Node.anchor_eq hm]
  refine Result.bind_eq_ok_iff.mpr ⟨_, rfl, Result.bind_eq_ok_iff.mpr ⟨_, rfl, ?_⟩⟩
  rw [if_neg hne]
  exact Result.bind_eq_ok_iff.mpr ⟨_, hroute, rfl⟩

/-- A link that is not a loop of one side is drawn as a path of clear points. -/
theorem exists_route_path (hm : m.Positive) (hgap : ∀ a, 2 / 10 ^ 9 ≤ m.gap a)
    (hs : Seating grid nodes) (hsource : source ∈ nodes) (htarget : target ∈ nodes)
    {link : Link} (hne : ¬ (source.index = target.index ∧ link.sourceSide = link.targetSide)) :
    ∃ points, linkPath m grid source target link = .ok points ∧
      IsPath (Clears m grid nodes source target) (source.anchor m link.sourceSide)
        (target.anchor m link.targetSide) (.ofSide link.sourceSide)
        (Heading.ofSide link.targetSide).reverse points := by
  obtain ⟨steps, hroute, hw, -⟩ := (betweenSides_latticeQuery hs hsource htarget hne).exists_best
  have hruns := runs_link hm hs hsource htarget (Metrics.two_mul_tolerance_le hgap) hw
  refine ⟨_, linkPath_eq hm hne hroute, hruns.isPath_simplify ?_ rfl ?_ ?_⟩
  · rw [List.getLast?_concat]
  · rw [← List.cons_append, List.getLast?_concat]
  · exact (Heading.forward_iff_isChain _ _).mp hw.forward

/-! ### Loops -/

/-- The heading along a side. -/
def Lattice.Heading.alongSide (side : Side) : Heading := ⟨-side.dy, side.dx⟩

theorem Lattice.Heading.alongSide_mem_steps (side : Side) : alongSide side ∈ steps := by
  cases side <;> decide

theorem Lattice.Heading.axis_alongSide (side : Side) :
    (alongSide side).axis = (ofSide side).axis.other := by
  cases side <;> decide

/-- How far a loop reaches along its side. -/
noncomputable def loopWidth (m : Metrics ℝ) (side : Side) : ℝ :=
  min (m.size (Heading.alongSide side).axis / ((4 : Int) : ℝ))
    (Scalar.half (m.gap (Heading.ofSide side).axis))

theorem loopWidth_pos (hm : m.Positive) (side : Side) : 0 < loopWidth m side := by
  have hsize := hm.size (Heading.alongSide side).axis
  have hgap := hm.gap (Heading.ofSide side).axis
  rw [loopWidth, Scalar.half_real]
  push_cast
  exact lt_min (by linarith) (by linarith)

theorem loopWidth_le (hm : m.Positive) (side : Side) :
    loopWidth m side ≤ m.pitch (Heading.alongSide side).axis := by
  refine (min_le_left _ _).trans ?_
  rw [Metrics.pitch_eq]
  push_cast
  linarith [hm.size (Heading.alongSide side).axis, hm.gap (Heading.alongSide side).axis]

/-- A loop off the stem of a side runs out, along the side, back, and in again. -/
theorem sideLoop_eq (m : Metrics ℝ) (p : Point ℝ) (row col : Int) (side : Side) :
    let d := m.gap (Heading.ofSide side).axis / 4
    let outer := p.shift (.ofSide side) (d + d)
    let corner := outer.shift (.alongSide side) (loopWidth m side)
    let back := corner.shift (Heading.ofSide side).reverse d
    let inner := back.shift (Heading.alongSide side).reverse (loopWidth m side)
    sideLoop m p (m.cellBox row col) side =
      [p, outer, corner, back, inner, inner.shift (Heading.ofSide side).reverse d] := by
  obtain ⟨x, y⟩ := p
  cases side <;>
    simp [sideLoop, loopWidth, Point.shift, Heading.ofSide, Heading.alongSide, Heading.reverse,
      Side.dx, Side.dy, Side.isVertical, Heading.axis, Metrics.gap, Metrics.size, Metrics.cellBox,
      ← min_def_lt] <;>
    refine ⟨?_, ?_, ?_⟩ <;> ring

theorem clears_loop (hm : m.Positive) (hs : Seating grid nodes) {node : Node} (hn : node ∈ nodes)
    {side : Side} {t r : ℝ} (ht : t ∈ Set.Icc 0 (m.gap (Heading.ofSide side).axis / 2))
    (hr : r ∈ Set.Icc 0 (loopWidth m side)) :
    Clears m grid nodes node node
      (((node.anchor m side).shift (.ofSide side) t).shift (.alongSide side) r) := by
  have hstem := node.half_gap_le_stem m (Heading.ofSide side).axis
  rw [Node.stem] at hstem
  rw [Node.anchor, Point.shift_shift]
  exact clears_beside hm hs hn (.inl rfl) (Heading.ofSide_mem_steps side)
    (Heading.alongSide_mem_steps side) (Heading.axis_alongSide side)
    ⟨by linarith [ht.1], by linarith [ht.2]⟩ ⟨hr.1, hr.2.trans (loopWidth_le hm side)⟩

/-- A loop of one side is a path of clear points. -/
theorem isPath_sideLoop (hm : m.Positive) (hs : Seating grid nodes) {node : Node}
    (hn : node ∈ nodes) (side : Side) :
    IsPath (Clears m grid nodes node node) (node.anchor m side) (node.anchor m side)
      (.ofSide side) (Heading.ofSide side).reverse
      (sideLoop m (node.anchor m side) (m.cellBox node.row node.col) side) := by
  have hh := Heading.ofSide_mem_steps side
  have hk := Heading.alongSide_mem_steps side
  have hw := loopWidth_pos hm side
  have hd : 0 < m.gap (Heading.ofSide side).axis / 4 := by
    linarith [hm.gap (Heading.ofSide side).axis]
  have hhalf : m.gap (Heading.ofSide side).axis / 2 =
      m.gap (Heading.ofSide side).axis / 4 + m.gap (Heading.ofSide side).axis / 4 := by
    ring
  have hclear {p : Point ℝ} (t r : ℝ)
      (hp : p = ((node.anchor m side).shift (.ofSide side) t).shift (.alongSide side) r)
      (ht : t ∈ Set.Icc 0 (m.gap (Heading.ofSide side).axis / 2))
      (hr : r ∈ Set.Icc 0 (loopWidth m side)) : Clears m grid nodes node node p :=
    hp ▸ clears_loop hm hs hn ht hr
  have hcomm (p : Point ℝ) (s t : ℝ) := p.shift_comm (.alongSide side) (.ofSide side) s t
  rw [sideLoop_eq]
  generalize m.gap (Heading.ofSide side).axis / 4 = d at hd hhalf ⊢
  rw [hhalf] at hclear
  generalize loopWidth m side = w at hw hclear ⊢
  refine ⟨_, [.ofSide side, .alongSide side, (Heading.ofSide side).reverse,
    (Heading.alongSide side).reverse, (Heading.ofSide side).reverse], rfl, ?_, ?_, rfl, rfl, ?_⟩
  · simp [Point.shift_reverse, hcomm, Point.shift_shift]
  · refine .cons hh (by linarith) (by linarith) (fun s hs => ?_) (.cons hk hw hw.le (fun s hs => ?_)
      (.cons (Heading.reverse_mem_steps hh) hd hd.le (fun s hs => ?_)
        (.cons (Heading.reverse_mem_steps hk) hw hw.le (fun s hs => ?_)
          (.cons (Heading.reverse_mem_steps hh) hd hd.le (fun s hs => ?_) (.nil _)))))
    · refine hclear s 0 ?_ hs ⟨le_rfl, hw.le⟩
      rw [Point.shift_zero]
    · exact hclear (d + d) s rfl ⟨by linarith, le_rfl⟩ hs
    · refine hclear (d + d + -s) w ?_ ⟨by linarith [hs.2], by linarith [hs.1]⟩ ⟨hw.le, le_rfl⟩
      simp only [Point.shift_reverse, hcomm, Point.shift_shift]
    · refine hclear (d + d + -d) (w + -s) ?_ ⟨by linarith, by linarith⟩
        ⟨by linarith [hs.2], by linarith [hs.1]⟩
      simp only [Point.shift_reverse, hcomm, Point.shift_shift]
    · refine hclear (d + d + -d + -s) (w + -w) ?_ ⟨by linarith [hs.2], by linarith [hs.1]⟩
        ⟨by linarith, by linarith⟩
      simp only [Point.shift_reverse, hcomm, Point.shift_shift]
  · cases side <;> decide

theorem linkPath_eq_sideLoop (hm : m.Positive) {link : Link}
    (hside : link.sourceSide = link.targetSide) :
    linkPath m grid source source link =
      .ok (sideLoop m (source.anchor m link.sourceSide) (m.cellBox source.row source.col)
        link.sourceSide) := by
  rw [linkPath, ← hside, Node.anchor_eq hm]
  refine Result.bind_eq_ok_iff.mpr ⟨_, rfl, Result.bind_eq_ok_iff.mpr ⟨_, rfl, ?_⟩⟩
  exact if_pos ⟨rfl, rfl⟩

/-! ### All links -/

/-- Every link is drawn as a path of clear points from anchor to anchor. -/
theorem exists_path (hm : m.Positive) (hgap : ∀ a, 2 / 10 ^ 9 ≤ m.gap a)
    (hs : Seating grid nodes) (hsource : source ∈ nodes) (htarget : target ∈ nodes)
    (link : Link) :
    ∃ points, linkPath m grid source target link = .ok points ∧
      IsPath (Clears m grid nodes source target) (source.anchor m link.sourceSide)
        (target.anchor m link.targetSide) (.ofSide link.sourceSide)
        (Heading.ofSide link.targetSide).reverse points := by
  by_cases hloop : source.index = target.index ∧ link.sourceSide = link.targetSide
  · obtain rfl := hs.eq_of_index hsource htarget hloop.1
    rw [← hloop.2]
    exact ⟨_, linkPath_eq_sideLoop hm hloop.2, isPath_sideLoop hm hs hsource link.sourceSide⟩
  · exact exists_route_path hm hgap hs hsource htarget hloop

/-- Every link is drawn, and no two neighboring points of its path are equal. The gaps may be
lost in the tolerance: then the path has fewer points. -/
theorem exists_linkPath (hm : m.Positive) (hs : Seating grid nodes) (hsource : source ∈ nodes)
    (htarget : target ∈ nodes) (link : Link) :
    ∃ points, linkPath m grid source target link = .ok points ∧ points.IsChain (· ≠ ·) := by
  by_cases hloop : source.index = target.index ∧ link.sourceSide = link.targetSide
  · obtain rfl := hs.eq_of_index hsource htarget hloop.1
    exact ⟨_, linkPath_eq_sideLoop hm hloop.2, (isPath_sideLoop hm hs hsource _).isChain_ne⟩
  · obtain ⟨steps, hroute, -, -⟩ :=
      (betweenSides_latticeQuery hs hsource htarget hloop).exists_best
    exact ⟨_, linkPath_eq hm hloop hroute, (isChain_simplify _).imp fun _ _ => Apart.ne⟩

/-- Seated nodes whose links lead to nodes make a chart. -/
theorem Chart.exists_ofNodes (hm : m.Positive) (hs : Seating grid nodes)
    (htargets : ∀ node ∈ nodes, ∀ link ∈ node.links, link.target < nodes.length) :
    ∃ chart, ofNodes m grid nodes = .ok chart := by
  have hroute : ∀ source ∈ nodes, ∀ link ∈ source.links,
      ∃ route, Route.ofLink m grid nodes source link = .ok route := by
    intro source hsource link hlink
    have htarget := List.getElem?_eq_getElem (htargets source hsource link hlink)
    obtain ⟨points, hpoints, hne⟩ :=
      exists_linkPath hm hs hsource (List.mem_of_getElem? htarget) link
    obtain ⟨heads, hheads⟩ := Arrowhead.exists_ofPath hne link.arrowheads Arrowhead.defaultSize
    unfold Route.ofLink
    rw [htarget]
    dsimp only
    rw [hpoints]
    exact ⟨_, Result.bind_eq_ok_iff.mpr ⟨_, rfl,
      Result.bind_eq_ok_iff.mpr ⟨_, Result.mapError_eq_ok_iff.mpr hheads, rfl⟩⟩⟩
  have hplacement : ∀ node ∈ nodes,
      ∃ placement, Placement.ofNode m grid nodes node = .ok placement := by
    intro node hnode
    obtain ⟨routes, hroutes⟩ := Result.exists_mapM (hroute node hnode)
    exact ⟨_, Result.bind_eq_ok_iff.mpr ⟨routes, hroutes, rfl⟩⟩
  obtain ⟨placements, hplacements⟩ := Result.exists_mapM hplacement
  exact ⟨_, Result.bind_eq_ok_iff.mpr ⟨placements, hplacements, rfl⟩⟩

/-- A document whose nodes can be made has a chart of them. -/
theorem Chart.exists_ofDocument (hm : m.Positive) {document : Document} {drafts : List Draft}
    (hdrafts : document.drafts = .ok drafts)
    (hnodes : ∀ grid, document.grid drafts = .ok grid → Node.ofDrafts drafts grid = .ok nodes)
    (htargets : ∀ node ∈ nodes, ∀ link ∈ node.links, link.target < nodes.length) :
    ∃ grid chart, ofDocument m document = .ok chart ∧ ofNodes m grid nodes = .ok chart := by
  obtain ⟨grid, hgrid⟩ := Document.exists_grid hdrafts
  have hn := hnodes grid hgrid
  obtain ⟨chart, hchart⟩ := exists_ofNodes hm (Document.seating hdrafts hgrid hn) htargets
  exact ⟨grid, chart, ofDocument_eq_ok_iff.mpr ⟨drafts, grid, nodes, hdrafts, hgrid, hn, hchart⟩,
    hchart⟩

/-- A text whose nodes can be made has a chart of them. -/
theorem Chart.exists_compile (hm : m.Positive) {text : String} {document : Document}
    {drafts : List Draft} (hread : Document.read text = .ok document)
    (hdrafts : document.drafts = .ok drafts)
    (hnodes : ∀ grid, document.grid drafts = .ok grid → Node.ofDrafts drafts grid = .ok nodes)
    (htargets : ∀ node ∈ nodes, ∀ link ∈ node.links, link.target < nodes.length) :
    ∃ grid chart, compile m text = .ok chart ∧ ofNodes m grid nodes = .ok chart := by
  obtain ⟨grid, chart, hdocument, hchart⟩ := exists_ofDocument hm hdrafts hnodes htargets
  exact ⟨grid, chart, compile_of_read hread hdocument, hchart⟩

/-! ### Nodes that are the same in every grid -/

section

variable {text : String} (hnodes : ∀ grid, (do
    let document ← Document.read text
    let drafts ← document.drafts
    Node.ofDrafts drafts grid) = .ok nodes)

include hnodes

theorem exists_drafts_of_nodes :
    ∃ document drafts, Document.read text = .ok document ∧ document.drafts = .ok drafts ∧
      ∀ grid, Node.ofDrafts drafts grid = .ok nodes := by
  obtain ⟨document, hread, h⟩ := Result.bind_eq_ok_iff.mp (hnodes (.empty 0 0))
  obtain ⟨drafts, hdrafts, -⟩ := Result.bind_eq_ok_iff.mp h
  refine ⟨document, drafts, hread, hdrafts, fun grid => ?_⟩
  obtain ⟨document', hread', h⟩ := Result.bind_eq_ok_iff.mp (hnodes grid)
  cases hread.symm.trans hread'
  obtain ⟨drafts', hdrafts', h⟩ := Result.bind_eq_ok_iff.mp h
  cases hdrafts.symm.trans hdrafts'
  exact h

theorem Chart.exists_compile_of_nodes (hm : m.Positive)
    (htargets : ∀ node ∈ nodes, ∀ link ∈ node.links, link.target < nodes.length) :
    ∃ grid chart, compile m text = .ok chart ∧ ofNodes m grid nodes = .ok chart := by
  obtain ⟨document, drafts, hread, hdrafts, hnodes⟩ := exists_drafts_of_nodes hnodes
  exact exists_compile hm hread hdrafts (fun grid _ => hnodes grid) htargets

end

end FlowGrid
