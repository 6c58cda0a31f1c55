import FlowGrid.Proofs.Chart.ClearRoutes
import FlowGrid.Proofs.Chart.References

/-! Routes of one segment. Two points that lie straight out from each other can only be the
anchors of sides that face each other, and the segment between them crosses the cells in
between, so these are empty. Conversely the straight walk through empty cells has no turn, so
the route has none either, and all its runs are joined to one. -/

namespace FlowGrid

open FlowGrid.Lattice FlowGrid.Polyline

variable {m : Metrics ℝ} {grid : Grid Nat} {nodes : List Node} {a b : Node} {side : Side} {n : Nat}

/-! ### Nodes in one row or column -/

/-- The side of the first node faces the second one, which is in its row or column. -/
def Side.Faces (side : Side) (a b : Node) : Prop :=
  match side with
  | .north => b.col = a.col ∧ b.row < a.row
  | .south => b.col = a.col ∧ a.row < b.row
  | .west => b.row = a.row ∧ b.col < a.col
  | .east => b.row = a.row ∧ a.col < b.col

/-- The cell is strictly between those of the nodes, in a row or column with both. -/
def Node.HasBetween (a b : Node) (row col : Nat) : Prop :=
  (a.row = row ∧ b.row = row ∧ min a.col b.col < col ∧ col < max a.col b.col) ∨
    (a.col = col ∧ b.col = col ∧ min a.row b.row < row ∧ row < max a.row b.row)

/-- The second node is `n` cells away from the first one, beyond a side of it. -/
structure Node.IsAway (side : Side) (n : Nat) (a b : Node) : Prop where
  row : (b.row : Int) = a.row + n * side.dy
  col : (b.col : Int) = a.col + n * side.dx

theorem Side.faces_iff : side.Faces a b ↔ ∃ n, 0 < n ∧ Node.IsAway side n a b := by
  constructor
  · intro h
    cases side <;> simp only [Faces] at h
    · exact ⟨a.row - b.row, by omega, by simp only [dy]; omega, by simp only [dx]; omega⟩
    · exact ⟨b.row - a.row, by omega, by simp only [dy]; omega, by simp only [dx]; omega⟩
    · exact ⟨a.col - b.col, by omega, by simp only [dy]; omega, by simp only [dx]; omega⟩
    · exact ⟨b.col - a.col, by omega, by simp only [dy]; omega, by simp only [dx]; omega⟩
  · rintro ⟨n, hn, hrow, hcol⟩
    cases side <;> simp only [Faces, dx, dy] at hrow hcol ⊢ <;> omega

/-- The sides of two nodes face each other when one does and the other one is opposite. -/
theorem Side.Faces.comm_iff {side' : Side} (h : side.Faces a b) :
    side'.Faces b a ↔ (Heading.ofSide side').reverse = .ofSide side := by
  cases side <;> cases side' <;>
    simp only [Faces, Heading.ofSide, Heading.reverse, dx, dy, Heading.mk.injEq, Int.neg_zero,
      and_true, true_and, iff_true] at h ⊢ <;> omega

namespace Node

/-- The cells between two nodes are those on the way. -/
theorem IsAway.hasBetween_iff (h : IsAway side n a b) {row col : Nat} :
    a.HasBetween b row col ↔
      ∃ k, 0 < k ∧ k < n ∧ (row : Int) = a.row + k * side.dy ∧ (col : Int) = a.col + k * side.dx := by
  obtain ⟨hrow, hcol⟩ := h
  constructor
  · intro hc
    unfold HasBetween at hc
    cases side <;> simp only [Side.dx, Side.dy] at hrow hcol ⊢
    · exact ⟨a.row - row, by omega⟩
    · exact ⟨row - a.row, by omega⟩
    · exact ⟨a.col - col, by omega⟩
    · exact ⟨col - a.col, by omega⟩
  · rintro ⟨k, hk, hkn, hrow', hcol'⟩
    unfold HasBetween
    cases side <;> simp only [Side.dx, Side.dy] at hrow hcol hrow' hcol' <;> omega

theorem not_hasBetween_left (a b : Node) : ¬ a.HasBetween b a.row a.col := by
  unfold HasBetween
  omega

theorem not_hasBetween_right (a b : Node) : ¬ a.HasBetween b b.row b.col := by
  unfold HasBetween
  omega

/-! ### Distances of centers -/

theorem isAway_iff_along : IsAway side n a b ↔ ∀ ax, b.vertex.along ax =
    a.vertex.along ax + (2 * n : Nat) * (Heading.ofSide side).along ax := by
  constructor
  · rintro ⟨hrow, hcol⟩ (_ | _) <;> cases side <;>
      simp only [vertex, Vertex.ofCell, Vertex.along, Heading.along, Heading.ofSide, Side.dx,
        Side.dy] at hrow hcol ⊢ <;> omega
  · intro h
    have hx := h .horizontal
    have hy := h .vertical
    constructor <;> cases side <;>
      simp only [vertex, Vertex.ofCell, Vertex.along, Heading.along, Heading.ofSide, Side.dx,
        Side.dy] at hx hy ⊢ <;> omega

end Node

theorem Lattice.Vertex.toPoint_shift_iff (hm : m.Positive) {v w : Vertex} {h : Heading}
    (hh : h ∈ Heading.steps) {k : Int} :
    w.toPoint m = (v.toPoint m).shift h (k * m.pitch h.axis) ↔
      ∀ ax, w.along ax = v.along ax + k * h.along ax := by
  have hax (ax : Axis) : (w.toPoint m).along ax =
      ((v.toPoint m).shift h (k * m.pitch h.axis)).along ax ↔
        w.along ax = v.along ax + k * h.along ax := by
    rw [Point.along_shift, along_toPoint, along_toPoint]
    have hk : (h.along ax : ℝ) * (k * m.pitch h.axis) =
        ((k * h.along ax : Int) : ℝ) * m.pitch ax := by
      rcases Axis.eq_or_eq_other h.axis ax with rfl | rfl
      · push_cast
        ring
      · simp [Heading.along_axis_other hh]
    rw [hk, add_assoc, add_right_inj, ← add_mul, ← Int.cast_add,
      mul_left_inj' (hm.pitch ax).ne', Int.cast_inj]
  exact ⟨fun heq ax => (hax ax).mp (congrArg (·.along ax) heq),
    fun heq => Point.ext_along fun ax => (hax ax).mpr (heq ax)⟩

/-- Two vertices in line are a number of pitches apart. -/
theorem Lattice.Vertex.exists_pitches {v w : Vertex} {h : Heading} (hh : h ∈ Heading.steps) {t : ℝ}
    (heq : w.toPoint m = (v.toPoint m).shift h t) : ∃ k : Int, t = k * m.pitch h.axis := by
  have hax := congrArg (·.along h.axis) heq
  simp only [Point.along_shift, along_toPoint] at hax
  rcases Heading.along_axis_eq hh with h1 | h1
  · refine ⟨w.along h.axis - v.along h.axis, ?_⟩
    rw [h1] at hax
    push_cast at hax ⊢
    linarith
  · refine ⟨v.along h.axis - w.along h.axis, ?_⟩
    rw [h1] at hax
    push_cast at hax ⊢
    linarith

/-- Centers in line are an even number of steps apart: both have odd parts. -/
theorem Lattice.Vertex.even_of_center {row col row' col' : Int} {h : Heading} (hh : h ∈ Heading.steps)
    {k : Int} (hax : ∀ ax, (Vertex.ofCell row' col').along ax =
      (Vertex.ofCell row col).along ax + k * h.along ax) : k % 2 = 0 := by
  have hodd := Vertex.along_ofCell_mod_two row col h.axis
  have hodd' := Vertex.along_ofCell_mod_two row' col' h.axis
  have := hax h.axis
  rcases Heading.along_axis_eq hh with h1 | h1 <;> rw [h1] at this <;> omega

namespace Node

theorem isAway_iff_toPoint (hm : m.Positive) : IsAway side n a b ↔
    b.vertex.toPoint m = (a.vertex.toPoint m).shift (.ofSide side)
      ((2 * n : Nat) * m.pitch (Heading.ofSide side).axis) := by
  rw [isAway_iff_along, ← Vertex.toPoint_shift_iff hm (Heading.ofSide_mem_steps side),
    Int.cast_natCast]

/-- A node whose center lies straight out from another one is a number of cells away. -/
theorem exists_isAway (hm : m.Positive) {t : ℝ} (ht : 0 < t)
    (h : b.vertex.toPoint m = (a.vertex.toPoint m).shift (.ofSide side) t) :
    ∃ n : Nat, 0 < n ∧ IsAway side n a b ∧
      t = (2 * n : Nat) * m.pitch (Heading.ofSide side).axis := by
  have hh := Heading.ofSide_mem_steps side
  obtain ⟨k, rfl⟩ := Vertex.exists_pitches hh h
  have hpos : (0 : ℝ) < k := pos_of_mul_pos_left ht (hm.pitch _).le
  have hk : 0 < k := by exact_mod_cast hpos
  have hax := (Vertex.toPoint_shift_iff hm hh).mp h
  have heven := Vertex.even_of_center hh hax
  obtain ⟨n, rfl⟩ : ∃ n : Nat, k = (2 * n : Nat) := ⟨k.toNat / 2, by omega⟩
  exact ⟨n, by omega, isAway_iff_along.mpr hax, by rw [Int.cast_natCast]⟩

end Node

/-! ### From one segment to empty cells -/

theorem Node.box_holds_center (hm : m.Positive) (c : Node) :
    (c.box m).Holds (c.vertex.toPoint m) := by
  rw [Node.box, Metrics.cellBox_holds_iff]
  intro ax
  rw [Node.vertex, sub_self, abs_zero]
  exact half_pos (hm.size ax)

theorem Node.extent_pos (hm : m.Positive) (c : Node) (ax : Axis) :
    0 < c.shape.extent (c.box m) ax :=
  c.shape.extent_pos (fun ax => by rw [Node.size_box]; exact hm.size ax) ax

theorem Node.extent_lt_pitch (hm : m.Positive) (c : Node) (ax : Axis) :
    c.shape.extent (c.box m) ax < m.pitch ax :=
  sub_pos.mp (c.stem_pos hm ax)

/-- The centers of nodes whose anchors are in line along the normals of their sides are in line. -/
theorem exists_isAway_of_anchor (hm : m.Positive) {side' : Side}
    (hopposite : (Heading.ofSide side').reverse = .ofSide side) {t : ℝ} (ht : 0 < t)
    (hfinish : b.anchor m side' = (a.anchor m side).shift (.ofSide side) t) :
    ∃ n, 0 < n ∧ Node.IsAway side n a b ∧
      a.shape.extent (a.box m) (Heading.ofSide side).axis + t +
        b.shape.extent (b.box m) (Heading.ofSide side).axis =
          (2 * n : Nat) * m.pitch (Heading.ofSide side).axis := by
  have hside' : Heading.ofSide side' = (Heading.ofSide side).reverse := by
    rw [← hopposite, Heading.reverse_reverse]
  have haxis := Heading.axis_reverse (Heading.ofSide_mem_steps side)
  rw [Node.anchor, Node.anchor, hside', haxis, Point.shift_reverse, Point.shift_shift] at hfinish
  refine Node.exists_isAway hm ?_ ?_
  · linarith [a.extent_pos hm (Heading.ofSide side).axis, b.extent_pos hm (Heading.ofSide side).axis]
  · rw [← Point.shift_shift, ← hfinish, Point.shift_shift, neg_add_cancel, Point.shift_zero]

/-- Between nodes the segment crosses every cell: it reaches from less than a pitch beyond one
center to less than a pitch before the other one. -/
theorem center_mem_segment {e e' t p : ℝ} (hp : 0 < p) (he : e < p) (he' : e' < p) {k n : Nat}
    (hk : 0 < k) (hkn : k < n) (hlength : e + t + e' = (2 * n : Nat) * p) :
    (2 * k : Nat) * p - e ∈ Set.Icc 0 t := by
  have hfirst : p ≤ (2 * k : Nat) * p :=
    le_mul_of_one_le_left hp.le (by exact_mod_cast (by omega : 1 ≤ 2 * k))
  have hlast : ((2 * k : Nat) + 1) * p ≤ (2 * n : Nat) * p :=
    mul_le_mul_of_nonneg_right (by exact_mod_cast (by omega : 2 * k + 1 ≤ 2 * n)) hp.le
  constructor <;> linarith

/-- Nodes whose anchors are joined by a clear segment along the normals of their sides face each
other over empty cells. -/
theorem faces_of_segment (hm : m.Positive) {side' : Side}
    (hopposite : (Heading.ofSide side').reverse = .ofSide side) {t : ℝ} (ht : 0 < t)
    (hfinish : b.anchor m side' = (a.anchor m side).shift (.ofSide side) t)
    (hclear : ∀ s ∈ Set.Icc 0 t, Clears m grid nodes a b ((a.anchor m side).shift (.ofSide side) s)) :
    side.Faces a b ∧ side'.Faces b a ∧ ∀ c ∈ nodes, ¬ a.HasBetween b c.row c.col := by
  obtain ⟨n, hn, haway, hlength⟩ := exists_isAway_of_anchor hm hopposite ht hfinish
  have hfaces : side.Faces a b := Side.faces_iff.mpr ⟨n, hn, haway⟩
  refine ⟨hfaces, hfaces.comm_iff.mpr hopposite, fun c hc hbetween => ?_⟩
  obtain ⟨k, hk, hkn, hrow, hcol⟩ := haway.hasBetween_iff.mp hbetween
  have hcenter := (Node.isAway_iff_toPoint hm).mp (⟨hrow, hcol⟩ : Node.IsAway side k a c)
  have hmem := center_mem_segment (hm.pitch _) (a.extent_lt_pitch hm _) (b.extent_lt_pitch hm _)
    hk hkn hlength
  have hcell := (hclear _ hmem).cell hc (by rintro rfl; exact Node.not_hasBetween_left _ _ hbetween)
    (by rintro rfl; exact Node.not_hasBetween_right _ _ hbetween)
  rw [Node.anchor, Point.shift_shift, add_sub_cancel, ← hcenter] at hcell
  exact hcell (c.box_holds_center hm)

/-! ### From empty cells to one segment -/

section Straight

variable {link : Link}

theorem along_start_latticeQuery (ax : Axis) : (latticeQuery grid a b link).start.along ax =
    a.vertex.along ax + (Heading.ofSide link.sourceSide).along ax := Vertex.along_move _ _ ax

theorem along_goal_latticeQuery (ax : Axis) : (latticeQuery grid a b link).goal.along ax =
    b.vertex.along ax + (Heading.ofSide link.targetSide).along ax := Vertex.along_move _ _ ax

/-- Straight on from a side one comes to the opposite side of a node in line. -/
theorem after_straight
    (hopposite : (Heading.ofSide link.targetSide).reverse = .ofSide link.sourceSide)
    (haway : Node.IsAway link.sourceSide (n + 1) a b) :
    (latticeQuery grid a b link).start.after
        (List.replicate (2 * n) (Heading.ofSide link.sourceSide)) =
      (latticeQuery grid a b link).goal := by
  have hax (ax : Axis) : ((latticeQuery grid a b link).start.after
      (List.replicate (2 * n) (Heading.ofSide link.sourceSide))).along ax =
        (latticeQuery grid a b link).goal.along ax := by
    have hline := Node.isAway_iff_along.mp haway ax
    rw [← hopposite, Heading.along_reverse] at hline
    rw [Vertex.along_after_replicate, along_start_latticeQuery, along_goal_latticeQuery, ← hopposite,
      Heading.along_reverse]
    push_cast at hline ⊢
    linarith
  exact Vertex.ext_along .horizontal (hax _) (hax _)

/-- The centers that one comes across straight on from a side are those of the cells in line. -/
theorem cell_of_mem_visits_straight {row col : Int}
    (hu : Vertex.ofCell row col ∈ (latticeQuery grid a b link).start.visits
      (List.replicate (2 * n) (Heading.ofSide link.sourceSide))) :
    ∃ k : Nat, 0 < k ∧ k < n + 1 ∧ row = a.row + k * link.sourceSide.dy ∧
      col = a.col + k * link.sourceSide.dx := by
  obtain ⟨j, hj, hax⟩ := Vertex.along_of_mem_visits_replicate hu
  have hline (ax : Axis) : (Vertex.ofCell row col).along ax =
      (Vertex.ofCell a.row a.col).along ax + (j + 1) * (Heading.ofSide link.sourceSide).along ax := by
    have hstart : (latticeQuery grid a b link).start.along ax =
      (Vertex.ofCell a.row a.col).along ax + _ := along_start_latticeQuery ax
    rw [hax, hstart]
    ring
  have heven := Vertex.even_of_center (Heading.ofSide_mem_steps link.sourceSide) hline
  obtain ⟨k, rfl⟩ : ∃ k, j = 2 * k + 1 := ⟨j / 2, by omega⟩
  have hrow := hline .vertical
  have hcol := hline .horizontal
  simp only [Vertex.ofCell, Vertex.along, Heading.along, Heading.ofSide] at hrow hcol
  push_cast at hrow hcol
  refine ⟨k + 1, by omega, by omega, ?_, ?_⟩ <;> push_cast <;> linarith

/-- Straight on from side to side over empty cells is a walk. -/
theorem isWalk_straight (hs : Seating grid nodes) (ha : a ∈ nodes) (hb : b ∈ nodes)
    (hopposite : (Heading.ofSide link.targetSide).reverse = .ofSide link.sourceSide)
    (haway : Node.IsAway link.sourceSide (n + 1) a b)
    (hempty : ∀ k : Nat, 0 < k → k < n + 1 →
      grid.get? (a.row + k * link.sourceSide.dy) (a.col + k * link.sourceSide.dx) = none) :
    (latticeQuery grid a b link).IsWalk
      (List.replicate (2 * n) (Heading.ofSide link.sourceSide)) := by
  have hh := Heading.ofSide_mem_steps link.sourceSide
  have harrives : (latticeQuery grid a b link).start.after _ = _ := after_straight hopposite haway
  have hstart : (latticeQuery grid a b link).Within (latticeQuery grid a b link).start :=
    Query.within_stub (hs.inBounds ha) _
  have hgoal : (latticeQuery grid a b link).Within (latticeQuery grid a b link).goal :=
    Query.within_stub (hs.inBounds hb) _
  rw [← harrives] at hgoal
  refine ⟨fun k hk => (List.mem_replicate.mp hk).2 ▸ hh, fun u hu => ?_, harrives, ?_⟩
  · have hwithin : (latticeQuery grid a b link).Within u := by
      obtain ⟨d, -, hd⟩ := Heading.eq_toward_of_mem_steps hh
      rw [hd] at hu hgoal
      exact hstart.of_mem_visits hgoal hu
    refine ⟨hwithin .horizontal, hwithin .vertical, ?_⟩
    rintro row col rfl
    obtain ⟨k, hk, hkn, rfl, rfl⟩ := cell_of_mem_visits_straight hu
    exact hempty k hk hkn
  · have hheading : (latticeQuery grid a b link).goalHeading = .ofSide link.sourceSide := hopposite
    rw [hheading]
    exact (Heading.forward_replicate_self hh _ _).mpr ⟨Heading.ne_reverse_of_mem_steps hh, trivial⟩

/-- A link that a straight walk answers is drawn as one segment. -/
theorem length_of_straight (hm : m.Positive) (hgap : ∀ ax, 2 / 10 ^ 9 ≤ m.gap ax)
    (hs : Seating grid nodes) (ha : a ∈ nodes) (hb : b ∈ nodes)
    (hne : ¬ (a.index = b.index ∧ link.sourceSide = link.targetSide))
    (hopposite : (Heading.ofSide link.targetSide).reverse = .ofSide link.sourceSide)
    (hw : (latticeQuery grid a b link).IsWalk (List.replicate n (Heading.ofSide link.sourceSide)))
    {points : List (Point ℝ)} (hpoints : linkPath m grid a b link = .ok points) :
    points.length = 2 := by
  have hq := betweenSides_latticeQuery hs ha hb hne
  obtain ⟨steps, hroute, hwalk, hbest⟩ := hq.exists_best
  have hzero : (Heading.ofSide link.sourceSide).turns (steps ++ [.ofSide link.sourceSide]) = 0 := by
    have hle := hq.turns_le hwalk hbest hw
    have hgoal : (latticeQuery grid a b link).goalHeading = .ofSide link.sourceSide := hopposite
    rw [Query.turns, Query.turns, hgoal] at hle
    have hstraight := Heading.turns_replicate_self (.ofSide link.sourceSide) n
      [Heading.ofSide link.sourceSide]
    have hnone : (Heading.ofSide link.sourceSide).turns [.ofSide link.sourceSide] = 0 := by
      simp [Heading.turns]
    exact Nat.le_zero.mp (hle.trans (hstraight.trans hnone).le)
  have hruns := runs_link hm hs ha hb (Metrics.two_mul_tolerance_le hgap) hwalk
  rw [hopposite, Heading.eq_replicate_of_turns_eq_zero hzero, ← List.replicate_succ] at hruns
  rw [linkPath_eq hm hne hroute] at hpoints
  cases hpoints
  exact hruns.length_simplify

end Straight

/-! ### Charts -/

namespace Chart

variable {chart : Chart ℝ}

/-- In the chart of a text, the route between two different nodes is one segment just when they
are in one row or column, its sides face the nodes at its other end, and all cells between them
are empty. -/
theorem straight_iff (hm : m.Positive) (hgap : ∀ ax, 2 / 10 ^ 9 ≤ m.gap ax) {text : String}
    (hc : compile m text = .ok chart) {i : Nat} {source : Placement ℝ}
    (hi : chart.placements[i]? = some source) {route : Route ℝ} (hr : route ∈ source.routes)
    (hne : route.link.target ≠ i) :
    ∃ d target, Document.read text = .ok d ∧ chart.placements[route.link.target]? = some target ∧
      (route.points.length = 2 ↔
        route.link.sourceSide.Faces source.node target.node ∧
        route.link.targetSide.Faces target.node source.node ∧
        ∀ row col : Nat, source.node.HasBetween target.node row col → ¬ d.IsOccupied row col) := by
  obtain ⟨d, hread, hc⟩ := exists_document_of_compile hc
  obtain ⟨drafts, grid, nodes, hd, hg, hn, hchart⟩ := exists_nodes_of_ofDocument hc
  have hs := Document.seating hd hg hn
  obtain ⟨target, ht, hpath⟩ := route_eq hchart hi hr
  have hnode := (placement_eq hchart hi).1
  have hnode' := (placement_eq hchart ht).1
  have hsource := List.mem_of_getElem? hnode
  have htarget := List.mem_of_getElem? hnode'
  refine ⟨d, target, hread, ht, fun hlength => ?_, fun ⟨hfaces, hfaces', hbetween⟩ => ?_⟩
  · obtain ⟨points, hpoints, hp⟩ := exists_path hm hgap hs hsource htarget route.link
    obtain rfl : points = route.points := Except.ok.inj (hpoints.symm.trans hpath)
    obtain ⟨hopposite, t, hpos, hfinish, hclear⟩ := hp.straight_of_length hlength
    obtain ⟨hfaces, hfaces', hempty⟩ := faces_of_segment hm hopposite hpos hfinish hclear
    refine ⟨hfaces, hfaces', fun row col hcell hoccupied => ?_⟩
    obtain ⟨node, hmem, hrow, hcol⟩ := (Document.isOccupied_iff_node hd hg hn).mp hoccupied
    rw [Int.natCast_inj] at hrow hcol
    exact hempty node hmem (hrow ▸ hcol ▸ hcell)
  · have hopposite := hfaces.comm_iff.mp hfaces'
    obtain ⟨n, hpos, haway⟩ := Side.faces_iff.mp hfaces
    obtain ⟨n, rfl⟩ := Nat.exists_eq_add_one.mpr hpos
    refine length_of_straight hm hgap hs hsource htarget ?_ hopposite
      (isWalk_straight hs hsource htarget hopposite haway fun k hk hkn => ?_) hpath
    · rintro ⟨hindex, -⟩
      rw [hs.index hnode, hs.index hnode'] at hindex
      exact hne hindex.symm
    · cases hget : grid.get? (source.node.row + k * route.link.sourceSide.dy)
          (source.node.col + k * route.link.sourceSide.dx) with
      | none => rfl
      | some j =>
        obtain ⟨node, hj, hrow, hcol⟩ := Document.exists_node_of_get? hd hg hn hget
        have hcell := haway.hasBetween_iff.mpr ⟨k, hk, hkn, hrow, hcol⟩
        refine absurd ?_ (hbetween node.row node.col hcell)
        exact (Document.isOccupied_iff_node hd hg hn).mpr ⟨node, List.mem_of_getElem? hj, rfl, rfl⟩

/-- Two nodes with an empty cell between them and a link from one to the other. -/
def linkAcross : List Node :=
  [{ index := 0
     identifier := "a"
     row := 0
     col := 0
     label := none
     text := none
     classes := []
     shape := .rect
     links := [⟨0, 1, .east, .west, none, [], .finish⟩] },
   { index := 1
     identifier := "b"
     row := 0
     col := 2
     label := some "x"
     text := none
     classes := []
     shape := .rect
     links := [] }]

theorem nodes_eq_linkAcross (grid : Grid Nat) :
    (do let document ← Document.read "grid \x7b a(connect: \x7b e:w#x; \x7d), _, b#x; \x7d"
        let drafts ← document.drafts
        Node.ofDrafts drafts grid) = .ok linkAcross := by
  cbv

/-- The route over an empty cell to the node beyond it is one segment. -/
theorem straight_of_linkAcross :
    let m : Metrics ℝ := ⟨200, 100, 50, 50⟩
    (m.Positive ∧ ∀ ax, 2 / 10 ^ 9 ≤ m.gap ax) ∧
    ∃ chart source route,
      compile m "grid \x7b a(connect: \x7b e:w#x; \x7d), _, b#x; \x7d" = .ok chart ∧
      chart.placements[0]? = some source ∧ route ∈ source.routes ∧ route.link.target ≠ 0 ∧
      route.points.length = 2 := by
  intro m
  have hm : m.Positive := Metrics.positive_standard
  have hgap : ∀ ax, 2 / 10 ^ 9 ≤ m.gap ax := Metrics.le_gap_standard
  obtain ⟨d, drafts, hread, hd, hnodes⟩ := exists_drafts_of_nodes nodes_eq_linkAcross
  obtain ⟨grid, chart, hc, hchart⟩ := exists_compile_of_nodes nodes_eq_linkAcross hm (by decide)
  obtain ⟨source, hi, route, hr, hlink⟩ := exists_route_of_ofNodes hchart (i := 0) rfl (.head _)
  have hne : route.link.target ≠ 0 := by simp [hlink]
  refine ⟨⟨hm, hgap⟩, chart, source, route, hc, hi, hr, hne, ?_⟩
  obtain ⟨d', target, hread', ht, hiff⟩ := straight_iff hm hgap hc hi hr hne
  obtain rfl : d' = d := Except.ok.inj (hread'.symm.trans hread)
  have hsource := (placement_eq hchart hi).1
  have htarget := (placement_eq hchart ht).1
  rw [hlink] at htarget
  rw [hiff, ← Option.some.inj hsource, ← Option.some.inj htarget, hlink]
  refine ⟨⟨rfl, Nat.zero_lt_two⟩, ⟨rfl, Nat.zero_lt_two⟩, fun row col hcell hoccupied => ?_⟩
  obtain ⟨grid', hg⟩ := Document.exists_grid hd
  obtain ⟨node, hnode, hrow, hcol⟩ :=
    (Document.isOccupied_iff_node hd hg (hnodes grid')).mp hoccupied
  rw [linkAcross, List.mem_pair] at hnode
  rcases hnode with rfl | rfl <;> simp only [Node.HasBetween] at hcell hrow hcol <;> omega

end Chart
end FlowGrid
