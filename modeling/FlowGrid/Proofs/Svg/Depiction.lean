import FlowGrid.Proofs.Chart.Names
import FlowGrid.Proofs.Svg.Drawn
import FlowGrid.Proofs.Svg.StyleBlock

/-! What a drawing is read as. The text of a drawing is one element, and its tree is fixed by
the chart: groups for the nodes and the links in order, each with its outline or path and with
its text. No character of a text or a class name is taken for markup; what is shown and the
class names are read as they were given. -/

namespace FlowGrid

namespace Markup

mutual

/-- All text that stands in a node. -/
def Node.content : Node → String
  | .text s => s
  | .element _ _ children => contents children

def contents : List Node → String
  | [] => ""
  | node :: rest => node.content ++ contents rest

end

theorem contents_textNodes (s : String) : contents (textNodes s) = s := by
  unfold textNodes
  split_ifs with h
  · exact (String.isEmpty_iff.mp h).symm
  · simp [contents, Node.content]

end Markup

namespace Svg

open Markup Result

/-! ### Trees -/

section Trees

variable {α : Type} [Scalar α]

/-- The numbers are written as these texts. -/
def Writes (xs : List α) (texts : List String) : Prop :=
  List.Forall₂ (fun x s => Scalar.text x = .ok s) xs texts

/-- The spans of several lines, one below the other; the first is raised by half of the rest. -/
def spans (x : String) (lines : List String) : List Markup.Node :=
  lines.zipIdx.map fun (line, i) =>
    let shift : Int := if i = 0 then -((60 * (lines.length - 1) : Nat) : Int) else 120
    .element "tspan" [("x", x), ("dy", Decimal.ofHundredths shift ++ "em")] (textNodes line)

/-- A text element at a place. A text of one line stands in it as it is, and of a text of several
every line has a span. -/
inductive IsText (s : String) (place : Point α) : Markup.Node → Prop
  | intro {x y : String} {children : List Markup.Node}
    (numbers : Writes [place.x, place.y] [x, y])
    (oneLine : '\n' ∉ s.toList → children = [.text s])
    (moreLines : '\n' ∈ s.toList →
      ∃ lines, (∀ line ∈ lines, '\n' ∉ line.toList) ∧ children = spans x lines)
    (shown : "\n".intercalate (children.map Node.content) = s) :
    IsText s place
      (.element "text" [("x", x), ("y", y), ("text-anchor", "middle"), ("dy", "0.35em")] children)

/-- The text element of a text, which is missing when there is nothing to show. -/
inductive IsLabel (text : Option String) (place : Point α) : List Markup.Node → Prop
  | absent (h : text.getD "" = "") : IsLabel text place []
  | shown {s : String} {node : Markup.Node} (h : text = some s) (ne : s ≠ "")
    (element : IsText s place node) : IsLabel text place [node]

/-- A group of elements on lines, with a word of its own before the other class names. -/
inductive IsGroup (word : String) (names : List String) (children : List Markup.Node) :
    Markup.Node → Prop
  | intro {value : String}
    (classes : (value.toList.splitOn ' ').map String.ofList =
      word :: names.filter fun name => name ≠ word) :
    IsGroup word names children (.element "g" [("class", value)] (Element.onLines children))

/-- The outline of a shape in a box. -/
inductive IsOutline (shape : Shape) (box : Box α) : Markup.Node → Prop
  | ellipse {cx cy rx ry : String} (h : shape = .ellipse)
    (numbers : Writes [box.cx, box.cy, (shape.extents box).1, (shape.extents box).2]
      [cx, cy, rx, ry]) :
    IsOutline shape box (.element "ellipse"
      [("class", "node " ++ shape.name), ("cx", cx), ("cy", cy), ("rx", rx), ("ry", ry)] [])
  | circle {cx cy r : String} (h : shape = .circle)
    (numbers : Writes [box.cx, box.cy, (shape.extents box).1] [cx, cy, r]) :
    IsOutline shape box (.element "circle"
      [("class", "node " ++ shape.name), ("cx", cx), ("cy", cy), ("r", r)] [])
  | rhombus {cx cy top right bottom left : String} (h : shape = .diamond ∨ shape = .angledSquare)
    (numbers : Writes [box.cx, box.cy, box.cy - (shape.extents box).2,
      box.cx + (shape.extents box).1, box.cy + (shape.extents box).2,
      box.cx - (shape.extents box).1] [cx, cy, top, right, bottom, left]) :
    IsOutline shape box (.element "polygon" [("class", "node " ++ shape.name),
      ("points", s!"{cx},{top} {right},{cy} {cx},{bottom} {left},{cy}")] [])
  | rect {x y width height : String} (h : shape = .rect ∨ shape = .square)
    (numbers : Writes [box.cx - (shape.extents box).1, box.cy - (shape.extents box).2,
      ((2 : Int) : α) * (shape.extents box).1, ((2 : Int) : α) * (shape.extents box).2]
      [x, y, width, height]) :
    IsOutline shape box (.element "rect"
      [("class", "node " ++ shape.name), ("x", x), ("y", y), ("width", width), ("height", height)]
      [])

/-- The group of a node. -/
inductive IsFigure (p : Placement α) : Markup.Node → Prop
  | intro {outline node : Markup.Node} {label : List Markup.Node}
    (shape : IsOutline p.node.shape p.box outline) (text : IsLabel p.node.text p.box.center label)
    (group : IsGroup "node-wrapper" p.node.classes (outline :: label) node) : IsFigure p node

/-- The path of an arrowhead. -/
inductive IsArrowhead (a : Arrowhead α) : Markup.Node → Prop
  | intro {d : String} (path : pathData [a.apex, a.left, a.right] = .ok d) :
    IsArrowhead a (.element "path"
      [("class", "arrowhead " ++ a.terminal.name), ("d", d ++ " Z")] [])

/-- The group of a link along its route. -/
inductive IsTrace (r : Route α) : Markup.Node → Prop
  | intro {d : String} {heads label : List Markup.Node} {node : Markup.Node}
    (path : pathData r.points = .ok d) (arrowheads : List.Forall₂ IsArrowhead r.arrowheads heads)
    (text : IsLabel r.link.text (Polyline.midpoint r.points) label)
    (group : IsGroup "connection" r.link.classes
      (.element "path" [("class", "path"), ("d", d)] [] :: (heads ++ label)) node) :
    IsTrace r node

/-- The style element with the built-in sheet, if it is wanted. -/
def styleNodes (wanted : Bool) : List Markup.Node :=
  if wanted then [.element "style" [] [.text ("\n" ++ builtInSheet .standard ++ "\n")]] else []

/-- The tree of the drawing of a chart. -/
inductive Depicts (wanted : Bool) (chart : Chart α) : Markup.Node → Prop
  | intro {width height : String} {figures traces : List Markup.Node}
    (size : Writes [chart.width, chart.height] [width, height])
    (nodes : List.Forall₂ IsFigure chart.placements figures)
    (links : List.Forall₂ IsTrace (chart.placements.flatMap Placement.routes) traces) :
    Depicts wanted chart (.element "svg"
      [("xmlns", "http://www.w3.org/2000/svg"), ("viewBox", s!"0 0 {width} {height}"),
        ("width", width), ("height", height)]
      (Element.onLines (styleNodes wanted ++
        [.element "rect" [("class", "background"), ("x", "0"), ("y", "0"), ("width", width),
            ("height", height)] [],
          .element "g" [("class", "nodes")] (Element.onLines figures),
          .element "g" [("class", "connections")] (Element.onLines traces)])))

/-! ### Texts -/

/-- The fault of a number among `numbers` that has no text. -/
def Unwritten (numbers : α → Prop) (f : ArithmeticFault) : Prop :=
  ∃ x, numbers x ∧ Scalar.text x = .error f

variable {numbers : α → Prop}

theorem yields_text {x : α} (hx : numbers x) :
    Yields (fun s => Scalar.text x = .ok s) (Unwritten numbers) (Scalar.text x) := by
  cases h : Scalar.text x with
  | ok s => rfl
  | error f => exact ⟨x, hx, h⟩

theorem yields_number (name : String) {x : α} (hx : numbers x) :
    Yields (fun a => ∃ s, Scalar.text x = .ok s ∧ a = .plain name s) (Unwritten numbers)
      (number name x) :=
  (yields_text hx).map fun s hs => ⟨s, hs, rfl⟩

/-- The lines of a text, each without its line break. -/
def linesOf (s : String) : List String := (s.toList.splitOn '\n').map String.ofList

theorem intercalate_linesOf (s : String) : "\n".intercalate (linesOf s) = s := by
  have hlines : (linesOf s).map String.toList = s.toList.splitOn '\n' := by
    simp [linesOf, Function.comp_def]
  rw [← String.toList_inj, String.toList_intercalate, hlines]
  exact List.intercalate_splitOn '\n'

theorem not_mem_of_mem_splitOn {sep : Char} {cs part : List Char} (h : part ∈ cs.splitOn sep) :
    sep ∉ part := by
  induction cs generalizing part with
  | nil =>
    rw [List.splitOn_nil, List.mem_singleton] at h
    simp [h]
  | cons c cs ih =>
    rw [List.splitOn_cons_eq_if_modifyHead] at h
    obtain ⟨first, rest, hsplit⟩ := List.exists_cons_of_ne_nil (List.splitOn_ne_nil sep cs)
    rw [hsplit] at h ih
    split at h
    · rcases List.mem_cons.mp h with rfl | h
      · exact List.not_mem_nil
      · exact ih h
    · rename_i hc
      rcases List.mem_cons.mp h with rfl | h
      · have hne : ¬ sep = c := by
          rintro rfl
          exact hc (beq_self_eq_true sep)
        exact List.not_mem_cons_of_ne_of_not_mem hne (ih List.mem_cons_self)
      · exact ih (List.mem_cons_of_mem _ h)

theorem not_mem_of_mem_linesOf {s line : String} (h : line ∈ linesOf s) : '\n' ∉ line.toList := by
  obtain ⟨part, hpart, rfl⟩ := List.mem_map.mp h
  rw [String.toList_ofList]
  exact not_mem_of_mem_splitOn hpart

theorem length_linesOf_le_one_iff (s : String) : (linesOf s).length ≤ 1 ↔ '\n' ∉ s.toList := by
  rw [linesOf, List.length_map]
  constructor
  · intro h hmem
    obtain ⟨before, after, hsplit⟩ := List.append_of_mem hmem
    have hbefore := List.length_pos_iff.mpr (List.splitOn_ne_nil '\n' before)
    have hafter := List.length_pos_iff.mpr (List.splitOn_ne_nil '\n' after)
    rw [hsplit, List.splitOn_append_cons_self, List.length_append] at h
    omega
  · intro h
    rw [List.splitOn_eq_singleton h, List.length_singleton]

theorem readAs_lineSpans (x : String) (lines : List String) :
    List.Forall₂ Element.ReadAs (lineSpans x lines) (spans x lines) := by
  unfold lineSpans spans
  rw [List.forall₂_map_left_iff, List.forall₂_map_right_iff, List.forall₂_same]
  rintro ⟨line, i⟩ -
  have hshift : (((lines.length - 1) * lineHeight / 2 : Nat) : Int) =
      ((60 * (lines.length - 1) : Nat) : Int) := by
    rw [lineHeight]
    omega
  have htag (dy : String) : IsTag "tspan" [.plain "x" x, .plain "dy" dy] :=
    ⟨by decide, by simp +decide [Attribute.IsReadable], by simp +decide [Attribute.pair]⟩
  dsimp only
  rw [hshift]
  exact Element.readAs_text (htag _) line

theorem contents_spans (x : String) (lines : List String) :
    (spans x lines).map Node.content = lines := by
  unfold spans
  rw [List.map_map]
  have hcontent : (Node.content ∘ fun p : String × Nat => Markup.Node.element "tspan"
      [("x", x), ("dy", Decimal.ofHundredths
        (if p.2 = 0 then -((60 * (lines.length - 1) : Nat) : Int) else 120) ++ "em")]
      (textNodes p.1)) = Prod.fst := by
    funext p
    exact contents_textNodes p.1
  exact (congrArg (fun f => lines.zipIdx.map f) hcontent).trans (List.zipIdx_map_fst _ _)

theorem isTag_text (x y : String) : IsTag "text"
    [.plain "x" x, .plain "y" y, .plain "text-anchor" "middle", .plain "dy" baselineShift] :=
  ⟨by decide, by simp +decide [Attribute.IsReadable], by simp +decide [Attribute.pair]⟩

/-- Both coordinates of a point are among the numbers. -/
def Covers (numbers : α → Prop) (p : Point α) : Prop := numbers p.x ∧ numbers p.y

theorem yields_textElement {s : String} (hs : s ≠ "") {place : Point α}
    (hplace : Covers numbers place) :
    Yields (fun e => ∃ node, e.ReadAs node ∧ IsText s place node) (Unwritten numbers)
      (textElement s place) := by
  unfold textElement
  refine (yields_text hplace.1).bind fun x hx => (yields_text hplace.2).bind fun y hy => ?_
  have hnumbers : Writes [place.x, place.y] [x, y] := .cons hx (.cons hy .nil)
  have hlines := length_linesOf_le_one_iff s
  dsimp only
  rw [← linesOf]
  by_cases h : '\n' ∈ s.toList
  · rw [if_neg (mt hlines.mp (not_not.mpr h))]
    refine ⟨_, Element.readAs_joined (isTag_text x y) (readAs_lineSpans x (linesOf s)), ?_⟩
    refine .intro hnumbers (fun hnot => absurd h hnot)
      (fun _ => ⟨linesOf s, fun line => not_mem_of_mem_linesOf, rfl⟩) ?_
    rw [contents_spans, intercalate_linesOf]
  · rw [if_pos (hlines.mpr h)]
    have hread := Element.readAs_text (isTag_text x y) s
    have hnodes : textNodes s = [.text s] := if_neg (by simpa using hs)
    rw [hnodes] at hread
    refine ⟨_, hread, .intro hnumbers (fun _ => rfl) (fun hmem => absurd hmem h) ?_⟩
    rfl

/-- A text element is drawn for a text that is not empty. -/
theorem yields_textElements (text : Option String) {place : Point α}
    (hplace : Covers numbers place) :
    Yields (fun es => ∃ nodes, List.Forall₂ Element.ReadAs es nodes ∧ IsLabel text place nodes)
      (Unwritten numbers) (textElements text place) := by
  cases text with
  | none => exact ⟨[], .nil, .absent rfl⟩
  | some s =>
    rw [textElements]
    split_ifs with hs
    · exact ⟨[], .nil, .absent (by simpa using hs)⟩
    · have hne : s ≠ "" := by simpa using hs
      refine (yields_textElement hne hplace).map ?_
      rintro e ⟨node, hread, htext⟩
      exact ⟨[node], .cons hread .nil, .shown rfl hne htext⟩

/-! ### Figures -/

theorem isReadable_nodeClass {shape : Shape} (h : shape ∈ Shape.all) :
    (Attribute.verbatim "class" ("node " ++ shape.name)).IsReadable := by
  have hvalue : ∀ shape ∈ Shape.all, ∀ c ∈ ("node " ++ shape.name).toList, entity? c = none := by
    simp [Shape.all, Shape.name, entity?]
  exact ⟨by decide, hvalue shape h⟩

theorem yields_corner {x y : α} (hx : numbers x) (hy : numbers y) :
    Yields (fun s => ∃ sx sy, Scalar.text x = .ok sx ∧ Scalar.text y = .ok sy ∧
      s = sx ++ "," ++ sy) (Unwritten numbers) (corner x y) :=
  (yields_text hx).bind fun sx hx => (yields_text hy).bind fun sy hy => ⟨sx, sy, hx, hy, rfl⟩

theorem isTag_outline {shape : Shape} (h : shape ∈ Shape.all) (tag : String)
    (attributes : List Attribute) (hname : isName tag) (hreadable : ∀ a ∈ attributes, a.IsReadable)
    (hdistinct : ("class" :: attributes.map fun a : Attribute => a.pair.1).Nodup) :
    IsTag tag (.verbatim "class" ("node " ++ shape.name) :: attributes) :=
  ⟨hname, List.forall_mem_cons.mpr ⟨isReadable_nodeClass h, hreadable⟩, hdistinct⟩

/-- The numbers that outlines in a box are made of: its center, half the sizes and the sizes,
and where the sides are. -/
def outlineNumbers (shape : Shape) (box : Box α) : List α :=
  let (hw, hh) := shape.extents box
  [box.cx, box.cy, hw, hh, ((2 : Int) : α) * hw, ((2 : Int) : α) * hh,
    box.cx - hw, box.cx + hw, box.cy - hh, box.cy + hh]

theorem covers_outlineNumbers {shape : Shape} {box : Box α}
    (h : ∀ x ∈ outlineNumbers shape box, numbers x) :
    Covers numbers box.center ∧
      (numbers (shape.extents box).1 ∧ numbers (shape.extents box).2) ∧
      (numbers (((2 : Int) : α) * (shape.extents box).1) ∧
        numbers (((2 : Int) : α) * (shape.extents box).2)) ∧
      (numbers (box.cx - (shape.extents box).1) ∧ numbers (box.cx + (shape.extents box).1)) ∧
      numbers (box.cy - (shape.extents box).2) ∧ numbers (box.cy + (shape.extents box).2) := by
  simp only [outlineNumbers, List.forall_mem_cons] at h
  obtain ⟨hcx, hcy, hhw, hhh, hwidth, hheight, hleft, hright, htop, hbottom, -⟩ := h
  exact ⟨⟨hcx, hcy⟩, ⟨hhw, hhh⟩, ⟨hwidth, hheight⟩, ⟨hleft, hright⟩, htop, hbottom⟩

theorem yields_ellipse {box : Box α} (h : ∀ x ∈ outlineNumbers .ellipse box, numbers x) :
    Yields (fun e => ∃ node, e.ReadAs node ∧ IsOutline .ellipse box node) (Unwritten numbers)
      (outline .ellipse box) := by
  obtain ⟨hcenter, ⟨hhw, hhh⟩, -⟩ := covers_outlineNumbers h
  refine (yields_number "cx" hcenter.1).bind ?_
  rintro _ ⟨cx, hcx, rfl⟩
  refine (yields_number "cy" hcenter.2).bind ?_
  rintro _ ⟨cy, hcy, rfl⟩
  refine (yields_number "rx" hhw).bind ?_
  rintro _ ⟨rx, hrx, rfl⟩
  refine (yields_number "ry" hhh).bind ?_
  rintro _ ⟨ry, hry, rfl⟩
  have htag := isTag_outline (show .ellipse ∈ Shape.all by decide) "ellipse"
    [.plain "cx" cx, .plain "cy" cy, .plain "rx" rx, .plain "ry" ry] (by decide)
    (by simp +decide [Attribute.IsReadable]) (by simp +decide [Attribute.pair])
  exact ⟨_, Element.readAs_empty htag,
    .ellipse rfl (.cons hcx (.cons hcy (.cons hrx (.cons hry .nil))))⟩

theorem yields_circle {box : Box α} (h : ∀ x ∈ outlineNumbers .circle box, numbers x) :
    Yields (fun e => ∃ node, e.ReadAs node ∧ IsOutline .circle box node) (Unwritten numbers)
      (outline .circle box) := by
  obtain ⟨hcenter, ⟨hhw, -⟩, -⟩ := covers_outlineNumbers h
  refine (yields_number "cx" hcenter.1).bind ?_
  rintro _ ⟨cx, hcx, rfl⟩
  refine (yields_number "cy" hcenter.2).bind ?_
  rintro _ ⟨cy, hcy, rfl⟩
  refine (yields_number "r" hhw).bind ?_
  rintro _ ⟨r, hr, rfl⟩
  have htag := isTag_outline (show .circle ∈ Shape.all by decide) "circle"
    [.plain "cx" cx, .plain "cy" cy, .plain "r" r] (by decide)
    (by simp +decide [Attribute.IsReadable]) (by simp +decide [Attribute.pair])
  exact ⟨_, Element.readAs_empty htag, .circle rfl (.cons hcx (.cons hcy (.cons hr .nil)))⟩

theorem yields_rhombus {shape : Shape} (h : shape = .diamond ∨ shape = .angledSquare)
    {box : Box α} (hnumbers : ∀ x ∈ outlineNumbers shape box, numbers x) :
    Yields (fun e => ∃ node, e.ReadAs node ∧ IsOutline shape box node)
      (Unwritten numbers) (outline shape box) := by
  have hshape : shape ∈ Shape.all := by
    rcases h with rfl | rfl <;> decide
  have hbody : outline shape box = (do
      let top ← corner box.cx (box.cy - (shape.extents box).2)
      let right ← corner (box.cx + (shape.extents box).1) box.cy
      let bottom ← corner box.cx (box.cy + (shape.extents box).2)
      let left ← corner (box.cx - (shape.extents box).1) box.cy
      pure (.empty "polygon" [.verbatim "class" ("node " ++ shape.name),
        .plain "points" (" ".intercalate [top, right, bottom, left])])) := by
    rcases h with rfl | rfl <;> rfl
  rw [hbody]
  obtain ⟨hcenter, -, -, ⟨hwest, heast⟩, hnorth, hsouth⟩ := covers_outlineNumbers hnumbers
  refine (yields_corner hcenter.1 hnorth).bind ?_
  rintro _ ⟨cx, top, hcx, htop, rfl⟩
  refine (yields_corner heast hcenter.2).bind ?_
  rintro _ ⟨right, cy, hright, hcy, rfl⟩
  refine (yields_corner hcenter.1 hsouth).bind ?_
  rintro _ ⟨cx', bottom, hcx', hbottom, rfl⟩
  refine (yields_corner hwest hcenter.2).bind ?_
  rintro _ ⟨left, cy', hleft, hcy', rfl⟩
  -- opposite corners share a coordinate, and a number has one text
  obtain rfl : cx = cx' := Except.ok.inj (hcx.symm.trans hcx')
  obtain rfl : cy = cy' := Except.ok.inj (hcy.symm.trans hcy')
  have hpoints : " ".intercalate [cx ++ "," ++ top, right ++ "," ++ cy, cx ++ "," ++ bottom,
      left ++ "," ++ cy] = s!"{cx},{top} {right},{cy} {cx},{bottom} {left},{cy}" := by
    rw [← String.toList_inj]
    simp [toString]
  rw [hpoints]
  have htag := isTag_outline hshape "polygon"
    [.plain "points" s!"{cx},{top} {right},{cy} {cx},{bottom} {left},{cy}"]
    (by decide) (by simp +decide [Attribute.IsReadable]) (by simp +decide [Attribute.pair])
  exact ⟨_, Element.readAs_empty htag, .rhombus h (.cons hcx (.cons hcy (.cons htop (.cons hright
    (.cons hbottom (.cons hleft .nil))))))⟩

theorem yields_rect {shape : Shape} (h : shape = .rect ∨ shape = .square) {box : Box α}
    (hnumbers : ∀ x ∈ outlineNumbers shape box, numbers x) :
    Yields (fun e => ∃ node, e.ReadAs node ∧ IsOutline shape box node) (Unwritten numbers)
      (outline shape box) := by
  have hshape : shape ∈ Shape.all := by
    rcases h with rfl | rfl <;> decide
  have hbody : outline shape box = (do
      let x ← number "x" (box.cx - (shape.extents box).1)
      let y ← number "y" (box.cy - (shape.extents box).2)
      let width ← number "width" (((2 : Int) : α) * (shape.extents box).1)
      let height ← number "height" (((2 : Int) : α) * (shape.extents box).2)
      pure (.empty "rect" [.verbatim "class" ("node " ++ shape.name), x, y, width, height])) := by
    rcases h with rfl | rfl <;> rfl
  rw [hbody]
  obtain ⟨-, -, ⟨hhorizontal, hvertical⟩, ⟨hwest, -⟩, hnorth, -⟩ := covers_outlineNumbers hnumbers
  refine (yields_number "x" hwest).bind ?_
  rintro _ ⟨x, hx, rfl⟩
  refine (yields_number "y" hnorth).bind ?_
  rintro _ ⟨y, hy, rfl⟩
  refine (yields_number "width" hhorizontal).bind ?_
  rintro _ ⟨width, hwidth, rfl⟩
  refine (yields_number "height" hvertical).bind ?_
  rintro _ ⟨height, hheight, rfl⟩
  have htag := isTag_outline hshape "rect"
    [.plain "x" x, .plain "y" y, .plain "width" width, .plain "height" height]
    (by decide) (by simp +decide [Attribute.IsReadable]) (by simp +decide [Attribute.pair])
  exact ⟨_, Element.readAs_empty htag,
    .rect h (.cons hx (.cons hy (.cons hwidth (.cons hheight .nil))))⟩

/-- The outline of a shape is read as it is drawn, for its class is one of a few words. -/
theorem yields_outline {shape : Shape} (h : shape ∈ Shape.all) {box : Box α}
    (hnumbers : ∀ x ∈ outlineNumbers shape box, numbers x) :
    Yields (fun e => ∃ node, e.ReadAs node ∧ IsOutline shape box node) (Unwritten numbers)
      (outline shape box) := by
  simp only [Shape.all, List.mem_cons, List.not_mem_nil, or_false] at h
  rcases h with rfl | rfl | rfl | rfl | rfl | rfl
  · exact yields_rect (.inl rfl) hnumbers
  · exact yields_rect (.inr rfl) hnumbers
  · exact yields_ellipse hnumbers
  · exact yields_circle hnumbers
  · exact yields_rhombus (.inl rfl) hnumbers
  · exact yields_rhombus (.inr rfl) hnumbers

/-- A class attribute is read as the word and the names, for none of them holds a space. -/
theorem exists_group {word : String} (hword : ' ' ∉ word.toList) {names : List String}
    (hnames : ∀ name ∈ names, IsWord name) {es : List Element} {nodes : List Markup.Node}
    (hes : List.Forall₂ Element.ReadAs es nodes) :
    ∃ node, (Element.lines "g" [classAttribute word names] es).ReadAs node ∧
      IsGroup word names nodes node := by
  have htag : IsTag "g" [classAttribute word names] :=
    ⟨by decide, by simp +decide [classAttribute, Attribute.IsReadable], by simp⟩
  refine ⟨_, Element.readAs_lines htag hes, .intro ?_⟩
  have hspace : ∀ name ∈ (word :: names.filter fun name => name ≠ word).map String.toList,
      ' ' ∉ name := by
    rw [List.forall_mem_map, List.forall_mem_cons]
    refine ⟨hword, fun name hname hmem => ?_⟩
    have hblank := (hnames name (List.mem_of_mem_filter hname)).unbroken ' ' hmem
    exact absurd hblank (by decide)
  have hsplit := List.splitOn_intercalate ' ' hspace (by simp)
  rw [String.toList_intercalate]
  refine (congrArg (List.map String.ofList) hsplit).trans ?_
  simp [Function.comp_def]

/-- Such a fault among those of a drawing. -/
def IsUnwritten (numbers : α → Prop) (fault : Fault) : Prop :=
  ∃ f, fault = .arithmetic f ∧ Unwritten numbers f

theorem isUnwritten (f : ArithmeticFault) (h : Unwritten numbers f) :
    IsUnwritten numbers (.arithmetic f) := ⟨f, rfl, h⟩

theorem yields_figure {p : Placement α} (h : p.node.IsNamed)
    (hnumbers : ∀ x ∈ outlineNumbers p.node.shape p.box, numbers x) :
    Yields (fun e => ∃ node, e.ReadAs node ∧ IsFigure p node) (IsUnwritten numbers)
      (Figure.ofPlacement p).element := by
  have hcenter := (covers_outlineNumbers hnumbers).1
  refine Yields.bind ((yields_outline h.shape hnumbers).mapError isUnwritten) ?_
  rintro shape ⟨outline, hshape, houtline⟩
  refine Yields.bind ((yields_textElements p.node.text hcenter).mapError isUnwritten) ?_
  rintro text ⟨label, htext, hlabel⟩
  obtain ⟨node, hnode, hgroup⟩ := exists_group (show ' ' ∉ "node-wrapper".toList by decide)
    h.classes (List.Forall₂.cons hshape htext)
  exact ⟨node, hnode, .intro houtline hlabel hgroup⟩

/-! ### Traces -/

theorem yields_command (letter : String) {p : Point α} (hp : Covers numbers p) :
    Yields (fun _ => True) (Unwritten numbers) (command letter p) :=
  (yields_text hp.1).bind fun _ _ => (yields_text hp.2).bind fun _ _ => trivial

theorem yields_pathData {points : List (Point α)} (h : ∀ p ∈ points, Covers numbers p) :
    Yields (fun d => pathData points = .ok d) (Unwritten numbers) (pathData points) := by
  have htrue : Yields (fun _ => True) (Unwritten numbers) (pathData points) := by
    cases points with
    | nil => trivial
    | cons first points =>
      rw [List.forall_mem_cons] at h
      refine (yields_command "M" h.1).bind fun _ _ => ?_
      have hlines := Yields.mapM fun p hp => yields_command "L" (h.2 p hp)
      exact hlines.bind fun _ _ => trivial
  exact htrue.with_eq.mono (fun _ h => h.1) fun _ h => h

/-- The corners of an arrowhead. -/
def corners (a : Arrowhead α) : List (Point α) := [a.apex, a.left, a.right]

theorem yields_arrowhead {a : Arrowhead α} (h : ∀ p ∈ corners a, Covers numbers p) :
    Yields (fun e => ∃ node, e.ReadAs node ∧ IsArrowhead a node) (Unwritten numbers)
      (arrowheadElement a) := by
  refine (yields_pathData h).bind fun d hd => ?_
  have htag : IsTag "path"
      [.plain "class" ("arrowhead " ++ a.terminal.name), .plain "d" (d ++ " Z")] :=
    ⟨by decide, by simp +decide [Attribute.IsReadable], by simp +decide [Attribute.pair]⟩
  exact ⟨_, Element.readAs_empty htag, .intro hd⟩

/-- Nodes that correspond to elements one by one. -/
theorem exists_nodes {β : Type} {r : β → Markup.Node → Prop} {l : List β} {es : List Element}
    (h : List.Forall₂ (fun b e => ∃ node, e.ReadAs node ∧ r b node) l es) :
    ∃ nodes, List.Forall₂ Element.ReadAs es nodes ∧ List.Forall₂ r l nodes := by
  induction h with
  | nil => exact ⟨[], .nil, .nil⟩
  | cons h _ ih =>
    obtain ⟨node, hread, hr⟩ := h
    obtain ⟨nodes, hreads, hrs⟩ := ih
    exact ⟨node :: nodes, .cons hread hreads, .cons hr hrs⟩

/-- The points of a drawn route: those of its path and its arrowheads, and the middle. -/
def tracePoints (r : Route α) : List (Point α) :=
  Polyline.midpoint r.points :: (r.points ++ r.arrowheads.flatMap corners)

theorem yields_trace {r : Route α} (h : ∀ name ∈ r.link.classes, IsWord name)
    (hpoints : ∀ p ∈ tracePoints r, Covers numbers p) :
    Yields (fun e => ∃ node, e.ReadAs node ∧ IsTrace r node) (Unwritten numbers)
      (Trace.ofRoute r).element := by
  rw [tracePoints, List.forall_mem_cons, List.forall_mem_append] at hpoints
  obtain ⟨hmiddle, hpath, hcorners⟩ := hpoints
  refine (yields_pathData hpath).bind fun d hd => ?_
  refine (Yields.mapM fun a ha => yields_arrowhead fun p hp =>
    hcorners p (List.mem_flatMap.mpr ⟨a, ha, hp⟩)).bind fun heads hheads => ?_
  obtain ⟨headNodes, hread, hheads⟩ := exists_nodes hheads
  refine (yields_textElements r.link.text hmiddle).bind ?_
  rintro text ⟨label, htext, hlabel⟩
  have htag : IsTag "path" [.plain "class" "path", .plain "d" d] :=
    ⟨by decide, by simp +decide [Attribute.IsReadable], by simp +decide [Attribute.pair]⟩
  obtain ⟨node, hnode, hgroup⟩ := exists_group (show ' ' ∉ "connection".toList by decide) h
    (List.Forall₂.cons (Element.readAs_empty htag) (List.rel_append hread htext))
  exact ⟨node, hnode, .intro hd hheads hlabel hgroup⟩

/-! ### Drawings -/

theorem readAs_styleElement (wanted : Bool) : List.Forall₂ Element.ReadAs
    (styleElement? (if wanted then [builtInSheet .standard] else [])).toList
    (styleNodes wanted) := by
  cases wanted with
  | false => exact .nil
  | true =>
    obtain ⟨e, he, hread⟩ := readAs_builtInSheet
    rw [if_pos rfl, he]
    exact .cons hread .nil

omit [Scalar α] in
theorem isWord_of_mem_routes {chart : Chart α} (hnamed : ∀ p ∈ chart.placements, p.node.IsNamed)
    (hlinks : ∀ p ∈ chart.placements, p.routes.map Route.link = p.node.links) {r : Route α}
    (hr : r ∈ chart.placements.flatMap Placement.routes) :
    ∀ name ∈ r.link.classes, IsWord name := by
  obtain ⟨p, hp, hr⟩ := List.mem_flatMap.mp hr
  refine (hnamed p hp).links r.link ?_
  rw [← hlinks p hp]
  exact List.mem_map_of_mem hr

/-- The numbers that stand in the drawing of a chart. -/
inductive IsNumberOf (chart : Chart α) : α → Prop
  | width : IsNumberOf chart chart.width
  | height : IsNumberOf chart chart.height
  | outline {p : Placement α} {x : α} (hp : p ∈ chart.placements)
    (hx : x ∈ outlineNumbers p.node.shape p.box) : IsNumberOf chart x
  | point {r : Route α} {q : Point α} {x : α} (hr : r ∈ chart.placements.flatMap Placement.routes)
    (hq : q ∈ tracePoints r) (hx : x = q.x ∨ x = q.y) : IsNumberOf chart x

theorem mapM_figures (chart : Chart α) : (Drawing.ofChart chart).figures.mapM Figure.element =
    chart.placements.mapM fun p => (Figure.ofPlacement p).element := List.mapM_map

theorem traceElements_traces (chart : Chart α) : traceElements (Drawing.ofChart chart).traces =
    (chart.placements.flatMap Placement.routes).mapM fun r => (Trace.ofRoute r).element := by
  rw [traceElements, Drawing.ofChart, ← List.map_flatMap, List.mapM_map]
  rfl

/-- The drawing of a chart whose names are words is read as the tree of the chart. -/
theorem yields_write {chart : Chart α} (hnamed : ∀ p ∈ chart.placements, p.node.IsNamed)
    (hlinks : ∀ p ∈ chart.placements, p.routes.map Route.link = p.node.links) (wanted : Bool) :
    Yields (fun svg => ∃ tree, Markup.read svg = some tree ∧ Depicts wanted chart tree)
      (IsUnwritten (IsNumberOf chart))
      ((Drawing.ofChart chart).write (if wanted then [builtInSheet .standard] else [])) := by
  have helement : Yields (fun e => ∃ tree, e.ReadAs tree ∧ Depicts wanted chart tree)
      (IsUnwritten (IsNumberOf chart)) ((Drawing.ofChart chart).element
        (if wanted then [builtInSheet .standard] else [])) := by
    refine Yields.bind ((yields_text .width).mapError isUnwritten) fun width hwidth => ?_
    refine Yields.bind ((yields_text .height).mapError isUnwritten) fun height hheight => ?_
    rw [mapM_figures, traceElements_traces]
    refine (Yields.mapM fun p hp => yields_figure (hnamed p hp) fun x hx =>
      .outline hp hx).bind fun figures hf => ?_
    obtain ⟨figureNodes, hfigures, hnodes⟩ := exists_nodes hf
    refine Yields.bind ((Yields.mapM fun r hr =>
      yields_trace (isWord_of_mem_routes hnamed hlinks hr) fun q hq =>
        ⟨.point hr hq (.inl rfl), .point hr hq (.inr rfl)⟩).mapError isUnwritten)
      fun traces ht => ?_
    obtain ⟨traceNodes, htraces, hroutes⟩ := exists_nodes ht
    have hbackground : IsTag "rect" [.plain "class" "background", .plain "x" "0", .plain "y" "0",
        .plain "width" width, .plain "height" height] :=
      ⟨by decide, by simp +decide [Attribute.IsReadable], by simp +decide [Attribute.pair]⟩
    have hgroup (name : String) : IsTag "g" [.plain "class" name] :=
      ⟨by decide, by simp +decide [Attribute.IsReadable], by simp⟩
    have hsvg : IsTag "svg" [.plain "xmlns" "http://www.w3.org/2000/svg",
        .plain "viewBox" s!"0 0 {width} {height}", .plain "width" width,
        .plain "height" height] :=
      ⟨by decide, by simp +decide [Attribute.IsReadable], by simp +decide [Attribute.pair]⟩
    have hparts := List.rel_append (readAs_styleElement wanted) (List.Forall₂.cons
      (Element.readAs_empty hbackground) (.cons (Element.readAs_lines (hgroup "nodes") hfigures)
        (.cons (Element.readAs_lines (hgroup "connections") htraces) .nil)))
    exact ⟨_, Element.readAs_lines hsvg hparts, .intro (.cons hwidth (.cons hheight .nil)) hnodes
      hroutes⟩
  refine helement.map ?_
  rintro e ⟨tree, hread, htree⟩
  exact ⟨tree, Element.read_writeLine hread, htree⟩

end Trees

/-! ### A chart of markup -/

/-- Texts and class names that would be markup if they were not escaped. -/
def markupText : String :=
  "grid \x7b a(text: \"</text>\\n]]>'\", class: \"\\\"> <g> node-wrapper\", connect: " ++
  "\x7b e:w#x(text: \"&lt;\", class: \"'/> connection\") \x7d), b#x(shape: circle); \x7d"

def markupNodes : List FlowGrid.Node :=
  [{ index := 0
     identifier := "a"
     row := 0
     col := 0
     label := none
     text := some "</text>\n]]>'"
     classes := ["\">", "<g>", "node-wrapper"]
     shape := .rect
     links := [⟨0, 1, .east, .west, some "&lt;", ["'/>", "connection"], .finish⟩] },
   { index := 1
     identifier := "b"
     row := 0
     col := 1
     label := some "x"
     text := none
     classes := []
     shape := .circle
     links := [] }]

theorem nodes_eq_markupNodes (grid : Grid Nat) :
    (do let document ← Document.read markupText
        let drafts ← document.drafts
        Node.ofDrafts drafts grid) = .ok markupNodes := by
  cbv

/-! ### All charts -/

/-- Without sheets of the user, the drawing of a text is read as the tree of its chart, in which
the routes of a node are those of its links in order. It only fails to be drawn when one of its
numbers has no text. -/
theorem drawing_read {α : Type} [Scalar α] {m : Metrics α} {s : Settings} (hs : s.sheets = [])
    {text : String} {chart : Chart α} (hc : Chart.compile m text = .ok chart) :
    (∀ p ∈ chart.placements, p.routes.map Route.link = p.node.links) ∧
    ((∃ svg tree, draw m (sheetsOf s) text = .ok svg ∧ Markup.read svg = some tree ∧
        Depicts s.builtInSheet chart tree) ∨
      ∃ x f, IsNumberOf chart x ∧ Scalar.text x = .error f ∧
        draw m (sheetsOf s) text = .error (.arithmetic f)) := by
  have hlinks := Chart.links_of_compile hc
  have hdraw : draw m (sheetsOf s) text = (Drawing.ofChart chart).write
      (if s.builtInSheet then [builtInSheet .standard] else []) := by
    rw [draw, hc, sheetsOf, hs, List.append_nil]
    rfl
  have h := yields_write (Chart.isNamed_of_compile hc) hlinks s.builtInSheet
  refine ⟨hlinks, ?_⟩
  rw [hdraw]
  cases hw : (Drawing.ofChart chart).write
      (if s.builtInSheet then [builtInSheet .standard] else []) with
  | ok svg =>
    rw [hw] at h
    obtain ⟨tree, hread, htree⟩ := h
    exact .inl ⟨svg, tree, rfl, hread, htree⟩
  | error fault =>
    rw [hw] at h
    obtain ⟨f, rfl, x, hx, hf⟩ := h
    exact .inr ⟨x, f, hx, hf, rfl⟩

/-- The drawing of such texts and names, over exact numbers. -/
theorem drawing_read_of_markup :
    let m : Metrics ℝ := ⟨200, 100, 50, 50⟩
    Settings.standard.sheets = [] ∧ ∃ chart svg tree, Chart.compile m markupText = .ok chart ∧
      draw m (sheetsOf .standard) markupText = .ok svg ∧ Markup.read svg = some tree ∧
      Depicts true chart tree := by
  intro m
  obtain ⟨-, chart, hchart, -⟩ :=
    Chart.exists_compile_of_nodes nodes_eq_markupNodes Metrics.positive_standard (by decide)
  refine ⟨rfl, chart, ?_⟩
  rcases (drawing_read (s := .standard) rfl hchart).2 with ⟨svg, tree, hsvg, hread, htree⟩ |
    ⟨x, f, -, hx, -⟩
  · exact ⟨svg, tree, hchart, hsvg, hread, htree⟩
  · rw [text_real] at hx
    cases hx

end Svg
end FlowGrid
