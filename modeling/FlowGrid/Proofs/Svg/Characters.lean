import FlowGrid.Proofs.Svg.Depiction

/-! The characters of a drawing. A document may not hold all of them. Those that it may not hold
come into the drawing with the texts and the class names of a chart, all of them and in order;
nothing else that is written holds one. -/

namespace FlowGrid.Svg

open Markup Result

/-- The characters that a document of XML 1.0 may hold. -/
def isLegal (c : Char) : Bool :=
  let n := c.toNat
  n = 0x9 || n = 0xa || n = 0xd || (0x20 ≤ n && n ≤ 0xd7ff) || (0xe000 ≤ n && n ≤ 0xfffd) ||
    (0x10000 ≤ n && n ≤ 0x10ffff)

/-- The other characters of a text, in order. -/
def illegal (s : String) : List Char := s.toList.filter fun c => !isLegal c

theorem isLegal_of_visible {c : Char} (hlower : ' ' ≤ c) (hupper : c ≤ '~') : isLegal c := by
  have hspace : 0x20 ≤ c.toNat := hlower
  have htilde : c.toNat ≤ 0x7e := hupper
  simp only [isLegal, Bool.or_eq_true, Bool.and_eq_true, decide_eq_true_eq]
  omega

/-! ### Texts -/

@[simp]
theorem illegal_append (s t : String) : illegal (s ++ t) = illegal s ++ illegal t := by
  rw [illegal, String.toList_append, List.filter_append]
  rfl

theorem illegal_ofList (cs : List Char) :
    illegal (String.ofList cs) = cs.filter fun c => !isLegal c := by
  rw [illegal, String.toList_ofList]

@[simp]
theorem illegal_join (texts : List String) :
    illegal (String.join texts) = texts.flatMap illegal := by
  rw [illegal, String.toList_join, List.filter_flatMap]
  rfl

theorem illegal_intercalate {sep : String} (hsep : illegal sep = []) (texts : List String) :
    illegal (sep.intercalate texts) = texts.flatMap illegal := by
  induction texts with
  | nil => rfl
  | cons s texts ih =>
    cases texts with
    | nil => simp
    | cons t texts =>
      rw [String.intercalate_cons_cons, illegal_append, illegal_append, hsep, ih, List.append_nil,
        List.flatMap_cons, List.flatMap_cons, List.flatMap_cons]

/-- Escapes leave the characters that they do not write as they are, and write legal ones. -/
@[simp]
theorem illegal_escape (s : String) : illegal (escape s) = illegal s := by
  have hchar (c : Char) : ((escapeChar c).toList.filter fun c => !isLegal c) =
      [c].filter fun c => !isLegal c := by
    unfold escapeChar entity?
    split
    case h_6 => simp
    all_goals rfl
  rw [illegal, toList_escape, List.filter_flatMap]
  simp only [hchar]
  rw [← List.filter_flatMap, List.flatMap_singleton']
  rfl

theorem illegal_eq_nil_iff {s : String} : illegal s = [] ↔ ∀ c ∈ s.toList, isLegal c := by
  simp [illegal, List.filter_eq_nil_iff]

theorem illegal_linesOf (s : String) : (linesOf s).flatMap illegal = illegal s := by
  rw [← illegal_intercalate (show illegal "\n" = [] by decide), intercalate_linesOf]

/-! ### Numbers -/

theorem illegal_digits {n : Nat} : (Nat.toDigits 10 n).filter (fun c => !isLegal c) = [] := by
  refine List.filter_eq_nil_iff.mpr fun c hc => ?_
  have hdigit := Nat.isDigit_of_mem_toDigits (by decide) (by decide) hc
  simp only [Char.isDigit, Bool.and_eq_true, decide_eq_true_eq] at hdigit
  have hlegal : isLegal c := isLegal_of_visible
    (Char.le_trans (by decide) hdigit.1) (Char.le_trans hdigit.2 (by decide))
  simpa using hlegal

@[simp]
theorem illegal_toString (n : Nat) : illegal (toString n) = [] := by
  rw [Nat.toString_eq_ofList_toDigits, illegal_ofList, illegal_digits]

theorem illegal_padded (width n : Nat) : illegal (Decimal.padded width n) = [] := by
  have hzeros (k : Nat) : (List.replicate k '0').filter (fun c => !isLegal c) = [] := by
    refine List.filter_eq_nil_iff.mpr fun c hc => ?_
    rw [List.eq_of_mem_replicate hc]
    decide
  rw [Decimal.padded, illegal_ofList, List.filter_append, hzeros, illegal_digits, List.append_nil]

theorem illegal_hundredthsText (n : Nat) : illegal (Decimal.hundredthsText n) = [] := by
  have hpoint : illegal "." = [] := by decide
  unfold Decimal.hundredthsText
  dsimp only
  split_ifs <;> simp only [illegal_append, illegal_toString, illegal_padded, hpoint,
    List.append_nil]

@[simp]
theorem illegal_ofHundredths (h : Int) : illegal (Decimal.ofHundredths h) = [] := by
  have hsign : illegal (if h < 0 then "-" else "") = [] := by split_ifs <;> decide
  rw [Decimal.ofHundredths, illegal_append, hsign, illegal_hundredthsText, List.append_nil]

/-! ### Elements -/

@[simp]
theorem illegal_plain (name value : String) :
    illegal (Attribute.plain name value).write = illegal name ++ illegal value := by
  have hmarks : illegal " " = [] ∧ illegal "=\"" = [] ∧ illegal "\"" = [] := by decide
  simp [Attribute.write, hmarks]

theorem illegal_verbatim (name value : String) :
    illegal (Attribute.verbatim name value).write = illegal name ++ illegal value := by
  have hmarks : illegal " " = [] ∧ illegal "=\"" = [] ∧ illegal "\"" = [] := by decide
  simp [Attribute.write, hmarks]

namespace Element

variable {tag : String} {attributes : List Attribute}

theorem illegal_head (htag : illegal tag = []) :
    illegal (head tag attributes) = attributes.flatMap fun a => illegal a.write := by
  rw [head, illegal_append, htag, illegal_join, List.flatMap_map, List.nil_append]

theorem illegal_opening (htag : illegal tag = []) :
    illegal (opening tag attributes) = attributes.flatMap fun a => illegal a.write := by
  have hstart : illegal "<" = [] := by decide
  have hend : illegal ">" = [] := by decide
  rw [opening, illegal_append, illegal_append, hstart, hend, illegal_head htag, List.nil_append,
    List.append_nil]

theorem illegal_closing (htag : illegal tag = []) : illegal (closing tag) = [] := by
  have hstart : illegal "</" = [] := by decide
  have hend : illegal ">" = [] := by decide
  rw [closing, illegal_append, illegal_append, hstart, hend, htag]
  rfl

theorem illegal_empty (htag : illegal tag = []) :
    illegal (empty tag attributes).write = attributes.flatMap fun a => illegal a.write := by
  have hstart : illegal "<" = [] := by decide
  have hend : illegal " />" = [] := by decide
  rw [write, illegal_append, illegal_append, hstart, hend, illegal_head htag, List.nil_append,
    List.append_nil]

theorem illegal_text (htag : illegal tag = []) (content : String) :
    illegal (text tag attributes content).write =
      (attributes.flatMap fun a => illegal a.write) ++ illegal content := by
  rw [write, illegal_append, illegal_append, illegal_opening htag, illegal_closing htag,
    illegal_escape, List.append_nil]

theorem illegal_joined (htag : illegal tag = []) (children : List Element) :
    illegal (joined tag attributes children).write =
      (attributes.flatMap fun a => illegal a.write) ++
        children.flatMap fun e => illegal e.write := by
  rw [write, illegal_append, illegal_append, illegal_opening htag, illegal_closing htag,
    illegal_join, writeAll_eq_map, List.flatMap_map, List.append_nil]

theorem illegal_lines (htag : illegal tag = []) (children : List Element) :
    illegal (lines tag attributes children).write =
      (attributes.flatMap fun a => illegal a.write) ++
        children.flatMap fun e => illegal e.write := by
  rw [write, illegal_intercalate (by decide), List.cons_append, List.flatMap_cons,
    List.flatMap_append, writeAll_eq_map, List.flatMap_map, List.flatMap_singleton,
    illegal_opening htag, illegal_closing htag, List.append_nil]

end Element

/-! ### Labels -/

section Drawings

variable {α : Type} [Scalar α]

theorem illegal_of_text {x : α} {s : String} (h : Scalar.text x = .ok s) : illegal s = [] := by
  obtain ⟨negative, n, rfl⟩ := Scalar.exists_of_text h
  have hsign : illegal (if negative then "-" else "") = [] := by cases negative <;> decide
  rw [illegal_append, hsign, illegal_hundredthsText, List.append_nil]

theorem illegal_of_number {name : String} (hname : illegal name = []) {x : α} {a : Attribute}
    (h : number name x = .ok a) : illegal a.write = [] := by
  obtain ⟨s, hs, rfl⟩ := map_eq_ok_iff.mp h
  rw [illegal_plain, hname, illegal_of_text hs, List.append_nil]

theorem illegal_lineSpans {x : String} (hx : illegal x = []) (lines : List String) :
    ((lineSpans x lines).flatMap fun e => illegal e.write) = lines.flatMap illegal := by
  have hspan (line : String) (i : Nat) (first : Int) : illegal (Element.text "tspan" [.plain "x" x,
      .plain "dy" (Decimal.ofHundredths (if i = 0 then first else lineHeight) ++ "em")]
        line).write = illegal line := by
    have hnames : illegal "x" = [] ∧ illegal "dy" = [] ∧ illegal "em" = [] := by decide
    rw [Element.illegal_text (by decide)]
    simp [hnames, hx]
  unfold lineSpans
  simp only [List.flatMap_map, hspan]
  rw [← List.flatMap_map, List.zipIdx_map_fst]

theorem illegal_of_textElement {s : String} {place : Point α} {e : Element}
    (h : textElement s place = .ok e) : illegal e.write = illegal s := by
  obtain ⟨x, hx, h⟩ := bind_eq_ok_iff.mp h
  obtain ⟨y, hy, h⟩ := bind_eq_ok_iff.mp h
  have hattributes : ([.plain "x" x, .plain "y" y, .plain "text-anchor" "middle",
      .plain "dy" baselineShift] : List Attribute).flatMap (fun a => illegal a.write) = [] := by
    have hwords : illegal "x" = [] ∧ illegal "y" = [] ∧ illegal "text-anchor" = [] ∧
      illegal "middle" = [] ∧ illegal "dy" = [] ∧ illegal baselineShift = [] := by decide
    simp [hwords, illegal_of_text hx, illegal_of_text hy]
  dsimp only at h
  rw [← linesOf] at h
  split_ifs at h
  · cases h
    rw [Element.illegal_text (by decide), hattributes, List.nil_append]
  · cases h
    rw [Element.illegal_joined (by decide), hattributes, List.nil_append,
      illegal_lineSpans (illegal_of_text hx), illegal_linesOf]

theorem illegal_of_textElements {text : Option String} {place : Point α} {es : List Element}
    (h : textElements text place = .ok es) :
    (es.flatMap fun e => illegal e.write) = illegal (text.getD "") := by
  cases text with
  | none =>
    cases h
    rfl
  | some s =>
    rw [textElements] at h
    split_ifs at h with hs
    · cases h
      rw [String.isEmpty_iff.mp hs]
      rfl
    · obtain ⟨e, he, rfl⟩ := map_eq_ok_iff.mp h
      rw [List.flatMap_singleton, illegal_of_textElement he, Option.getD_some]

/-! ### Figures -/

/-- The characters of class names and of a text that no document may hold. -/
def illegalIn (names : List String) (text : Option String) : List Char :=
  names.flatMap illegal ++ illegal (text.getD "")

theorem illegal_classAttribute {word : String} (hword : illegal word = []) (names : List String) :
    illegal (classAttribute word names).write = names.flatMap illegal := by
  have hclass : illegal "class" = [] := by decide
  have hnames : (names.filter fun name => name ≠ word).flatMap illegal = names.flatMap illegal := by
    induction names with
    | nil => rfl
    | cons name names ih =>
      by_cases h : name = word
      · rw [List.filter_cons_of_neg (by simpa using h), ih, List.flatMap_cons, h, hword,
          List.nil_append]
      · rw [List.filter_cons_of_pos (by simpa using h), List.flatMap_cons, List.flatMap_cons, ih]
  rw [classAttribute, illegal_plain, illegal_intercalate (by decide), List.flatMap_cons, hclass,
    hword, hnames]
  rfl

theorem illegal_nodeClass {shape : Shape} (h : shape ∈ Shape.all) :
    illegal (Attribute.verbatim "class" ("node " ++ shape.name)).write = [] := by
  have hname : ∀ shape ∈ Shape.all, illegal shape.name = [] := by decide
  have hwords : illegal "class" = [] ∧ illegal "node " = [] := by decide
  simp [illegal_verbatim, hwords, hname shape h]

theorem illegal_of_corner {x y : α} {s : String} (h : corner x y = .ok s) : illegal s = [] := by
  obtain ⟨sx, hx, h⟩ := bind_eq_ok_iff.mp h
  obtain ⟨sy, hy, h⟩ := bind_eq_ok_iff.mp h
  cases h
  rw [illegal_append, illegal_append, illegal_of_text hx, illegal_of_text hy]
  rfl

/-- The outline of a shape has a class name of a few words and numbers. -/
theorem illegal_of_outline {shape : Shape} (hshape : shape ∈ Shape.all) {box : Box α} {e : Element}
    (h : outline shape box = .ok e) : illegal e.write = [] := by
  have hclass := illegal_nodeClass hshape
  unfold outline at h
  dsimp only at h
  split at h
  case h_1 =>
    obtain ⟨cx, hcx, h⟩ := bind_eq_ok_iff.mp h
    obtain ⟨cy, hcy, h⟩ := bind_eq_ok_iff.mp h
    obtain ⟨rx, hrx, h⟩ := bind_eq_ok_iff.mp h
    obtain ⟨ry, hry, h⟩ := bind_eq_ok_iff.mp h
    cases h
    rw [Element.illegal_empty (by decide)]
    simp [hclass, illegal_of_number (by decide) hcx,
      illegal_of_number (by decide) hcy, illegal_of_number (by decide) hrx,
      illegal_of_number (by decide) hry]
  case h_2 =>
    obtain ⟨cx, hcx, h⟩ := bind_eq_ok_iff.mp h
    obtain ⟨cy, hcy, h⟩ := bind_eq_ok_iff.mp h
    obtain ⟨r, hr, h⟩ := bind_eq_ok_iff.mp h
    cases h
    rw [Element.illegal_empty (by decide)]
    simp [hclass, illegal_of_number (by decide) hcx,
      illegal_of_number (by decide) hcy, illegal_of_number (by decide) hr]
  case h_3 | h_4 =>
    obtain ⟨top, htop, h⟩ := bind_eq_ok_iff.mp h
    obtain ⟨right, hright, h⟩ := bind_eq_ok_iff.mp h
    obtain ⟨bottom, hbottom, h⟩ := bind_eq_ok_iff.mp h
    obtain ⟨left, hleft, h⟩ := bind_eq_ok_iff.mp h
    cases h
    have hwords : illegal "points" = [] ∧ illegal " " = [] := by decide
    rw [Element.illegal_empty (by decide)]
    simp [hclass, hwords, illegal_of_corner htop, illegal_of_corner hright,
      illegal_of_corner hbottom, illegal_of_corner hleft]
  case h_5 =>
    obtain ⟨x, hx, h⟩ := bind_eq_ok_iff.mp h
    obtain ⟨y, hy, h⟩ := bind_eq_ok_iff.mp h
    obtain ⟨width, hwidth, h⟩ := bind_eq_ok_iff.mp h
    obtain ⟨height, hheight, h⟩ := bind_eq_ok_iff.mp h
    cases h
    rw [Element.illegal_empty (by decide)]
    simp [hclass, illegal_of_number (by decide) hx,
      illegal_of_number (by decide) hy, illegal_of_number (by decide) hwidth,
      illegal_of_number (by decide) hheight]

theorem illegal_of_figure {p : Placement α} (hshape : p.node.shape ∈ Shape.all) {e : Element}
    (h : (Figure.ofPlacement p).element = .ok e) :
    illegal e.write = illegalIn p.node.classes p.node.text := by
  obtain ⟨shape, hs, h⟩ := bind_eq_ok_iff.mp h
  obtain ⟨text, ht, h⟩ := bind_eq_ok_iff.mp h
  cases h
  rw [Element.illegal_lines (by decide), List.flatMap_singleton, List.flatMap_cons,
    illegal_classAttribute (by decide), illegal_of_outline hshape (mapError_eq_ok_iff.mp hs),
    illegal_of_textElements (mapError_eq_ok_iff.mp ht)]
  rfl

/-! ### Traces -/

/-- The parts of a whole that is made entry by entry. -/
theorem flatMap_of_mapM {β γ ε : Type} {f : β → Except ε γ} {g : β → List Char}
    {k : γ → List Char} {l : List β} {cs : List γ} (h : l.mapM f = .ok cs)
    (hf : ∀ b ∈ l, ∀ c, f b = .ok c → k c = g b) : cs.flatMap k = l.flatMap g := by
  have hpairs := forall₂_of_mapM h
  -- the list is an index of `h`, which would enter the induction
  clear h
  induction hpairs with
  | nil => rfl
  | cons hb _ ih =>
    rw [List.forall_mem_cons] at hf
    rw [List.flatMap_cons, List.flatMap_cons, hf.1 _ hb, ih hf.2]

theorem illegal_of_command {letter : String} (hletter : illegal letter = []) {p : Point α}
    {s : String} (h : command letter p = .ok s) : illegal s = [] := by
  obtain ⟨x, hx, h⟩ := bind_eq_ok_iff.mp h
  obtain ⟨y, hy, h⟩ := bind_eq_ok_iff.mp h
  cases h
  rw [illegal_intercalate (by decide)]
  simp [hletter, illegal_of_text hx, illegal_of_text hy]

theorem illegal_of_pathData {points : List (Point α)} {d : String} (h : pathData points = .ok d) :
    illegal d = [] := by
  cases points with
  | nil =>
    cases h
    rfl
  | cons first points =>
    obtain ⟨move, hmove, h⟩ := bind_eq_ok_iff.mp h
    obtain ⟨lines, hlines, h⟩ := bind_eq_ok_iff.mp h
    cases h
    have hrest : lines.flatMap illegal = points.flatMap fun _ => [] :=
      flatMap_of_mapM hlines fun p _ s hs => illegal_of_command (by decide) hs
    rw [illegal_intercalate (by decide), List.flatMap_cons, illegal_of_command (by decide) hmove,
      hrest]
    simp

theorem illegal_of_arrowhead {a : Arrowhead α} {e : Element} (h : arrowheadElement a = .ok e) :
    illegal e.write = [] := by
  obtain ⟨d, hd, h⟩ := bind_eq_ok_iff.mp h
  cases h
  have hwords : illegal "class" = [] ∧ illegal "arrowhead " = [] ∧ illegal "d" = [] ∧
    illegal " Z" = [] := by decide
  have hterminal : illegal a.terminal.name = [] := by cases a.terminal <;> decide
  rw [Element.illegal_empty (by decide)]
  simp [hwords, hterminal, illegal_of_pathData hd]

theorem illegal_of_trace {r : Route α} {e : Element} (h : (Trace.ofRoute r).element = .ok e) :
    illegal e.write = illegalIn r.link.classes r.link.text := by
  obtain ⟨d, hd, h⟩ := bind_eq_ok_iff.mp h
  obtain ⟨heads, hheads, h⟩ := bind_eq_ok_iff.mp h
  obtain ⟨text, ht, h⟩ := bind_eq_ok_iff.mp h
  cases h
  have hwords : illegal "class" = [] ∧ illegal "path" = [] ∧ illegal "d" = [] := by decide
  have hpath : illegal (Element.empty "path" [.plain "class" "path", .plain "d" d]).write = [] := by
    rw [Element.illegal_empty (by decide)]
    simp [hwords, illegal_of_pathData hd]
  have hrest : (heads.flatMap fun e => illegal e.write) = r.arrowheads.flatMap fun _ => [] :=
    flatMap_of_mapM hheads fun a _ e he => illegal_of_arrowhead he
  rw [Element.illegal_lines (by decide), List.flatMap_singleton,
    illegal_classAttribute (by decide), List.cons_append, List.flatMap_cons, List.flatMap_append,
    hpath, hrest, illegal_of_textElements ht]
  simp [illegalIn, Trace.ofRoute]

/-! ### Drawings -/

theorem illegal_characterData (body : String) : illegal (characterData body) = illegal body := by
  have hstart : illegal "<![CDATA[\n" = [] := by decide
  have hend : illegal "\n]]>" = [] := by decide
  unfold characterData
  split_ifs
  · rw [illegal_append, illegal_append, hstart, hend, List.nil_append, List.append_nil]
  · rfl

theorem illegal_styleElement (sheets : List String) :
    ((styleElement? sheets).toList.flatMap fun e => illegal e.write) =
      illegal (joinSheets sheets) := by
  unfold styleElement?
  dsimp only
  split_ifs with h
  · rw [String.isEmpty_iff.mp h]
    rfl
  · rw [Option.toList_some, List.flatMap_singleton, Element.illegal_lines (by decide),
      List.flatMap_singleton, Element.write, illegal_characterData]
    rfl

theorem illegal_builtInSheet (wanted : Bool) :
    illegal (joinSheets (if wanted then [builtInSheet .standard] else [])) = [] := by
  cases wanted with
  | false => decide
  | true =>
    rw [if_pos rfl, joinSheets_singleton isTrimmed_builtInSheet.1 isTrimmed_builtInSheet.2]
    refine illegal_eq_nil_iff.mpr fun c hc => ?_
    have hplain := List.all_eq_true.mp isPlain_builtInSheet c hc
    obtain ⟨rfl | ⟨hlower, hupper⟩, -⟩ := of_decide_eq_true hplain
    · decide
    · exact isLegal_of_visible hlower hupper

/-- The characters of a drawing that no document may hold are those of the sheets, then those of
the figures, then those of the traces. -/
theorem illegal_of_write {chart : Chart α} (hshapes : ∀ p ∈ chart.placements,
    p.node.shape ∈ Shape.all) {sheets : List String} {svg : String}
    (h : (Drawing.ofChart chart).write sheets = .ok svg) : illegal svg =
      illegal (joinSheets sheets) ++
        (chart.placements.flatMap (fun p => illegalIn p.node.classes p.node.text) ++
          (chart.placements.flatMap Placement.routes).flatMap fun r =>
            illegalIn r.link.classes r.link.text) := by
  obtain ⟨e, he, rfl⟩ := map_eq_ok_iff.mp h
  obtain ⟨width, hwidth, he⟩ := bind_eq_ok_iff.mp he
  obtain ⟨height, hheight, he⟩ := bind_eq_ok_iff.mp he
  obtain ⟨figures, hfigures, he⟩ := bind_eq_ok_iff.mp he
  obtain ⟨traces, htraces, he⟩ := bind_eq_ok_iff.mp he
  cases he
  rw [mapM_figures] at hfigures
  rw [traceElements_traces] at htraces
  have hwords : illegal "class" = [] ∧ illegal "x" = [] ∧ illegal "y" = [] ∧ illegal "0" = [] ∧
    illegal "background" = [] ∧ illegal "width" = [] ∧ illegal "height" = [] ∧
    illegal "xmlns" = [] ∧ illegal "http://www.w3.org/2000/svg" = [] ∧ illegal "viewBox" = [] ∧
    illegal "0 0 " = [] ∧ illegal " " = [] ∧ illegal "" = [] := by decide
  have hwidth := illegal_of_text (mapError_eq_ok_iff.mp hwidth)
  have hheight := illegal_of_text (mapError_eq_ok_iff.mp hheight)
  have hattributes : ([.plain "xmlns" "http://www.w3.org/2000/svg",
      .plain "viewBox" s!"0 0 {width} {height}", .plain "width" width,
      .plain "height" height] : List Attribute).flatMap (fun a => illegal a.write) = [] := by
    simp [toString, hwords, hwidth, hheight]
  have hbackground : illegal (Element.empty "rect" [.plain "class" "background", .plain "x" "0",
      .plain "y" "0", .plain "width" width, .plain "height" height]).write = [] := by
    rw [Element.illegal_empty (by decide)]
    simp [hwords, hwidth, hheight]
  have hgroup (name : String) (hname : illegal name = []) (es : List Element) :
      illegal (Element.lines "g" [.plain "class" name] es).write =
        es.flatMap fun e => illegal e.write := by
    rw [Element.illegal_lines (by decide), List.flatMap_singleton, illegal_plain, hname, hwords.1]
    rfl
  rw [illegal_append, Element.illegal_lines (by decide), hattributes, List.flatMap_append,
    illegal_styleElement, List.flatMap_cons, hbackground, List.flatMap_cons, hgroup _ (by decide),
    List.flatMap_singleton, hgroup _ (by decide),
    flatMap_of_mapM hfigures fun p hp e he => illegal_of_figure (hshapes p hp) he,
    flatMap_of_mapM (mapError_eq_ok_iff.mp htraces) fun r _ e he => illegal_of_trace he]
  exact List.append_nil _

end Drawings

/-! ### All charts -/

/-- Without sheets of the user, the characters of a drawing that no document may hold are those of
the class names and the texts of its nodes, then those of its links. So a drawing is free of them
exactly when the names and the texts are. -/
theorem drawing_illegal {α : Type} [Scalar α] {m : Metrics α} {s : Settings} (hs : s.sheets = [])
    {text svg : String} (h : draw m (sheetsOf s) text = .ok svg) :
    ∃ chart, Chart.compile m text = .ok chart ∧ illegal svg =
      chart.placements.flatMap (fun p => illegalIn p.node.classes p.node.text) ++
        chart.placements.flatMap fun p => p.node.links.flatMap fun link =>
          illegalIn link.classes link.text := by
  obtain ⟨chart, hc, hwrite⟩ := bind_eq_ok_iff.mp h
  have hshapes : ∀ p ∈ chart.placements, p.node.shape ∈ Shape.all :=
    fun p hp => (Chart.isNamed_of_compile hc p hp).shape
  have hroutes : ((chart.placements.flatMap Placement.routes).flatMap fun r =>
      illegalIn r.link.classes r.link.text) =
        chart.placements.flatMap fun p => p.node.links.flatMap fun link =>
          illegalIn link.classes link.text := by
    rw [List.flatMap_assoc]
    refine List.flatMap_congr fun p hp => ?_
    rw [← Chart.links_of_compile hc p hp, List.flatMap_map]
  rw [sheetsOf, hs, List.append_nil] at hwrite
  refine ⟨chart, hc, ?_⟩
  rw [illegal_of_write hshapes hwrite, illegal_builtInSheet, List.nil_append, hroutes]

/-- A control character in each place where a user can write one. -/
def controlText : String :=
  "grid \x7b a(text: \"\x01\", class: \"\x02\", connect: \x7b e:w#x(text: \"\x03\", " ++
  "class: \"\x04\") \x7d), b#x; \x7d"

def controlNodes : List FlowGrid.Node :=
  [{ index := 0
     identifier := "a"
     row := 0
     col := 0
     label := none
     text := some "\x01"
     classes := ["\x02"]
     shape := .rect
     links := [⟨0, 1, .east, .west, some "\x03", ["\x04"], .finish⟩] },
   { index := 1
     identifier := "b"
     row := 0
     col := 1
     label := some "x"
     text := none
     classes := []
     shape := .rect
     links := [] }]

theorem nodes_eq_controlNodes (grid : Grid Nat) :
    (do let document ← Document.read controlText
        let drafts ← document.drafts
        Node.ofDrafts drafts grid) = .ok controlNodes := by
  cbv

theorem exists_drawing_controlText {m : Metrics ℝ} (hm : m.Positive) (sheets : List String) :
    ∃ chart svg, Chart.compile m controlText = .ok chart ∧
      chart.placements.map Placement.node = controlNodes ∧
      (Drawing.ofChart chart).write sheets = .ok svg := by
  obtain ⟨grid, chart, hc, hchart⟩ :=
    Chart.exists_compile_of_nodes nodes_eq_controlNodes hm (by decide)
  obtain ⟨svg, hsvg⟩ := exists_write chart sheets
  exact ⟨chart, svg, hc, Chart.map_node_of_ofNodes hchart, hsvg⟩

/-- The drawing of such names and texts holds all of them. -/
theorem drawing_illegal_of_controls :
    let m : Metrics ℝ := ⟨200, 100, 50, 50⟩
    Settings.standard.sheets = [] ∧ ∃ svg, draw m (sheetsOf .standard) controlText = .ok svg ∧
      illegal svg = ['\x02', '\x01', '\x04', '\x03'] := by
  intro m
  obtain ⟨chart, svg, hc, hnodes, hwrite⟩ :=
    exists_drawing_controlText Metrics.positive_standard (sheetsOf .standard)
  have hdraw : draw m (sheetsOf .standard) controlText = .ok svg :=
    bind_eq_ok_iff.mpr ⟨chart, hc, hwrite⟩
  obtain ⟨chart', hc', hillegal⟩ := drawing_illegal (s := .standard) rfl hdraw
  cases hc.symm.trans hc'
  refine ⟨rfl, svg, hdraw, ?_⟩
  rw [hillegal, ← List.flatMap_map (f := Placement.node)
      (g := fun node => illegalIn node.classes node.text),
    ← List.flatMap_map (f := Placement.node)
      (g := fun node => node.links.flatMap fun link => illegalIn link.classes link.text), hnodes]
  decide

/-- A text that is drawn with a character that no document may hold. -/
theorem exists_illegal_drawing : ∃ (m : Metrics ℝ) (s : Settings) (svg : String),
    m.Positive ∧ s.sheets = [] ∧ draw m (sheetsOf s) controlText = .ok svg ∧
      '\x01' ∈ svg.toList ∧ isLegal '\x01' = false := by
  obtain ⟨chart, svg, hc, hnodes, hwrite⟩ :=
    exists_drawing_controlText Metrics.positive_standard (sheetsOf .standard)
  refine ⟨_, .standard, svg, Metrics.positive_standard, rfl, bind_eq_ok_iff.mpr ⟨chart, hc, hwrite⟩, ?_,
    by decide⟩
  obtain ⟨p, placements, hplacements, hnode, -⟩ := List.map_eq_cons_iff.mp hnodes
  have hmem : '\x01' ∈ illegalIn p.node.classes p.node.text := by
    rw [hnode]
    decide
  have hillegal : '\x01' ∈ illegal svg := by
    rw [illegal_of_write (fun p hp => (Chart.isNamed_of_compile hc p hp).shape) hwrite,
      hplacements, List.flatMap_cons]
    exact List.mem_append_right _ (List.mem_append_left _ (List.mem_append_left _ hmem))
  exact List.mem_of_mem_filter hillegal

end FlowGrid.Svg
