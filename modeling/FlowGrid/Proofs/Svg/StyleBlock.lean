import FlowGrid.Proofs.Svg.Reading
import FlowGrid.Svg.Stylesheet
import Mathlib.Data.List.DropRight

/-! Embedded style sheets. The element that embeds them is missing when all of them are blank,
and otherwise it is read as one element that holds text alone: the sheets without their outer
blanks, each on lines of its own. This fails only for sheets that spell the end of a marked
section, which is written as it stands. -/

namespace FlowGrid

/-! ### Outer blanks -/

namespace Text

variable {p : Char → Bool} {cs ds : List Char}

/-- Characters of which neither the first nor the last one is to be trimmed. -/
structure IsTrimmed (p : Char → Bool) (cs : List Char) : Prop where
  head : ∀ c ∈ cs.head?, p c = false
  last : ∀ c ∈ cs.getLast?, p c = false

theorem dropWhile_append_of_head (hcs : ∀ c ∈ cs.head?, p c = false) (hne : cs ≠ [])
    (ds : List Char) : (cs ++ ds).dropWhile p = cs ++ ds := by
  obtain ⟨c, cs, rfl⟩ := List.exists_cons_of_ne_nil hne
  rw [List.cons_append, List.dropWhile_cons, hcs c rfl, if_neg Bool.false_ne_true]

theorem trimBoth_append {before after : List Char} (hbefore : ∀ c ∈ before, p c = true)
    (hafter : ∀ c ∈ after, p c = true) (h : IsTrimmed p cs) (hne : cs ≠ []) :
    trimBoth p (before ++ (cs ++ after)) = cs := by
  have hlast : ∀ c ∈ cs.reverse.head?, p c = false := by simpa using h.last
  have hend := dropWhile_append_of_head hlast (by simpa using hne) []
  rw [trimBoth, List.dropWhile_append_of_pos hbefore, dropWhile_append_of_head h.head hne,
    List.reverse_append, List.dropWhile_append_of_pos (by simpa using hafter),
    ← List.append_nil cs.reverse, hend, List.append_nil, List.reverse_reverse]

theorem head?_dropWhile (p : Char → Bool) (cs : List Char) :
    ∀ c ∈ (cs.dropWhile p).head?, p c = false := by
  intro c hc
  have h := List.head?_dropWhile_not p cs
  rw [Option.mem_def.mp hc] at h
  exact h

theorem isTrimmed_trimBoth (p : Char → Bool) (cs : List Char) : IsTrimmed p (trimBoth p cs) := by
  constructor
  -- what is left starts as it did before its end was dropped
  · intro c hc
    obtain ⟨rest, hrest⟩ := List.rdropWhile_prefix p (cs.dropWhile p)
    refine head?_dropWhile p cs c ?_
    rw [← hrest, Option.mem_def, List.head?_append]
    exact Option.or_eq_some_iff.mpr (.inl hc)
  · intro c hc
    rw [trimBoth, List.getLast?_reverse] at hc
    exact head?_dropWhile p _ c hc

theorem trimBoth_eq_nil_iff : trimBoth p cs = [] ↔ ∀ c ∈ cs, p c = true := by
  have hdrop : cs.dropWhile p = [] ↔ ∀ c ∈ cs.dropWhile p, p c = true := by
    constructor
    · intro h
      simp [h]
    · intro h
      have hhead := head?_dropWhile p cs
      cases hcs : cs.dropWhile p with
      | nil => rfl
      | cons c ds =>
        rw [hcs] at h hhead
        cases (h c List.mem_cons_self).symm.trans (hhead c rfl)
  rw [← List.dropWhile_eq_nil_iff, hdrop]
  exact List.rdropWhile_eq_nil_iff

theorem infix_of_infix_trimBoth (h : ds <:+: trimBoth p cs) : ds <:+: cs := by
  have hend := List.rdropWhile_prefix p (cs.dropWhile p)
  exact h.trans (hend.isInfix.trans (List.dropWhile_suffix p).isInfix)

theorem IsTrimmed.append (hcs : IsTrimmed p cs) (mid : List Char) (hds : IsTrimmed p ds)
    (hcsne : cs ≠ []) (hdsne : ds ≠ []) : IsTrimmed p (cs ++ (mid ++ ds)) := by
  obtain ⟨c, cs, rfl⟩ := List.exists_cons_of_ne_nil hcsne
  refine ⟨fun d hd => hcs.head d hd, fun d hd => hds.last d ?_⟩
  rw [← List.append_assoc, List.getLast?_append, List.getLast?_eq_some_getLast hdsne,
    Option.some_or, ← List.getLast?_eq_some_getLast hdsne] at hd
  exact hd

/-- Lines that need no trimming make up a text that needs none. -/
theorem isTrimmed_intercalate {lines : List (List Char)}
    (h : ∀ line ∈ lines, line ≠ [] ∧ IsTrimmed p line) (hne : lines ≠ []) :
    ['\n'].intercalate lines ≠ [] ∧ IsTrimmed p (['\n'].intercalate lines) := by
  induction lines with
  | nil => exact absurd rfl hne
  | cons line lines ih =>
    rw [List.forall_mem_cons] at h
    cases lines with
    | nil => simpa using h.1
    | cons next lines =>
      obtain ⟨hrestne, hrest⟩ := ih h.2 (List.cons_ne_nil _ _)
      rw [List.intercalate_cons_cons]
      exact ⟨by simp, by simpa using h.1.2.append ['\n'] hrest h.1.1 hrestne⟩

/-- What holds no line break and begins a line that goes on ends with it. -/
theorem prefix_of_prefix_break (cs : List Char) (hbreak : '\n' ∉ ds) {after : List Char}
    (h : ds <+: cs ++ '\n' :: after) : ds <+: cs := by
  have hline : cs ++ ['\n'] <+: cs ++ '\n' :: after := ⟨after, by simp⟩
  rcases List.prefix_or_prefix_of_prefix h hline with h | h
  · rcases List.prefix_concat_iff.mp h with rfl | h
    · exact absurd (by simp) hbreak
    · exact h
  · exact absurd (h.subset (by simp)) hbreak

theorem infix_of_infix_break (cs : List Char) (hbreak : '\n' ∉ ds) {after : List Char}
    (h : ds <:+: cs ++ '\n' :: after) : ds <:+: cs ∨ ds <:+: after := by
  induction cs with
  | nil =>
    rcases List.infix_cons_iff.mp h with h | h
    · exact .inl (prefix_of_prefix_break [] hbreak h).isInfix
    · exact .inr h
  | cons c cs ih =>
    rcases List.infix_cons_iff.mp h with h | h
    · exact .inl (prefix_of_prefix_break (c :: cs) hbreak h).isInfix
    · exact (ih h).imp_left List.infix_cons

/-- What holds no line break and stands in a text of several lines stands in one of them. -/
theorem exists_infix_of_infix_intercalate (hbreak : '\n' ∉ ds) (hds : ds ≠ [])
    {lines : List (List Char)} (h : ds <:+: ['\n'].intercalate lines) :
    ∃ line ∈ lines, ds <:+: line := by
  induction lines with
  | nil => exact absurd (List.infix_nil.mp h) hds
  | cons line lines ih =>
    cases lines with
    | nil => exact ⟨line, List.mem_cons_self, by simpa using h⟩
    | cons next lines =>
      rw [List.intercalate_cons_cons] at h
      rcases infix_of_infix_break line hbreak (by simpa using h) with h | h
      · exact ⟨line, List.mem_cons_self, h⟩
      · obtain ⟨found, hfound, h⟩ := ih h
        exact ⟨found, List.mem_cons_of_mem _ hfound, h⟩

end Text

/-! ### Marked sections -/

namespace Markup

/-- A marked section ends at the first characters that spell its end. -/
theorem marked?_append {cs : List Char} (h : ¬ sectionEnd <:+: cs) (rest : List Char) :
    marked? (cs ++ ']' :: ']' :: '>' :: rest) = some (cs, rest) := by
  induction cs with
  | nil => rfl
  | cons c cs ih =>
    have hne : ∀ tail, c :: (cs ++ ']' :: ']' :: '>' :: rest) ≠ ']' :: ']' :: '>' :: tail := by
      intro tail heq
      match cs, h, heq with
      | [], _, heq => cases heq
      | [_], _, heq => cases heq
      | _ :: _ :: cs, h, heq =>
        cases heq
        exact h ⟨[], cs, rfl⟩
    rw [List.cons_append, marked?]
    · rw [ih fun hcs => h (List.infix_cons hcs)]
      rfl
    · intro tail hc htail
      exact hne tail (by rw [hc, htail])

end Markup

namespace Svg

open Markup

/-- A line break before a tag is read as it is. -/
theorem run_break (p : Progress) (rest : List Char) :
    p.run ('\n' :: '<' :: rest) = (p.addData ['\n']).run ('<' :: rest) :=
  Progress.run_data p (show ∀ c ∈ ['\n'], c ≠ '<' ∧ c ≠ '&' by simp) (by decide) rest

/-- The line breaks on either side of embedded text, once it is read. -/
def padding (body : String) : List Char :=
  if body.toList.any fun c => c = '<' || c = '&' then ['\n', '\n'] else ['\n']

theorem not_sectionEnd_infix_breaks {cs : List Char} (h : ¬ sectionEnd <:+: cs) :
    ¬ sectionEnd <:+: '\n' :: (cs ++ ['\n']) := by
  intro hbreaks
  rcases Text.infix_of_infix_break [] (by decide) hbreaks with h' | h'
  · exact absurd (List.infix_nil.mp h') (by decide)
  · rcases Text.infix_of_infix_break cs (by decide) h' with h' | h'
    · exact h h'
    · exact absurd (List.infix_nil.mp h') (by decide)

/-- A marked section is read as the characters in it. -/
theorem run_section (p : Progress) (cs : List Char) (h : ¬ sectionEnd <:+: cs)
    (rest : List Char) :
    p.run ("<![CDATA[".toList ++ (cs ++ ("]]>".toList ++ rest))) = (p.addData cs).run rest := by
  have htoken : token? ("<![CDATA[".toList ++ (cs ++ ("]]>".toList ++ rest))) =
      some (.data cs, rest) := by
    have hmarked := marked?_append h rest
    change (marked? (cs ++ ']' :: ']' :: '>' :: rest)).map _ = _
    rw [hmarked]
    rfl
  exact Progress.run_of_token? htoken rfl

/-- Embedded text is read as it is, whether it is marked or not. -/
theorem isContent_characterData {body : String} (hend : ¬ sectionEnd <:+: body.toList) :
    IsContent ('\n' :: ((characterData body).toList ++ ['\n']))
      [.text (String.ofList (padding body ++ (body.toList ++ padding body)))] := by
  have hbreaks := not_sectionEnd_infix_breaks hend
  unfold padding characterData
  split_ifs with hmarkup
  · intro frames tail
    have hinner : '\n' :: (("<![CDATA[\n" ++ body ++ "\n]]>").toList ++ ['\n']) ++ '<' :: tail =
        '\n' :: ("<![CDATA[".toList ++ ('\n' :: (body.toList ++ ['\n']) ++
          ("]]>".toList ++ '\n' :: '<' :: tail))) := by
      simp
    rw [hinner]
    refine (run_break _ _).trans ?_
    refine (run_section _ _ hbreaks _).trans ?_
    rw [run_break, Progress.addData_addData, Progress.addData_addData]
    simp [Progress.addData, Progress.add]
  · have hplain : ∀ c ∈ '\n' :: (body.toList ++ ['\n']), c ≠ '<' ∧ c ≠ '&' := by
      simp only [List.any_eq_true, not_exists, not_and, Bool.or_eq_true, decide_eq_true_eq,
        not_or] at hmarkup
      rintro c (_ | ⟨_, hc⟩)
      · decide
      · rcases List.mem_append.mp hc with hc | hc
        · exact hmarkup c hc
        · rw [List.mem_singleton.mp hc]
          decide
    exact isContent_data hplain hbreaks (List.cons_ne_nil _ _)

theorem isTag_style : IsTag "style" [] := ⟨by decide, by simp, .nil⟩

/-- The element that embeds a text is read as one that holds the text. -/
theorem readAs_style {body : String} (hend : ¬ sectionEnd <:+: body.toList) :
    (Element.lines "style" [] [.verbatim (characterData body)]).ReadAs (.element "style" []
      [.text (String.ofList (padding body ++ (body.toList ++ padding body)))]) := by
  refine Element.readAs_of_content isTag_style ?_ (isContent_characterData hend)
  rw [Element.toList_lines, List.flatMap_singleton, Element.write, List.cons_append]

/-! ### Sheets -/

/-- The sheets that are embedded. -/
def embedded (sheets : List String) : List String :=
  (sheets.map Text.trim).filter fun sheet => !sheet.isEmpty

theorem eq_trim_of_mem_embedded {sheets : List String} {s : String} (h : s ∈ embedded sheets) :
    s ≠ "" ∧ ∃ sheet ∈ sheets, s.toList = Text.trimBoth isBlank sheet.toList := by
  obtain ⟨hmem, hne⟩ := List.mem_filter.mp h
  obtain ⟨sheet, hsheet, rfl⟩ := List.mem_map.mp hmem
  exact ⟨by simpa using hne, sheet, hsheet, by simp [Text.trim]⟩

theorem embedded_eq_nil_iff {sheets : List String} :
    embedded sheets = [] ↔ ∀ sheet ∈ sheets, ∀ c ∈ sheet.toList, isBlank c = true := by
  simp only [embedded, List.filter_eq_nil_iff, List.forall_mem_map, Text.trim,
    ← Text.trimBoth_eq_nil_iff]
  simp

theorem toList_joinSheets (sheets : List String) :
    (joinSheets sheets).toList = ['\n'].intercalate ((embedded sheets).map String.toList) := by
  simp [joinSheets, embedded, String.toList_intercalate]

theorem isTrimmed_joinSheets {sheets : List String} (h : embedded sheets ≠ []) :
    (joinSheets sheets).toList ≠ [] ∧ Text.IsTrimmed isBlank (joinSheets sheets).toList := by
  rw [toList_joinSheets]
  refine Text.isTrimmed_intercalate ?_ (by simpa using h)
  rintro line hline
  obtain ⟨s, hs, rfl⟩ := List.mem_map.mp hline
  obtain ⟨hne, sheet, -, heq⟩ := eq_trim_of_mem_embedded hs
  exact ⟨by simpa using hne, heq ▸ Text.isTrimmed_trimBoth isBlank sheet.toList⟩

theorem not_sectionEnd_infix_joinSheets {sheets : List String}
    (h : ∀ sheet ∈ sheets, ¬ sectionEnd <:+: sheet.toList) :
    ¬ sectionEnd <:+: (joinSheets sheets).toList := by
  intro hend
  rw [toList_joinSheets] at hend
  obtain ⟨line, hline, hend⟩ :=
    Text.exists_infix_of_infix_intercalate (by decide) (by decide) hend
  obtain ⟨s, hs, rfl⟩ := List.mem_map.mp hline
  obtain ⟨-, sheet, hsheet, heq⟩ := eq_trim_of_mem_embedded hs
  rw [heq] at hend
  exact h sheet hsheet (Text.infix_of_infix_trimBoth hend)

theorem styleElement?_eq_none {sheets : List String} (h : embedded sheets = []) :
    styleElement? sheets = none := by
  have hbody : joinSheets sheets = "" := by
    rw [← String.toList_inj, toList_joinSheets, h]
    rfl
  rw [styleElement?, hbody]
  rfl

theorem styleElement?_eq_some {sheets : List String} (h : embedded sheets ≠ []) :
    styleElement? sheets =
      some (.lines "style" [] [.verbatim (characterData (joinSheets sheets))]) := by
  have hne : (joinSheets sheets).isEmpty = false := by
    simpa using (isTrimmed_joinSheets h).1
  rw [styleElement?, hne]
  rfl

/-- There is no text to embed sheets exactly when all of them are blank, and unless one of them
spells the end of a marked section, the text is read as the sheets: one element of text alone,
which holds the sheets that are not blank without their outer blanks, in order, on lines. The
reader takes characters as they are: neither those that a document of XML may not hold nor
carriage returns, which it would turn into line feeds, are told apart from others. -/
theorem styleBlock_read {sheets : List String} :
    (styleBlock sheets = "" ↔ ∀ sheet ∈ sheets, ∀ c ∈ sheet.toList, isBlank c = true) ∧
    (styleBlock sheets ≠ "" → (∀ sheet ∈ sheets, ¬ sectionEnd <:+: sheet.toList) →
      ∃ content, Markup.read (styleBlock sheets) = some (.element "style" [] [.text content]) ∧
        Text.trim content =
          "\n".intercalate ((sheets.map Text.trim).filter fun sheet => !sheet.isEmpty)) := by
  rw [← embedded_eq_nil_iff]
  by_cases h : embedded sheets = []
  · have hblock : styleBlock sheets = "" := by
      rw [styleBlock, styleElement?_eq_none h]
      rfl
    exact ⟨iff_of_true hblock h, fun hne => absurd hblock hne⟩
  · have hblock : styleBlock sheets =
        (Element.lines "style" [] [.verbatim (characterData (joinSheets sheets))]).write := by
      rw [styleBlock, styleElement?_eq_some h]
      rfl
    refine ⟨iff_of_false ?_ h, fun _ hsheets => ?_⟩
    · rw [hblock, ← String.toList_inj, Element.toList_lines]
      simp [Element.opening]
    · have hread := readAs_style (not_sectionEnd_infix_joinSheets hsheets)
      refine ⟨_, by rw [hblock, Element.read_write hread], ?_⟩
      obtain ⟨hne, htrimmed⟩ := isTrimmed_joinSheets h
      have hpadding : ∀ c ∈ padding (joinSheets sheets), isBlank c = true := by
        have hbreak : isBlank '\n' = true := by decide
        unfold padding
        split_ifs <;> simp [hbreak]
      rw [Text.trim, String.toList_ofList, Text.trimBoth_append hpadding hpadding htrimmed hne,
        String.ofList_toList]
      rfl

/-- Sheets that would be markup outside of a marked section. -/
theorem styleBlock_read_of_markup :
    let sheets := [" </a> ", "\n", "& ]] >"]
    styleBlock sheets ≠ "" ∧ (∀ sheet ∈ sheets, ¬ sectionEnd <:+: sheet.toList) ∧
      ∃ content, Markup.read (styleBlock sheets) = some (.element "style" [] [.text content]) ∧
        Text.trim content = "</a>\n& ]] >" := by
  intro sheets
  have hblank : ¬ ∀ sheet ∈ sheets, ∀ c ∈ sheet.toList, isBlank c = true := by
    intro h
    exact absurd (h "& ]] >" (by simp [sheets]) '&' (by simp)) (by decide)
  have hne : styleBlock sheets ≠ "" := mt styleBlock_read.1.mp hblank
  have hend : ∀ sheet ∈ sheets, ¬ sectionEnd <:+: sheet.toList := by
    simp [sheets, sectionEnd, List.infix_cons_iff]
  obtain ⟨content, hread, htrim⟩ := styleBlock_read.2 hne hend
  exact ⟨hne, hend, content, hread, htrim.trans (by decide +kernel)⟩

/-- A sheet that spells the end of a marked section goes on as markup. -/
theorem styleBlock_read_as_markup :
    Markup.read (styleBlock ["a]]><b /><![CDATA[c"]) = some (.element "style" []
      [.text "\n\na", .element "b" [] [], .text "c\n\n"]) := by
  let inner := "\n<![CDATA[\na]]>".toList ++
    ((Element.empty "b" []).write.toList ++ "<![CDATA[c\n]]>\n".toList)
  have hinner : IsContent inner [.text "\n\na", .element "b" [] [], .text "c\n\n"] := by
    intro frames tail
    have htag : IsTag "b" [] := ⟨by decide, by simp, .nil⟩
    rw [List.append_assoc, List.append_assoc]
    refine (run_break _ _).trans ?_
    refine (run_section _ ['\n', 'a'] (by decide) _).trans ?_
    rw [(Element.readAs_empty htag).run]
    refine (run_section _ ['c', '\n'] (by decide) _).trans ?_
    exact run_break _ _
  have hwrite : (Element.lines "style" []
      [.verbatim (characterData (joinSheets ["a]]><b /><![CDATA[c"]))]).write.toList =
        (Element.opening "style" []).toList ++ (inner ++ (Element.closing "style").toList) := by
    decide +kernel
  have hread := Element.read_write (Element.readAs_of_content isTag_style hwrite hinner)
  rw [styleBlock, styleElement?_eq_some (by decide +kernel)]
  exact hread

/-! ### The built-in sheet -/

theorem mem_intercalate {sep : String} {texts : List String} {c : Char}
    (h : c ∈ (sep.intercalate texts).toList) : c ∈ sep.toList ∨ ∃ s ∈ texts, c ∈ s.toList := by
  rw [String.toList_intercalate] at h
  induction texts with
  | nil => cases h
  | cons s texts ih =>
    cases texts with
    | nil => exact .inr ⟨s, List.mem_cons_self, by simpa using h⟩
    | cons t texts =>
      rw [List.map_cons, List.map_cons, List.intercalate_cons_cons, List.append_assoc,
        List.mem_append, List.mem_append] at h
      rcases h with h | h | h
      · exact .inr ⟨s, List.mem_cons_self, h⟩
      · exact .inl h
      · refine (ih h).imp_right ?_
        rintro ⟨u, hu, h⟩
        exact ⟨u, List.mem_cons_of_mem _ hu, h⟩

/-- Line breaks and the visible characters of ASCII that are no markup. -/
def isPlain (s : String) : Bool :=
  s.toList.all fun c => (c = '\n' ∨ ' ' ≤ c ∧ c ≤ '~') ∧ c ≠ '<' ∧ c ≠ '&' ∧ c ≠ '>'

theorem isPlain_append {s t : String} (hs : isPlain s) (ht : isPlain t) : isPlain (s ++ t) := by
  unfold isPlain at *
  rw [String.toList_append, List.all_append, hs, ht]
  rfl

theorem isPlain_intercalate {sep : String} {texts : List String} (hsep : isPlain sep)
    (h : ∀ s ∈ texts, isPlain s) : isPlain (sep.intercalate texts) := by
  refine List.all_eq_true.mpr fun c hc => ?_
  rcases mem_intercalate hc with hc | ⟨s, hs, hc⟩
  · exact List.all_eq_true.mp hsep c hc
  · exact List.all_eq_true.mp (h s hs) c hc

theorem isPlain_rule {r : Rule} (hselector : isPlain r.selector)
    (hdeclarations : ∀ d ∈ r.declarations, isPlain d.1 ∧ isPlain d.2) : isPlain r.write := by
  refine isPlain_intercalate (by decide) fun s hs => ?_
  simp only [List.cons_append, List.mem_cons, List.mem_append, List.not_mem_nil, or_false] at hs
  rcases hs with rfl | hs | rfl
  · exact isPlain_append hselector (by decide)
  · obtain ⟨d, hd, rfl⟩ := List.mem_map.mp hs
    obtain ⟨hproperty, hvalue⟩ := hdeclarations d hd
    exact isPlain_append (isPlain_append (isPlain_append (isPlain_append (by decide) hproperty)
      (by decide)) hvalue) (by decide)
  · decide

theorem isPlain_builtInSheet : isPlain (builtInSheet .standard) := by
  have hrules : ∀ r ∈ builtInRules .standard, isPlain r.selector ∧
      ∀ d ∈ r.declarations, isPlain d.1 ∧ isPlain d.2 := by
    decide +kernel
  refine isPlain_intercalate (by decide) fun s hs => ?_
  obtain ⟨r, hr, rfl⟩ := List.mem_map.mp hs
  exact isPlain_rule (hrules r hr).1 (hrules r hr).2

/-- A rule begins with its selector and ends with a brace. -/
theorem isTrimmed_rule {r : Rule}
    (h : (r.selector ++ " \x7b").toList.head?.all fun c => !isBlank c) :
    r.write.toList ≠ [] ∧ Text.IsTrimmed isBlank r.write.toList := by
  have hwrite : ∃ mid, r.write.toList =
      (r.selector ++ " \x7b").toList ++ (mid ++ "\x7d".toList) := by
    rw [Rule.write, String.toList_intercalate, List.cons_append, List.map_cons, List.map_append]
    exact ⟨_, Element.intercalate_lines _ _ _⟩
  obtain ⟨mid, hwrite⟩ := hwrite
  have hne : (r.selector ++ " \x7b").toList ≠ [] := by simp
  rw [hwrite]
  have hstart : Text.IsTrimmed isBlank (r.selector ++ " \x7b").toList :=
    ⟨by simpa [Option.all_eq_true] using h, by simp +decide⟩
  have hbrace : isBlank '\x7d' = false := by decide
  have hend : Text.IsTrimmed isBlank "\x7d".toList := ⟨by simp [hbrace], by simp [hbrace]⟩
  exact ⟨by simp, hstart.append mid hend hne (by decide)⟩

theorem isTrimmed_builtInSheet : (builtInSheet .standard).toList ≠ [] ∧
    Text.IsTrimmed isBlank (builtInSheet .standard).toList := by
  have hrules : ∀ r ∈ builtInRules .standard,
      (r.selector ++ " \x7b").toList.head?.all fun c => !isBlank c := by
    decide +kernel
  rw [builtInSheet, String.toList_intercalate]
  refine Text.isTrimmed_intercalate ?_ (by simp [builtInRules])
  intro line hline
  obtain ⟨s, hs, rfl⟩ := List.mem_map.mp hline
  obtain ⟨r, hr, rfl⟩ := List.mem_map.mp hs
  exact isTrimmed_rule (hrules r hr)

theorem joinSheets_singleton {sheet : String} (hne : sheet.toList ≠ [])
    (h : Text.IsTrimmed isBlank sheet.toList) : joinSheets [sheet] = sheet := by
  have htrim : Text.trim sheet = sheet := by
    have hnone : ∀ c ∈ [], isBlank c = true := by simp
    have hboth := Text.trimBoth_append hnone hnone h hne
    rw [List.nil_append, List.append_nil] at hboth
    rw [Text.trim, hboth, String.ofList_toList]
  have hempty : sheet.isEmpty = false := by simpa using hne
  simp [joinSheets, htrim, hempty]

theorem padding_of_isPlain {body : String} (h : isPlain body) : padding body = ['\n'] := by
  refine if_neg fun hany => ?_
  obtain ⟨c, hc, hmarkup⟩ := List.any_eq_true.mp hany
  have hplain := List.all_eq_true.mp h c hc
  simp only [decide_eq_true_eq, Bool.or_eq_true] at hplain hmarkup
  rcases hmarkup with rfl | rfl
  · exact hplain.2.1 rfl
  · exact hplain.2.2.1 rfl

/-- The built-in sheet is embedded as it is. -/
theorem readAs_builtInSheet : ∃ e, styleElement? [builtInSheet .standard] = some e ∧
    e.ReadAs (.element "style" [] [.text ("\n" ++ builtInSheet .standard ++ "\n")]) := by
  obtain ⟨hne, htrimmed⟩ := isTrimmed_builtInSheet
  have hend : ¬ sectionEnd <:+: (builtInSheet .standard).toList := by
    refine not_sectionEnd_infix fun hmem => ?_
    simpa using List.all_eq_true.mp isPlain_builtInSheet '>' hmem
  have hread := readAs_style hend
  rw [padding_of_isPlain isPlain_builtInSheet, String.ofList_append, String.ofList_append,
    String.ofList_toList, ← String.append_assoc] at hread
  refine ⟨_, ?_, hread⟩
  rw [styleElement?, joinSheets_singleton hne htrimmed]
  exact if_neg (by simpa using hne)

end Svg
end FlowGrid
