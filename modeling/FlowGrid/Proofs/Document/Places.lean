import FlowGrid.Proofs.Document.Stopping

/-! Where a text is malformed. The place that is reported lies in the text, its line and column
tell it from all others, and some document begins with the text before it. A reader stops behind
tokens that go on to a document; the text before its place spells these tokens, and a line break
keeps what is put behind it apart from them. -/

namespace FlowGrid

/-! ### Places -/

/-- The place is in the text: its line is counted by the line breaks before it and its column
from the last of these. -/
structure Position.IsIn (p : Position) (text : List Char) : Prop where
  offset : p.offset ≤ text.length
  line : p.line = 1 + (text.take p.offset).count '\n'
  column : p.column = 1 + ((text.take p.offset).reverse.takeWhile (· != '\n')).length

namespace Position

theorem advanceAll_append (p : Position) (cs ds : List Char) :
    p.advanceAll (cs ++ ds) = (p.advanceAll cs).advanceAll ds := List.foldl_append

theorem start_advanceAll_offset (text : List Char) :
    (start.advanceAll text).offset = text.length := by
  rw [advanceAll_offset]
  exact Nat.zero_add _

theorem start_advanceAll (text : List Char) :
    (start.advanceAll text).line = 1 + text.count '\n' ∧
      (start.advanceAll text).column = 1 + (text.reverse.takeWhile (· != '\n')).length := by
  induction text using List.reverseRecOn with
  | nil => exact ⟨rfl, rfl⟩
  | append_singleton text c ih =>
    rw [advanceAll_append]
    change (advance _ c).line = _ ∧ (advance _ c).column = _
    by_cases hc : c = '\n'
    · simp [advance, hc, ih.1, Nat.add_assoc]
    · simp [advance, hc, ih.1, ih.2, Nat.add_comm]

theorem isIn_advanceAll (text more : List Char) :
    (start.advanceAll text).IsIn (text ++ more) := by
  have htake : (text ++ more).take (start.advanceAll text).offset = text := by
    rw [start_advanceAll_offset, List.take_left]
  constructor
  · simp [start_advanceAll_offset]
  · rw [htake]
    exact (start_advanceAll text).1
  · rw [htake]
    exact (start_advanceAll text).2

variable {p q : Position} {text : List Char}

theorem IsIn.offset_le (hp : p.IsIn text) (hq : q.IsIn text) (hline : q.line = p.line)
    (hcolumn : q.column = p.column) : q.offset ≤ p.offset := by
  by_contra! hlt
  obtain ⟨between, hbetween⟩ : ∃ between, text.take q.offset = text.take p.offset ++ between :=
    ⟨(text.drop p.offset).take (q.offset - p.offset), by rw [← List.take_add]; congr; omega⟩
  have hlength := congrArg List.length hbetween
  have hcount : between.count '\n' = 0 := by
    have := hq.line
    rw [hbetween, List.count_append, hline, hp.line] at this
    omega
  have hnone : ∀ c ∈ between.reverse, (c != '\n') = true := by
    intro c hc
    rw [bne_iff_ne]
    rintro rfl
    exact List.count_eq_zero.mp hcount (List.mem_reverse.mp hc)
  have hmore := hq.column
  rw [hbetween, List.reverse_append, List.takeWhile_append_of_pos hnone, List.length_append,
    hcolumn, hp.column, List.length_reverse] at hmore
  have := hp.offset
  have := hq.offset
  simp only [List.length_append, List.length_take] at hlength
  omega

/-- Line and column tell the places of a text apart. -/
theorem IsIn.eq (hp : p.IsIn text) (hq : q.IsIn text) (hline : q.line = p.line)
    (hcolumn : q.column = p.column) : q = p := by
  have hoffset := (hp.offset_le hq hline hcolumn).antisymm
    (hq.offset_le hp hline.symm hcolumn.symm)
  obtain ⟨o, l, c⟩ := p
  obtain ⟨o', l', c'⟩ := q
  simp only at hoffset hline hcolumn
  rw [hoffset, hline, hcolumn]

end Position

/-! ### Texts that are cut off -/

/-- `tail` may stand in the place of `more`: it begins alike, or with a line break. -/
def StandsFor (tail more : List Char) : Prop :=
  ∀ c, tail.head? = some c → c = '\n' ∨ more.head? = some c

theorem StandsFor.append {tail more : List Char} (h : StandsFor tail more) (text : List Char) :
    StandsFor (text ++ tail) (text ++ more) := by
  cases text with
  | nil => exact h
  | cons c text => exact fun d hd => .inr hd

/-- Where no token is left, these are the characters that are: none, or those of a string that
cannot be read. -/
inductive Tokens.Leaves : Tokens → List Char → Prop
  | finish {p : Position} : Leaves (.finish p) []
  | broken {p : Position} {fault : Diagnostic} {cs : List Char}
    (h : scanString p (p.advance '"') cs = .error fault) : Leaves (.broken p fault) ('"' :: cs)
  | cons {t : Token} {p : Position} {rest : Tokens} {cs : List Char} : Leaves (.cons t p rest) cs

/-- From `p` on, `text` spells the tokens in `before`, and in front of `more` are those of `rest`.
It still spells them with something else behind it. -/
structure Leads (p : Position) (text : List Char) (before : List (Located Token)) (rest : Tokens)
    (more : List Char) : Prop where
  position : rest.position = p.advanceAll text
  leaves : rest.Leaves more
  scans {tail : List Char} {ts : List (Located Token)} (htail : StandsFor tail more)
    (h : Scans (p.advanceAll text) tail ts) : Scans p (text ++ tail) (before ++ ts)

namespace Leads

variable {p : Position} {text more : List Char} {before : List (Located Token)} {rest : Tokens}

theorem here (leaves : rest.Leaves more) : Leads rest.position [] [] rest more :=
  ⟨rfl, leaves, fun _ h => h⟩

theorem blank {c : Char} (hc : isBlank c) (h : Leads (p.advance c) text before rest more) :
    Leads p (c :: text) before rest more :=
  ⟨h.position, h.leaves, fun htail hts => .blank hc (h.scans htail hts)⟩

theorem comment {line : List Char} (inside : ∀ c ∈ line, c ≠ '\n')
    (stops : ∀ c, (text ++ more).head? = some c → c = '\n')
    (h : Leads (p.advanceAll ('/' :: '/' :: line)) text before rest more) :
    Leads p ('/' :: '/' :: (line ++ text)) before rest more where
  position := by
    rw [h.position, ← Position.advanceAll_append]
    rfl
  leaves := h.leaves
  scans {tail ts} htail hts := by
    rw [List.cons_append, List.cons_append, List.append_assoc]
    refine .comment inside (fun c hc => ?_) (h.scans htail ?_)
    · exact (htail.append text c hc).elim id (stops c)
    · rw [← Position.advanceAll_append]
      exact hts

theorem word {c : Char} {name : List Char} (first : isWordStart c)
    (inside : ∀ d ∈ name, isWordPart d)
    (stops : ∀ d, (text ++ more).head? = some d → ¬ isWordPart d)
    (h : Leads (p.advanceAll (c :: name)) text before rest more) :
    Leads p (c :: (name ++ text)) (⟨.word (String.ofList (c :: name)), p⟩ :: before) rest more where
  position := by
    rw [h.position, ← Position.advanceAll_append]
    rfl
  leaves := h.leaves
  scans {tail ts} htail hts := by
    rw [List.cons_append, List.append_assoc]
    refine .word first inside (fun d hd => ?_) (h.scans htail ?_)
    · rcases htail.append text d hd with rfl | hd
      · decide
      · exact stops d hd
    · rw [← Position.advanceAll_append]
      exact hts

theorem quote {content written : List Char} (hw : Writes content written)
    (h : Leads (p.advanceAll ('"' :: (written ++ ['"']))) text before rest more) :
    Leads p ('"' :: (written ++ '"' :: text)) (⟨.quote (String.ofList content), p⟩ :: before)
      rest more where
  position := by
    rw [h.position, ← Position.advanceAll_append]
    simp
  leaves := h.leaves
  scans {tail ts} htail hts := by
    rw [List.cons_append, List.append_assoc]
    refine .quote hw (h.scans htail ?_)
    rw [← Position.advanceAll_append]
    simpa using hts

theorem mark {c : Char} (visible : ¬ isBlank c)
    (comment : ¬ (c = '/' ∧ (text ++ more).head? = some '/')) (word : ¬ isWordStart c)
    (quote : c ≠ '"') (h : Leads (p.advance c) text before rest more) :
    Leads p (c :: text) (⟨.mark c, p⟩ :: before) rest more where
  position := h.position
  leaves := h.leaves
  scans {tail ts} htail hts := by
    refine .mark visible ?_ word quote (h.scans htail hts)
    rintro ⟨rfl, hslash⟩
    rcases htail.append text _ hslash with hslash | hslash
    · cases hslash
    · exact comment ⟨rfl, hslash⟩

end Leads

namespace Tokens

/-- What stands behind some tokens of a text stands behind the characters that spell these. -/
theorem exists_leads {p : Position} {cs : List Char} {before : List (Located Token)}
    {rest : Tokens} (h : ofChars p cs = rest.behind before) :
    ∃ text more, cs = text ++ more ∧ Leads p text before rest more := by
  fun_induction ofChars p cs generalizing before with
  | case1 p =>
    cases before with
    | cons => cases h
    | nil =>
      obtain rfl : Tokens.finish p = rest := h
      exact ⟨[], [], rfl, .here .finish⟩
  | case2 p c cs hblank ih =>
    obtain ⟨text, more, rfl, hleads⟩ := ih h
    exact ⟨c :: text, more, rfl, hleads.blank hblank⟩
  | case3 p c cs hblank hcomment ih =>
    obtain ⟨rfl, hslash⟩ := hcomment
    obtain ⟨line, rfl⟩ := List.head?_eq_some_iff.mp hslash
    have hrest : ('/' :: line).dropWhile (· != '\n') = line.dropWhile (· != '\n') := rfl
    rw [hrest] at ih h
    obtain ⟨text, more, htext, hleads⟩ := ih h
    refine ⟨'/' :: '/' :: (line.takeWhile (· != '\n') ++ text), more, ?_, .comment ?_ ?_ hleads⟩
    · rw [List.cons_append, List.cons_append, List.append_assoc, ← htext,
        List.takeWhile_append_dropWhile]
    · exact fun c hc => by simpa using List.mem_takeWhile_imp hc
    · rw [← htext]
      exact fun c hc => by simpa using stops_dropWhile _ _ _ hc
  -- a token is the first of `rest` or of those before it
  | case4 p c cs hblank hcomment hword name =>
    rename_i ih
    cases before with
    | nil =>
      obtain rfl : Tokens.cons _ p _ = rest := h
      exact ⟨[], _, rfl, .here .cons⟩
    | cons t before =>
      obtain ⟨t, q⟩ := t
      obtain ⟨rfl, rfl, hrest⟩ := Tokens.cons.inj h
      obtain ⟨text, more, htext, hleads⟩ := ih hrest
      refine ⟨c :: (name ++ text), more, ?_, hleads.word hword ?_ ?_⟩
      · rw [List.cons_append, List.append_assoc, ← htext, List.takeWhile_append_dropWhile]
      · exact fun d hd => List.mem_takeWhile_imp hd
      · rw [← htext]
        exact stops_dropWhile _ _
  | case5 p cs fault hblank hcomment hword hs =>
    cases before with
    | cons => cases h
    | nil =>
      obtain rfl : Tokens.broken p fault = rest := h
      exact ⟨[], _, rfl, .here (.broken hs)⟩
  | case6 p cs s hblank hcomment hword hs ih =>
    cases before with
    | nil =>
      obtain rfl : Tokens.cons _ p _ = rest := h
      exact ⟨[], _, rfl, .here .cons⟩
    | cons t before =>
      obtain ⟨t, q⟩ := t
      obtain ⟨rfl, rfl, hrest⟩ := Tokens.cons.inj h
      obtain ⟨written, rfl, hwritten, hposition⟩ := writes_of_scanString hs
      obtain ⟨text, more, htext, hleads⟩ := ih hrest
      rw [hposition] at hleads
      exact ⟨'"' :: (written ++ '"' :: text), more, by simp [htext], .quote hwritten hleads⟩
  | case7 p c cs hblank hcomment hword hquote ih =>
    cases before with
    | nil =>
      obtain rfl : Tokens.cons _ p _ = rest := h
      exact ⟨[], _, rfl, .here .cons⟩
    | cons t before =>
      obtain ⟨t, q⟩ := t
      obtain ⟨rfl, rfl, hrest⟩ := Tokens.cons.inj h
      obtain ⟨text, more, rfl, hleads⟩ := ih hrest
      exact ⟨c :: text, more, rfl, hleads.mark hblank hcomment hword hquote⟩

end Tokens

theorem Tokens.exists_ending {input : Tokens} (h : input.fault? = none) :
    ∃ p, input.ending = .finish p := by
  induction input with
  | finish p => exact ⟨p, rfl⟩
  | broken => cases h
  | cons _ _ _ ih => exact ih h

/-- More tokens may be spelled on the next line. -/
theorem Scans.append {p : Position} {cs ds : List Char} {ts us : List (Located Token)}
    (h : Scans p cs ts) (hds : Scans (p.advanceAll (cs ++ ['\n'])) ds us) :
    Scans p (cs ++ '\n' :: ds) (ts ++ us) := by
  obtain ⟨hlist, hfault⟩ := Tokens.scans_iff.mp h
  obtain ⟨q, hending⟩ := Tokens.exists_ending hfault
  have heq := (Tokens.ofChars p cs).ending_behind_toList
  rw [hlist, hending] at heq
  obtain ⟨text, more, rfl, hleads⟩ := Tokens.exists_leads heq.symm
  obtain rfl : more = [] := by
    cases hleads.leaves
    rfl
  rw [List.append_nil] at hds ⊢
  refine hleads.scans (by simp [StandsFor]) (.blank (by decide) ?_)
  rwa [Position.advanceAll_append] at hds

/-! ### Strings that cannot be read -/

/-- A string is blamed as a whole or at a character before which it could end. -/
theorem position_of_scanString {opening p : Position} {cs : List Char} {fault : Diagnostic}
    (h : scanString opening p cs = .error fault) :
    fault.position = opening ∨ ∃ content text more, cs = text ++ more ∧ Writes content text ∧
      fault.position = p.advanceAll text := by
  fun_induction scanString opening p cs with
  | case1 =>
    cases h
    exact .inl rfl
  | case2 => cases h
  | case3 p =>
    cases h
    exact .inr ⟨[], [], _, rfl, .nil, rfl⟩
  | case4 p c rest hc =>
    cases h
    exact .inr ⟨[], [], _, rfl, .nil, rfl⟩
  | case5 p c rest d hd ih =>
    obtain h | ⟨content, text, more, rfl, hwritten, hposition⟩ := ih (Result.map_eq_error_iff.mp h)
    · exact .inl h
    · exact .inr ⟨_, '\\' :: c :: text, more, rfl, hwritten.escape hd, hposition⟩
  | case6 p c rest hquote hbackslash ih =>
    obtain h | ⟨content, text, more, rfl, hwritten, hposition⟩ := ih (Result.map_eq_error_iff.mp h)
    · exact .inl h
    · exact .inr ⟨_, c :: text, more, rfl, .plain hquote hbackslash hwritten, hposition⟩

namespace Document

/-- Some text that begins with these characters is read. -/
def IsViable (cs : List Char) : Prop := ∃ more d, read (String.ofList (cs ++ more)) = .ok d

theorem IsViable.of_append {cs ds : List Char} (h : IsViable (cs ++ ds)) : IsViable cs := by
  obtain ⟨more, d, h⟩ := h
  exact ⟨ds ++ more, d, by rwa [← List.append_assoc]⟩

/-- The tokens that a viable text spells. -/
def viability : Viability where
  Holds ts := ∀ cs, Scans .start cs ts → IsViable cs
  extend {ts t} spelled h := by
    intro cs hcs
    obtain ⟨ds, hds⟩ := spelled
    exact (h _ _ (hcs.append (hds _))).of_append

theorem isIn_viability : Blocks.IsIn ⟨none, none⟩ viability := by
  intro ts d h cs hcs
  refine ⟨[], d, read_eq_ok_iff.mpr ⟨ts, ?_, completes_iff_spelling.mp h⟩⟩
  rwa [List.append_nil, String.toList_ofList]

/-- Where reading stops, the text before is viable. -/
theorem exists_viable_of_read {text : String} {fault : Diagnostic} (h : read text = .error fault) :
    ∃ before after, text.toList = before ++ after ∧
      fault.position = Position.start.advanceAll before ∧ IsViable before := by
  obtain ⟨ts, rest, heq, hrest⟩ := stops_ofTokens isIn_viability _ _ h
  obtain ⟨before, after, htext, hleads⟩ := Tokens.exists_leads heq
  rcases hrest with ⟨hposition, hholds⟩ | ⟨p, rfl, hholds⟩
  · refine ⟨before, after, htext, hposition.trans hleads.position, hholds before ?_⟩
    have hscans := hleads.scans (by simp [StandsFor]) (.finish _)
    simpa using hscans
  · obtain ⟨cs, rfl, hs⟩ : ∃ cs, after = '"' :: cs ∧
        scanString p (p.advance '"') cs = .error fault := by
      cases hleads.leaves with
      | broken hs => exact ⟨_, rfl, hs⟩
    have hp : p = Position.start.advanceAll before := hleads.position
    -- any string may stand in the place of the broken one
    have hstring {content written : List Char} (hw : Writes content written) :
        IsViable (before ++ '"' :: (written ++ ['"'])) := by
      refine hholds (String.ofList content) _ (hleads.scans (by simp [StandsFor]) ?_)
      rw [hp]
      exact .quote hw (.finish _)
    rcases position_of_scanString hs with hposition | ⟨content, written, more, rfl, hw, hposition⟩
    · exact ⟨before, _, htext, hposition.trans hp, (hstring .nil).of_append⟩
    · refine ⟨before ++ '"' :: written, more, by rw [htext]; simp, ?_, ?_⟩
      · rw [hposition, hp, Position.advanceAll_append]
        rfl
      · have hviable := hstring hw
        rw [← List.cons_append, ← List.append_assoc] at hviable
        exact hviable.of_append

/-- A text that is not read is malformed at a place in it, which its line and its column tell from
all others, and some document begins with the text before that place. -/
theorem isViable_before_fault {text : String} {fault : Diagnostic} (h : read text = .error fault) :
    fault.IsMalformed ∧ fault.position.IsIn text.toList ∧
      (∀ q : Position, q.IsIn text.toList → q.line = fault.position.line →
        q.column = fault.position.column → q = fault.position) ∧
      IsViable (text.toList.take fault.position.offset) := by
  obtain ⟨before, after, htext, hposition, hviable⟩ := exists_viable_of_read h
  have hin : fault.position.IsIn text.toList := by
    rw [htext, hposition]
    exact Position.isIn_advanceAll before after
  refine ⟨isMalformed_of_read h, hin, fun q hq => hin.eq hq, ?_⟩
  rwa [htext, hposition, Position.start_advanceAll_offset, List.take_left]

/-- In a link of a definition, before there is any grid, a string has an escape that is none. -/
def unknownEscape : String := "define \x7b\n  a(connect: n:s@(\"x\\q"

theorem isViable_before_fault_unknownEscape :
    ∃ fault, read unknownEscape = .error fault ∧ fault.position = ⟨29, 2, 21⟩ ∧
      fault.position.IsIn unknownEscape.toList ∧ IsViable (unknownEscape.toList.take 29) := by
  have h : read unknownEscape =
      .error ⟨.expected "escape sequence (\\\", \\\\ or \\n)" "\\", ⟨29, 2, 21⟩⟩ := by
    decide +kernel
  obtain ⟨-, hin, -, hviable⟩ := isViable_before_fault h
  exact ⟨_, h, rfl, hin, hviable⟩

end Document
end FlowGrid
