import FlowGrid.Command.Run
import Mathlib.Tactic.SplitIfs

/-! The lines that runs of the command line write to standard error. A record of the journal is a
single line, whatever the names in a chart are, and does not begin as a line about an error does. So
the lines that begin so come from the message that a run ends with, and there is one of them if the
message is a single line. -/

namespace FlowGrid

/-! ### Texts of one line -/

namespace Text

/-- The text holds no line break. -/
def IsLine (s : String) : Prop := '\n' ∉ s.toList

instance (s : String) : Decidable (IsLine s) := inferInstanceAs (Decidable ('\n' ∉ s.toList))

variable {s t : String}

theorem isLine_append (hs : IsLine s) (ht : IsLine t) : IsLine (s ++ t) := by
  rw [IsLine, String.toList_append, List.mem_append, not_or]
  exact ⟨hs, ht⟩

theorem isLine_between {before after : String} (hbefore : IsLine before) (hs : IsLine s)
    (hafter : IsLine after) : IsLine (before ++ s ++ after) :=
  isLine_append (isLine_append hbefore hs) hafter

theorem isLine_ofList {cs : List Char} (h : '\n' ∉ cs) : IsLine (String.ofList cs) := by
  rwa [IsLine, String.toList_ofList]

theorem isLine_toString_char {c : Char} (h : c ≠ '\n') : IsLine c.toString := by
  rw [IsLine, Char.toString_eq_singleton, String.toList_singleton, List.mem_singleton]
  exact h.symm

theorem isLine_join {texts : List String} (h : ∀ s ∈ texts, IsLine s) :
    IsLine (String.join texts) := by
  rw [IsLine, String.toList_join, List.mem_flatMap]
  rintro ⟨s, hs, hbreak⟩
  exact h s hs hbreak

theorem not_mem_intercalate {c : Char} (hs : c ∉ s.toList) {texts : List String}
    (h : ∀ t ∈ texts, c ∉ t.toList) : c ∉ (s.intercalate texts).toList := by
  induction texts with
  | nil => rw [String.intercalate_nil]; simp
  | cons t texts ih =>
    rw [List.forall_mem_cons] at h
    cases texts with
    | nil => rw [String.intercalate_singleton]; exact h.1
    | cons u texts =>
      rw [String.intercalate_cons_cons, String.toList_append, String.toList_append]
      simp only [List.mem_append, not_or]
      exact ⟨⟨h.1, hs⟩, ih h.2⟩

/-! ### Digits -/

theorem not_mem_toDigits {b : Nat} (hb : 1 < b) (hle : b ≤ 16) (n : Nat) :
    '\n' ∉ Nat.toDigits b n := by
  have hdigit : ∀ d < 16, '\n' ≠ Nat.digitChar d := by decide
  induction n using Nat.strongRecOn with
  | ind n ih =>
    rcases Nat.lt_or_ge n b with hn | hn
    · rw [Nat.toDigits_of_lt_base hn, List.mem_singleton]
      exact hdigit n (Nat.lt_of_lt_of_le hn hle)
    · have hmod := Nat.mod_lt n (Nat.zero_lt_of_lt hb)
      rw [Nat.toDigits_of_base_le hb hn, List.mem_append, List.mem_singleton, not_or]
      exact ⟨ih _ (Nat.div_lt_self (by omega) hb), hdigit _ (Nat.lt_of_lt_of_le hmod hle)⟩

theorem isLine_toString_nat (n : Nat) : IsLine (toString n) := by
  rw [Nat.toString_eq_ofList_toDigits]
  exact isLine_ofList (not_mem_toDigits (by decide) (by decide) n)

theorem isLine_toString_int (i : Int) : IsLine (toString i) := by
  cases i with
  | ofNat n => exact isLine_toString_nat n
  | negSucc n => exact isLine_append (by decide) (isLine_toString_nat (n + 1))

theorem not_mem_replicate (n : Nat) : '\n' ∉ List.replicate n '0' := fun h =>
  absurd (List.eq_of_mem_replicate h) (by decide)

theorem isLine_hex (width n : Nat) : IsLine (hex width n) := by
  refine isLine_ofList ?_
  rw [List.mem_append, not_or]
  exact ⟨not_mem_replicate _, not_mem_toDigits (by decide) (by decide) n⟩

theorem isLine_padded (width n : Nat) : IsLine (Decimal.padded width n) := by
  refine isLine_ofList ?_
  rw [List.mem_append, not_or]
  exact ⟨not_mem_replicate _, not_mem_toDigits (by decide) (by decide) n⟩

theorem not_mem_significant (digits : Nat) :
    '\n' ∉ Shortest.significant (Nat.toDigits 10 digits) := fun h =>
  not_mem_toDigits (by decide) (by decide) digits
    (List.mem_reverse.mp ((List.dropWhile_sublist _).subset (List.mem_reverse.mp h)))

theorem isLine_decimalText (digits : Nat) (e : Int) : IsLine (Shortest.decimalText digits e) := by
  have hdigits := not_mem_significant digits
  have htake (n : Nat) : '\n' ∉ (Shortest.significant (Nat.toDigits 10 digits)).take n :=
    fun h => hdigits (List.mem_of_mem_take h)
  have hdrop (n : Nat) : '\n' ∉ (Shortest.significant (Nat.toDigits 10 digits)).drop n :=
    fun h => hdigits (List.mem_of_mem_drop h)
  have htail := hdrop 1
  rw [List.drop_one] at htail
  unfold Shortest.decimalText
  dsimp only
  split
  · split
    · exact isLine_ofList (by simp [hdigits])
    · split
      · exact isLine_ofList (by simp [hdigits])
      · exact isLine_ofList (by simp [htake, hdrop])
  · refine isLine_append (isLine_append (isLine_ofList ?_) ?_) (isLine_padded _ _)
    · split <;> simp [htake, htail]
    · split <;> decide

theorem isLine_ofFloat (x : Float) : IsLine (Shortest.ofFloat x) := by
  unfold Shortest.ofFloat
  split
  · decide
  · split <;> decide
  · refine isLine_append ?_ ?_
    · split <;> decide
    · dsimp only
      split
      · decide
      · exact isLine_decimalText _ _

theorem isLine_text (l : Length) : IsLine l.text := by
  cases l with
  | whole n => exact isLine_toString_int n
  | fraction x => exact isLine_ofFloat x

/-! ### Quotes and control sequences -/

theorem isLine_numberedEscape (c : Char) : IsLine (numberedEscape c) := by
  unfold numberedEscape
  dsimp only
  split
  · exact isLine_append (by decide) (isLine_hex _ _)
  · split <;> exact isLine_append (by decide) (isLine_hex _ _)

theorem isLine_quotedChar {quote : Char} (hquote : quote ≠ '\n') (c : Char) :
    IsLine (quotedChar quote c) := by
  by_cases hbreak : c = '\n'
  · subst hbreak
    rw [quotedChar, if_neg (by simp [hquote.symm]), if_pos rfl]
    decide
  · have hc := isLine_toString_char hbreak
    unfold quotedChar
    split
    · exact isLine_append (by decide) hc
    split
    · decide
    split
    · decide
    split
    · exact hc
    · exact isLine_numberedEscape c

theorem isLine_quoted (s : String) : IsLine (quoted s) := by
  have hquote : enclosingQuote s ≠ '\n' := by
    unfold enclosingQuote
    split_ifs <;> decide
  have hmark := isLine_toString_char hquote
  refine isLine_between hmark (isLine_join ?_) hmark
  intro t ht
  obtain ⟨c, -, rfl⟩ := List.mem_map.mp ht
  exact isLine_quotedChar hquote c

theorem not_holdsControl {cs : List Char} (h : escapeMark ∉ cs) : ¬ HoldsControl cs := by
  rintro ⟨before, parameters, intermediates, last, after, rfl, -⟩
  exact h (List.mem_append_right _ List.mem_cons_self)

theorem withoutControl_subset (piece : List Char) : withoutControl piece ⊆ escapeMark :: piece := by
  unfold withoutControl
  cases h : afterControl? piece with
  | none => exact List.Subset.refl _
  | some rest =>
    obtain ⟨parameters, intermediates, last, rfl, -⟩ := exists_of_afterControl? h
    intro c hc
    simp [show c ∈ rest from hc]

/-- Dropping control sequences adds no character. -/
theorem plainChars_subset (cs : List Char) : plainChars cs ⊆ cs := by
  have hcs : [escapeMark].intercalate (cs.splitOn escapeMark) = cs :=
    List.intercalate_splitOn escapeMark
  unfold plainChars
  cases hsplit : cs.splitOn escapeMark with
  | nil => exact List.nil_subset cs
  | cons first pieces =>
    rw [hsplit, intercalate_singleton_cons] at hcs
    intro c hc
    rw [← hcs]
    rcases List.mem_append.mp hc with hc | hc
    · exact List.mem_append_left _ hc
    · obtain ⟨piece, hpiece, hc⟩ := List.mem_flatMap.mp hc
      exact List.mem_append_right _
        (List.mem_flatMap.mpr ⟨piece, hpiece, withoutControl_subset piece hc⟩)

theorem isLine_plain (h : IsLine s) : IsLine (plain s) :=
  isLine_ofList fun hbreak => h (plainChars_subset _ hbreak)

theorem splitOn_append {a : Char} {before : List Char} (h : a ∉ before) (after : List Char) :
    (before ++ after).splitOn a = (after.splitOn a).modifyHead (before ++ ·) := by
  induction before with
  | nil => rw [List.nil_append]; cases after.splitOn a <;> rfl
  | cons c before ih =>
    rw [List.mem_cons, not_or] at h
    rw [List.cons_append, List.splitOn_cons_eq_if_modifyHead, if_neg (by simp [Ne.symm h.1]),
      ih h.2]
    cases after.splitOn a <;> rfl

/-- What stands in front of the first escape character is kept. -/
theorem plain_append (h : escapeMark ∉ s.toList) : plain (s ++ t) = s ++ plain t := by
  apply String.toList_injective
  rw [plain, plain, String.toList_ofList, String.toList_append, String.toList_append,
    String.toList_ofList, plainChars, plainChars, splitOn_append h]
  cases hsplit : t.toList.splitOn escapeMark with
  | nil => exact absurd hsplit (List.splitOn_ne_nil _ _)
  | cons first pieces => exact List.append_assoc _ _ _

end Text

namespace Command

/-! ### Lines about errors -/

/-- The line begins as a message about an error does. -/
def tellsError (line : String) : Bool := "error:".toList.isPrefixOf line.toList

/-- The lines of a text that tell of an error. -/
def errorLines (s : String) : List String :=
  ((s.toList.splitOn '\n').map String.ofList).filter tellsError

/-- What a message about an error is written as. -/
def errorText (message : String) : String := "error: " ++ Text.plain message

theorem errorLines_append (s t : String) :
    errorLines (s ++ "\n" ++ t) = errorLines s ++ errorLines t := by
  have hlist : (s ++ "\n" ++ t).toList = s.toList ++ '\n' :: t.toList := by
    rw [String.toList_append, String.toList_append, List.append_assoc]
    rfl
  rw [errorLines, hlist, List.splitOn_append_cons_self, List.map_append, List.filter_append]
  rfl

theorem errorLines_of_isLine {s : String} (h : Text.IsLine s) :
    errorLines s = if tellsError s then [s] else [] := by
  rw [errorLines, List.splitOn_eq_singleton h, List.map_singleton, String.ofList_toList,
    List.filter_cons, List.filter_nil]

theorem errorLines_join (texts : List String) :
    errorLines (String.join (texts.map (· ++ "\n"))) = texts.flatMap errorLines := by
  induction texts with
  | nil => rfl
  | cons s texts ih =>
    rw [List.map_cons, String.join_cons, errorLines_append, ih, List.flatMap_cons]

theorem errorLines_errorText {message : String} (h : Text.IsLine message) :
    errorLines (errorText message) = [errorText message] := by
  have htells : tellsError (errorText message) = true := by
    rw [tellsError, errorText, String.toList_append]
    rfl
  have hline : Text.IsLine (errorText message) :=
    Text.isLine_append (by decide) (Text.isLine_plain h)
  rw [errorLines_of_isLine hline, if_pos htells]

/-! ### Records -/

/-- A line of the journal. -/
structure IsRecord (line : String) : Prop where
  single : Text.IsLine line
  named : ∃ rest, line = "DEBUG gridchart." ++ rest

theorem IsRecord.append {line more : String} (h : IsRecord line) (hmore : Text.IsLine more) :
    IsRecord (line ++ more) := by
  obtain ⟨hsingle, rest, rfl⟩ := h
  exact ⟨Text.isLine_append hsingle hmore, rest ++ more, String.append_assoc⟩

/-- A record does not tell of an error. -/
theorem errorLines_of_isRecord {line : String} (h : IsRecord line) : errorLines line = [] := by
  obtain ⟨hsingle, rest, rfl⟩ := h
  have htells : tellsError ("DEBUG gridchart." ++ rest) = false := by
    rw [tellsError, String.toList_append]
    rfl
  rw [errorLines_of_isLine hsingle, htells]
  rfl

theorem isRecord_documentLine (d : Document) : IsRecord (documentLine d) := by
  have h : IsRecord "DEBUG gridchart.parser: parsed " := ⟨by decide, "parser: parsed ", rfl⟩
  have hrows := (h.append (Text.isLine_toString_nat d.rows.length)).append
    (show Text.IsLine " grid rows and " by decide)
  have hentries := Text.isLine_append (Text.isLine_toString_nat d.definitions.length)
    (show Text.IsLine " define entries" by decide)
  exact hrows.append hentries

theorem isLine_quotedList (names : List String) : Text.IsLine (quotedList names) := by
  refine Text.isLine_between (by decide) ?_ (by decide)
  refine Text.not_mem_intercalate (by decide) fun s hs => ?_
  obtain ⟨name, -, rfl⟩ := List.mem_map.mp hs
  exact Text.isLine_quoted name

theorem isRecord_of_mem_draftLines {d : Document} {drafts : List Draft} {line : String}
    (h : line ∈ draftLines d drafts) : IsRecord line := by
  have hunused : IsRecord "DEBUG gridchart.attributes: define entries without grid occurrences: " :=
    ⟨by decide, "attributes: define entries without grid occurrences: ", rfl⟩
  have hresolved : IsRecord "DEBUG gridchart.attributes: resolved attributes for " :=
    ⟨by decide, "attributes: resolved attributes for ", rfl⟩
  unfold draftLines at h
  rcases List.mem_append.mp h with h | h
  · split at h
    · cases h
    · rw [List.mem_singleton.mp h]
      exact hunused.append (isLine_quotedList _)
  · rw [List.mem_singleton.mp h]
    exact (hresolved.append (Text.isLine_toString_nat _)).append (by decide)

theorem isRecord_nodeLine (nodes : List Node) : IsRecord (nodeLine nodes) := by
  have h : IsRecord "DEBUG gridchart.references: resolved " :=
    ⟨by decide, "references: resolved ", rfl⟩
  have hlinks := (h.append (Text.isLine_toString_nat (linkCount nodes))).append
    (show Text.IsLine " connections " by decide)
  exact hlinks.append
    (Text.isLine_between (by decide) (Text.isLine_toString_nat nodes.length) (by decide))

theorem isRecord_layoutLine (sizes : Metrics Length) (grid : Grid Nat) (nodes : List Node) :
    IsRecord (layoutLine sizes grid nodes) := by
  have h : IsRecord "DEBUG gridchart.layout: laid out " := ⟨by decide, "layout: laid out ", rfl⟩
  have hnodes := (h.append (Text.isLine_toString_nat nodes.length)).append
    (show Text.IsLine " nodes on a " by decide)
  have hrows : Text.IsLine (toString grid.rows ++ "x") :=
    Text.isLine_append (Text.isLine_toString_int _) (by decide)
  have hgrid : Text.IsLine (toString grid.rows ++ "x" ++ toString grid.cols ++ " grid (") :=
    Text.isLine_between hrows (Text.isLine_toString_int _) (by decide)
  have hwidth : Text.IsLine (_ ++ (sizes.canvasWidth grid.cols).text ++ "x") :=
    Text.isLine_between hgrid (Text.isLine_text _) (by decide)
  exact hnodes.append (Text.isLine_between hwidth
    (Text.isLine_text (sizes.canvasHeight grid.rows)) (show Text.IsLine " px)" by decide))

theorem isRecord_routeLine (nodes : List Node) : IsRecord (routeLine nodes) := by
  have h : IsRecord "DEBUG gridchart.routing: routed " := ⟨by decide, "routing: routed ", rfl⟩
  exact (h.append (Text.isLine_toString_nat _)).append (by decide)

/-- The journal holds records only. -/
theorem isRecord_of_mem_journal {sizes : Metrics Length} {text : String}
    {chart : Except Fault (Chart Float)} :
    ∀ line ∈ journal sizes text chart, IsRecord line := by
  have hnil : ∀ line ∈ ([] : List String), IsRecord line := by simp
  unfold journal
  split
  · exact hnil
  · refine List.forall_mem_cons.mpr ⟨isRecord_documentLine _, ?_⟩
    split
    · exact hnil
    · refine List.forall_mem_append.mpr ⟨fun line => isRecord_of_mem_draftLines, ?_⟩
      split
      · exact hnil
      · split
        · exact hnil
        · refine List.forall_mem_append.mpr ⟨List.forall_mem_cons.mpr ⟨isRecord_nodeLine _,
            List.forall_mem_cons.mpr ⟨isRecord_layoutLine _ _ _, hnil⟩⟩, ?_⟩
          split
          · exact hnil
          · exact List.forall_mem_cons.mpr ⟨isRecord_routeLine _, hnil⟩

/-! ### Standard error -/

/-- What a run tells of an error is the message that it ends with. -/
theorem errorLines_stderr {o : Outcome} (h : ∀ line ∈ o.journal, IsRecord line) :
    errorLines o.stderr = match o.ending with
      | .failure message => errorLines (errorText message)
      | _ => [] := by
  have hjournal : o.journal.flatMap errorLines = [] :=
    List.flatMap_eq_nil_iff.mpr fun line hline => errorLines_of_isRecord (h line hline)
  have hplain (message : String) : Text.plain ("error: " ++ message) = errorText message :=
    Text.plain_append (by decide)
  unfold Outcome.stderr
  rw [errorLines_join, List.flatMap_append, hjournal, List.nil_append]
  cases o.ending with
  | failure message => rw [List.flatMap_singleton, hplain]
  | _ => rfl

end Command
end FlowGrid
