import FlowGrid.Document.Token
import FlowGrid.Proofs.Result
import Mathlib.Data.List.TakeWhile
import Mathlib.Tactic.Common

/-! How a text spells tokens. Blanks and comments may stand between any two of them, a word is
as long as it can be, and a string writes three characters with a backslash. Scanning finds
exactly the tokens that a text spells, or those before a string that cannot be read. -/

namespace FlowGrid

/-! ### Strings -/

/-- How the content of a string is written between its quotes. -/
inductive Writes : List Char → List Char → Prop
  | nil : Writes [] []
  | plain {c : Char} {content text : List Char} (quote : c ≠ '"') (backslash : c ≠ '\\')
    (rest : Writes content text) : Writes (c :: content) (c :: text)
  | quote {content text : List Char} (rest : Writes content text) :
    Writes ('"' :: content) ('\\' :: '"' :: text)
  | backslash {content text : List Char} (rest : Writes content text) :
    Writes ('\\' :: content) ('\\' :: '\\' :: text)
  | newline {content text : List Char} (rest : Writes content text) :
    Writes ('\n' :: content) ('\\' :: 'n' :: text)

theorem Writes.escape {c d : Char} {content text : List Char} (h : escaped? c = some d)
    (rest : Writes content text) : Writes (d :: content) ('\\' :: c :: text) := by
  unfold escaped? at h
  split at h <;> cases h
  · exact .quote rest
  · exact .backslash rest
  · exact .newline rest

theorem writes_of_scanString {opening p : Position} {cs : List Char} {s : Scanned}
    (h : scanString opening p cs = .ok s) : ∃ text, cs = text ++ '"' :: s.rest ∧
      Writes s.content text ∧ s.position = p.advanceAll (text ++ ['"']) := by
  fun_induction scanString opening p cs generalizing s with
  | case1 => cases h
  | case2 p rest =>
    cases h
    exact ⟨[], rfl, .nil, rfl⟩
  | case3 => cases h
  | case4 => cases h
  | case5 p c rest d hd ih =>
    obtain ⟨r, hr, rfl⟩ := Result.map_eq_ok_iff.mp h
    obtain ⟨text, rfl, hw, hp⟩ := ih hr
    exact ⟨'\\' :: c :: text, rfl, hw.escape hd, hp⟩
  | case6 p c rest hquote hbackslash ih =>
    obtain ⟨r, hr, rfl⟩ := Result.map_eq_ok_iff.mp h
    obtain ⟨text, rfl, hw, hp⟩ := ih hr
    exact ⟨c :: text, rfl, .plain hquote hbackslash hw, hp⟩

theorem scanString_of_writes {content text : List Char} (h : Writes content text)
    (opening p : Position) (rest : List Char) :
    scanString opening p (text ++ '"' :: rest) =
      .ok ⟨content, rest, p.advanceAll (text ++ ['"'])⟩ := by
  induction h generalizing p with
  | nil => rfl
  | plain hquote hbackslash _ ih =>
    rw [List.cons_append, scanString, ih]
    · rfl
    · exact hquote
    · exact hbackslash
  | quote _ ih => simp [scanString, escaped?, ih, Except.map, Position.advanceAll]
  | backslash _ ih => simp [scanString, escaped?, ih, Except.map, Position.advanceAll]
  | newline _ ih => simp [scanString, escaped?, ih, Except.map, Position.advanceAll]

/-! ### Faults -/

/-- The text is malformed there: something else was expected, or a bare text is out of place. -/
def Diagnostic.IsMalformed (d : Diagnostic) : Prop :=
  (∃ what found, d.cause = .expected what found) ∨ d.cause = .misplacedText

theorem isMalformed_of_scanString {opening p : Position} {cs : List Char} {fault : Diagnostic}
    (h : scanString opening p cs = .error fault) : fault.IsMalformed := by
  fun_induction scanString opening p cs with
  | case1 =>
    cases h
    exact .inl ⟨_, _, rfl⟩
  | case2 => cases h
  | case3 =>
    cases h
    exact .inl ⟨_, _, rfl⟩
  | case4 =>
    cases h
    exact .inl ⟨_, _, rfl⟩
  | case5 p c rest d hd ih => exact ih (Result.map_eq_error_iff.mp h)
  | case6 p c rest hquote hbackslash ih => exact ih (Result.map_eq_error_iff.mp h)

/-! ### Tokens -/

/-- The characters from a place on spell the tokens, each with the place where it begins. -/
inductive Scans : Position → List Char → List (Located Token) → Prop
  | finish (p : Position) : Scans p [] []
  | blank {p : Position} {c : Char} {cs : List Char} {ts : List (Located Token)}
    (blank : isBlank c) (rest : Scans (p.advance c) cs ts) : Scans p (c :: cs) ts
  /-- A comment runs to the end of its line. -/
  | comment {p : Position} {line cs : List Char} {ts : List (Located Token)}
    (inside : ∀ c ∈ line, c ≠ '\n') (stops : ∀ c, cs.head? = some c → c = '\n')
    (rest : Scans (p.advanceAll ('/' :: '/' :: line)) cs ts) :
    Scans p ('/' :: '/' :: (line ++ cs)) ts
  /-- A word does not stop before a character that could go on with it. -/
  | word {p : Position} {c : Char} {more cs : List Char} {ts : List (Located Token)}
    (first : isWordStart c) (inside : ∀ d ∈ more, isWordPart d)
    (stops : ∀ d, cs.head? = some d → ¬ isWordPart d)
    (rest : Scans (p.advanceAll (c :: more)) cs ts) :
    Scans p (c :: (more ++ cs)) (⟨.word (String.ofList (c :: more)), p⟩ :: ts)
  | quote {p : Position} {content text cs : List Char} {ts : List (Located Token)}
    (written : Writes content text) (rest : Scans (p.advanceAll ('"' :: (text ++ ['"']))) cs ts) :
    Scans p ('"' :: (text ++ '"' :: cs)) (⟨.quote (String.ofList content), p⟩ :: ts)
  | mark {p : Position} {c : Char} {cs : List Char} {ts : List (Located Token)}
    (visible : ¬ isBlank c) (comment : ¬ (c = '/' ∧ cs.head? = some '/'))
    (word : ¬ isWordStart c) (quote : c ≠ '"') (rest : Scans (p.advance c) cs ts) :
    Scans p (c :: cs) (⟨.mark c, p⟩ :: ts)

theorem not_isBlank_of_isWordStart {c : Char} (h : isWordStart c) : ¬ isBlank c := by
  have halpha : c.isAlpha = (decide ('A'.val ≤ c.val ∧ c.val ≤ 'Z'.val) ||
      (decide ('a'.val ≤ c.val) && decide (c.val ≤ 'z'.val))) := rfl
  have hletter : (65 ≤ c.toNat ∧ c.toNat ≤ 90) ∨ (97 ≤ c.toNat ∧ c.toNat ≤ 122) ∨
      c.toNat = 95 := by
    simp only [isWordStart, halpha, Bool.or_eq_true, Bool.and_eq_true, decide_eq_true_eq,
      beq_iff_eq, UInt32.le_iff_toNat_le] at h
    rcases h with (h | h) | rfl
    · exact .inl h
    · exact .inr (.inl h)
    · exact .inr (.inr rfl)
  simp only [isBlank, Bool.or_eq_true, Bool.and_eq_true, decide_eq_true_eq, beq_iff_eq]
  omega

namespace Tokens

/-- The tokens with their places. -/
def toList : Tokens → List (Located Token)
  | .finish _ => []
  | .broken .. => []
  | .cons t p rest => ⟨t, p⟩ :: rest.toList

/-- What is wrong with the string that ends the tokens, if one does. -/
def fault? : Tokens → Option Diagnostic
  | .finish _ => none
  | .broken _ fault => some fault
  | .cons _ _ rest => rest.fault?

theorem takeWhile_append {f : Char → Bool} {l cs : List Char} (h : ∀ c ∈ l, f c)
    (hcs : ∀ c, cs.head? = some c → ¬ f c) :
    (l ++ cs).takeWhile f = l ∧ (l ++ cs).dropWhile f = cs := by
  rw [List.takeWhile_append_of_pos h, List.dropWhile_append_of_pos h]
  cases cs with
  | nil => simp
  | cons c cs => simp [hcs c rfl]

theorem stops_dropWhile (f : Char → Bool) (cs : List Char) (c : Char)
    (h : (cs.dropWhile f).head? = some c) : ¬ f c := by
  have hhead := List.head?_dropWhile_not f cs
  rw [h] at hhead
  simpa using hhead

theorem ofChars_of_scans {p : Position} {cs : List Char} {ts : List (Located Token)}
    (h : Scans p cs ts) : (ofChars p cs).toList = ts ∧ (ofChars p cs).fault? = none := by
  induction h with
  | finish p =>
    rw [ofChars]
    exact ⟨rfl, rfl⟩
  | blank hblank _ ih =>
    rw [ofChars, if_pos hblank]
    exact ih
  | @comment p line cs ts hinside hstops _ ih =>
    -- the second slash is no line break, so it is scanned with the comment
    obtain ⟨hline, hcs⟩ := takeWhile_append (f := (· != '\n')) (l := '/' :: line)
      (by simpa using hinside) (by simpa using hstops)
    rw [ofChars, if_neg (by decide), if_pos ⟨rfl, rfl⟩, ← List.cons_append, hline, hcs]
    exact ih
  | @word p c more cs ts hfirst hinside hstops _ ih =>
    obtain ⟨hmore, hcs⟩ := takeWhile_append hinside hstops
    have hblank : ¬ isBlank c := not_isBlank_of_isWordStart hfirst
    have hslash : c ≠ '/' := by
      rintro rfl
      cases hfirst
    rw [ofChars, if_neg hblank, if_neg fun hc => hslash hc.1, if_pos hfirst]
    simp only [hmore, hcs]
    exact ⟨congrArg _ ih.1, ih.2⟩
  | @quote p content text cs ts hwritten _ ih =>
    rw [ofChars, if_neg (by decide), if_neg (by simp), if_neg (by decide), if_pos rfl]
    have hscan := scanString_of_writes hwritten p (p.advance '"') cs
    split
    · rename_i fault hfault
      cases hscan.symm.trans hfault
    · rename_i s hs
      cases hscan.symm.trans hs
      exact ⟨congrArg _ ih.1, ih.2⟩
  | mark hvisible hcomment hword hquote _ ih =>
    rw [ofChars, if_neg hvisible, if_neg hcomment, if_neg hword, if_neg hquote]
    exact ⟨congrArg _ ih.1, ih.2⟩

theorem scans_ofChars {p : Position} {cs : List Char} (h : (ofChars p cs).fault? = none) :
    Scans p cs (ofChars p cs).toList := by
  fun_induction ofChars p cs with
  | case1 p => exact .finish p
  | case2 p c rest hblank ih => exact .blank hblank (ih h)
  | case3 p c rest hblank hcomment ih =>
    obtain ⟨rfl, hslash⟩ := hcomment
    obtain ⟨line, rfl⟩ := List.head?_eq_some_iff.mp hslash
    have hline : ('/' :: line).takeWhile (· != '\n') = '/' :: line.takeWhile (· != '\n') := rfl
    have hrest : ('/' :: line).dropWhile (· != '\n') = line.dropWhile (· != '\n') := rfl
    rw [hline, hrest] at ih h ⊢
    have hinside : ∀ c ∈ line.takeWhile (· != '\n'), c ≠ '\n' :=
      fun c hc => by simpa using List.mem_takeWhile_imp hc
    have hscans :=
      Scans.comment hinside (fun c hc => by simpa using stops_dropWhile _ _ _ hc) (ih h)
    rwa [List.takeWhile_append_dropWhile] at hscans
  | case4 p c rest hblank hcomment hword more ih =>
    have hscans :=
      Scans.word hword (fun d hd => List.mem_takeWhile_imp hd) (stops_dropWhile _ _) (ih h)
    rwa [List.takeWhile_append_dropWhile] at hscans
  | case5 p rest fault => cases h
  | case6 p rest s hblank hcomment hword hs ih =>
    obtain ⟨text, rfl, hwritten, hposition⟩ := writes_of_scanString hs
    rw [hposition] at ih h ⊢
    exact .quote hwritten (ih h)
  | case7 p c rest hblank hcomment hword hquote ih =>
    exact .mark hblank hcomment hword hquote (ih h)

/-- A text spells its tokens, unless a string in it cannot be read. -/
theorem scans_iff {p : Position} {cs : List Char} {ts : List (Located Token)} :
    Scans p cs ts ↔ (ofChars p cs).toList = ts ∧ (ofChars p cs).fault? = none := by
  refine ⟨ofChars_of_scans, ?_⟩
  rintro ⟨rfl, h⟩
  exact scans_ofChars h

theorem isMalformed_of_fault? {p : Position} {cs : List Char} {fault : Diagnostic}
    (h : (ofChars p cs).fault? = some fault) : fault.IsMalformed := by
  fun_induction ofChars p cs with
  | case1 => cases h
  | case2 p c rest hblank ih => exact ih h
  | case3 p c rest hblank hcomment ih => exact ih h
  | case4 p c rest hblank hcomment hword more ih => exact ih h
  | case5 p rest fault' hblank hcomment hword hs =>
    cases h
    exact isMalformed_of_scanString hs
  | case6 p rest s hblank hcomment hword hs ih => exact ih h
  | case7 p c rest hblank hcomment hword hquote ih => exact ih h

end Tokens
end FlowGrid
