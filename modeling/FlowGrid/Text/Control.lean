/-! Control sequences, by which a text tells a terminal how to show it. One consists of an
escape character, an opening bracket, parameters, intermediate characters and one final
character. Main statement: a text without escape characters is plain. -/

namespace FlowGrid.Text

/-- The character before a control sequence. -/
def escapeMark : Char := '\x1b'

def isParameter (c : Char) : Bool := '0' ≤ c && c ≤ '?'

def isIntermediate (c : Char) : Bool := ' ' ≤ c && c ≤ '/'

def isFinal (c : Char) : Bool := '@' ≤ c && c ≤ '~'

/-- What follows on a control sequence, given what follows on its escape character. -/
def afterControl? : List Char → Option (List Char)
  | '[' :: rest =>
    match (rest.dropWhile isParameter).dropWhile isIntermediate with
    | c :: rest => if isFinal c then some rest else none
    | [] => none
  | _ => none

/-- A piece of text that follows on an escape character, without the control sequence at
its beginning; if there is none, the escape character stays. -/
def withoutControl (piece : List Char) : List Char :=
  (afterControl? piece).getD (escapeMark :: piece)

/-- Characters without the control sequences among them. A control sequence holds no
second escape character, so each piece between two of these is treated alone. -/
def plainChars (cs : List Char) : List Char :=
  match cs.splitOn escapeMark with
  | [] => []
  | first :: pieces => first ++ pieces.flatMap withoutControl

/-- Somewhere among the characters there is a control sequence. -/
def HoldsControl (cs : List Char) : Prop :=
  ∃ before parameters intermediates last after,
    cs = before ++ escapeMark :: '[' :: (parameters ++ (intermediates ++ last :: after)) ∧
      (∀ c ∈ parameters, isParameter c) ∧ (∀ c ∈ intermediates, isIntermediate c) ∧ isFinal last

theorem exists_of_afterControl? {piece rest : List Char} (h : afterControl? piece = some rest) :
    ∃ parameters intermediates last,
      piece = '[' :: (parameters ++ (intermediates ++ last :: rest)) ∧
        (∀ c ∈ parameters, isParameter c) ∧ (∀ c ∈ intermediates, isIntermediate c) ∧
        isFinal last := by
  unfold afterControl? at h
  split at h
  · rename_i cs
    split at h
    · rename_i last after hdrop
      split at h
      · rename_i hfinal
        cases h
        refine ⟨cs.takeWhile isParameter, (cs.dropWhile isParameter).takeWhile isIntermediate, last,
          ?_, fun c hc => ?_, fun c hc => ?_, hfinal⟩
        · rw [← hdrop, List.takeWhile_append_dropWhile, List.takeWhile_append_dropWhile]
        · exact List.all_eq_true.mp List.all_takeWhile c hc
        · exact List.all_eq_true.mp List.all_takeWhile c hc
      · cases h
    · cases h
  · cases h

theorem intercalate_singleton_cons {α : Type} (a : α) (first : List α) (pieces : List (List α)) :
    [a].intercalate (first :: pieces) = first ++ pieces.flatMap (a :: ·) := by
  induction pieces generalizing first with
  | nil => simp
  | cons piece pieces ih => rw [List.intercalate_cons_cons, ih]; simp

theorem plainChars_eq_self {cs : List Char} (h : ¬ HoldsControl cs) : plainChars cs = cs := by
  have hcs : [escapeMark].intercalate (cs.splitOn escapeMark) = cs :=
    List.intercalate_splitOn escapeMark
  unfold plainChars
  cases hsplit : cs.splitOn escapeMark with
  | nil => exact absurd hsplit (List.splitOn_ne_nil _ _)
  | cons first pieces =>
    rw [hsplit, intercalate_singleton_cons] at hcs
    have hpieces : ∀ piece ∈ pieces, withoutControl piece = escapeMark :: piece := by
      intro piece hpiece
      unfold withoutControl
      cases hafter : afterControl? piece with
      | none => rfl
      | some rest =>
        obtain ⟨parameters, intermediates, last, rfl, hcontrol⟩ := exists_of_afterControl? hafter
        obtain ⟨before, after, rfl⟩ := List.append_of_mem hpiece
        refine absurd ⟨first ++ before.flatMap (escapeMark :: ·), parameters, intermediates, last,
          rest ++ after.flatMap (escapeMark :: ·), ?_, hcontrol⟩ h
        rw [← hcs]
        simp
    dsimp only
    rw [List.flatMap_def, List.map_congr_left hpieces, ← List.flatMap_def, hcs]

/-- A text without its control sequences. -/
def plain (s : String) : String := String.ofList (plainChars s.toList)

theorem plain_eq_self {s : String} (h : ¬ HoldsControl s.toList) : plain s = s := by
  rw [plain, plainChars_eq_self h, String.ofList_toList]

end FlowGrid.Text
