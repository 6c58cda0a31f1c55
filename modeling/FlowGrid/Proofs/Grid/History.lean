import FlowGrid.Proofs.Grid.Filling
import Mathlib.Data.Finset.Card

/-! What a grid answers. A call either puts a value into a cell within the bounds or changes
nothing, so every answer follows from the values that were put into cells before: a cell holds
the last of its values, and the size is the count of the cells that have got one. -/

namespace FlowGrid.Grid

variable {α : Type}

/-! ### Calls -/

/-- A call on a grid. -/
inductive Call (α : Type)
  | place (row col : Int) (value : α)
  | get (row col : Int)
  | neighbor (row col : Int) (direction : String)
  | inBounds (row col : Int)
  | size

inductive Answer (α : Type)
  | placed
  | found (value : Option α)
  | within (isWithin : Bool)
  | count (n : Nat)
  | refused (fault : GridFault)
deriving DecidableEq

/-- The grid after a call, and the answer to it. -/
def serve (g : Grid α) : Call α → Grid α × Answer α
  | .place row col value =>
    match g.place row col value with
    | .ok placed => (placed, .placed)
    | .error fault => (g, .refused fault)
  | .get row col => (g, .found (g.get? row col))
  | .neighbor row col direction =>
    match g.neighborToward row col direction with
    | .ok value => (g, .found value)
    | .error fault => (g, .refused fault)
  | .inBounds row col => (g, .within (g.inBounds row col))
  | .size => (g, .count g.size)

def after (g : Grid α) : List (Call α) → Grid α
  | [] => g
  | call :: calls => (g.serve call).1.after calls

def answers (g : Grid α) : List (Call α) → List (Answer α)
  | [] => []
  | call :: calls => (g.serve call).2 :: (g.serve call).1.answers calls

theorem answers_append (g : Grid α) (a b : List (Call α)) :
    g.answers (a ++ b) = g.answers a ++ (g.after a).answers b := by
  induction a generalizing g with
  | nil => rfl
  | cons call a ih => simp only [List.cons_append, answers, after, ih]

theorem length_answers (g : Grid α) (calls : List (Call α)) :
    (g.answers calls).length = calls.length := by
  induction calls generalizing g with
  | nil => rfl
  | cons call calls ih => simp only [answers, List.length_cons, ih]

/-! ### History -/

/-- The cell lies within the bounds of a grid. -/
def IsCell (rows cols row col : Int) : Prop := 0 ≤ row ∧ row < rows ∧ 0 ≤ col ∧ col < cols

instance (rows cols row col : Int) : Decidable (IsCell rows cols row col) :=
  inferInstanceAs (Decidable (_ ∧ _))

/-- The cell and the value of a call that puts a value into a cell. -/
def Call.placement? (rows cols : Int) : Call α → Option ((Int × Int) × α)
  | .place row col value => if IsCell rows cols row col then some ((row, col), value) else none
  | _ => none

/-- The values that the calls put into cells, one after the other. -/
def placements (rows cols : Int) (calls : List (Call α)) : List ((Int × Int) × α) :=
  calls.filterMap (Call.placement? rows cols)

/-- The value that was put last into a cell. -/
def last? (history : List ((Int × Int) × α)) (cell : Int × Int) : Option α :=
  ((history.filter (·.1 = cell)).getLast?).map Prod.snd

/-- The cells that a value was put into. -/
def filled (history : List ((Int × Int) × α)) : Finset (Int × Int) :=
  (history.map Prod.fst).toFinset

/-- The answer to a call, by what was put into cells before. -/
def answerBy (rows cols : Int) (history : List ((Int × Int) × α)) : Call α → Answer α
  | .place row col _ =>
    if IsCell rows cols row col then .placed else .refused (.outside row col rows cols)
  | .get row col => .found (last? history (row, col))
  | .neighbor row col direction =>
    match Side.named? direction with
    | some side => .found (last? history (row + side.dy, col + side.dx))
    | none => .refused (.unknownDirection direction)
  | .inBounds row col => .within (decide (IsCell rows cols row col))
  | .size => .count (filled history).card

theorem last?_concat (history : List ((Int × Int) × α)) (cell c : Int × Int) (value : α) :
    last? (history ++ [(cell, value)]) c = if cell = c then some value else last? history c := by
  unfold last?
  by_cases h : cell = c <;> simp [List.filter_append, h]

theorem filled_concat (history : List ((Int × Int) × α)) (cell : Int × Int) (value : α) :
    filled (history ++ [(cell, value)]) = insert cell (filled history) := by
  ext c
  simp only [filled, List.map_append, List.map_cons, List.map_nil, List.mem_toFinset,
    List.mem_append, List.mem_singleton, Finset.mem_insert, or_comm]

theorem isSome_last?_iff (history : List ((Int × Int) × α)) (cell : Int × Int) :
    (last? history cell).isSome = true ↔ cell ∈ filled history := by
  induction history using List.reverseRecOn with
  | nil => exact ⟨nofun, nofun⟩
  | append_singleton history entry ih =>
    rw [last?_concat, filled_concat, Finset.mem_insert]
    by_cases h : entry.1 = cell
    · simp [h]
    · rw [if_neg h, ih, or_iff_right (Ne.symm h)]

/-! ### What a grid remembers -/

/-- The grid holds what was put into its cells. -/
structure Records (g : Grid α) (rows cols : Int) (history : List ((Int × Int) × α)) : Prop where
  rows : g.rows = rows
  cols : g.cols = cols
  get? : ∀ row col, g.get? row col = last? history (row, col)
  size : g.size = (filled history).card

variable {g : Grid α} {rows cols : Int} {history : List ((Int × Int) × α)}

theorem records_empty (rows cols : Int) : (empty rows cols : Grid α).Records rows cols [] where
  rows := rfl
  cols := rfl
  get? := get?_empty rows cols
  size := Std.HashMap.size_empty

namespace Records

theorem inBounds_iff (h : g.Records rows cols history) (row col : Int) :
    g.inBounds row col = true ↔ IsCell rows cols row col := by
  rw [Grid.inBounds_iff, h.rows, h.cols, IsCell]

/-- A cell that has a value already keeps the size. -/
theorem insert (h : g.Records rows cols history) (row col : Int) (value : α) :
    Records { g with cells := g.cells.insert (row, col) value } rows cols
      (history ++ [((row, col), value)]) where
  rows := h.rows
  cols := h.cols
  get? r c := by
    rw [last?_concat, ← h.get?]
    simp only [Grid.get?, Std.HashMap.getElem?_insert, beq_iff_eq]
  size := by
    have hmem : (row, col) ∈ g.cells ↔ (row, col) ∈ filled history := by
      rw [← isSome_last?_iff, ← h.get?, Grid.get?, Std.HashMap.isSome_getElem?_iff_mem]
    have hsize : g.cells.size = (filled history).card := h.size
    rw [filled_concat, Finset.card_insert_eq_ite, ← hsize]
    simp only [Grid.size, Std.HashMap.size_insert, hmem]

/-- A refused value leaves the grid as it is. -/
theorem serve_outside (h : g.Records rows cols history) {row col : Int} (value : α)
    (hout : ¬ IsCell rows cols row col) :
    g.serve (.place row col value) = (g, .refused (.outside row col rows cols)) := by
  rw [Grid.serve, Grid.place, if_neg (mt (h.inBounds_iff row col).mp hout), h.rows, h.cols]

theorem serve_inside (h : g.Records rows cols history) {row col : Int} (value : α)
    (hin : IsCell rows cols row col) :
    g.serve (.place row col value) =
      ({ g with cells := g.cells.insert (row, col) value }, .placed) := by
  rw [Grid.serve, Grid.place, if_pos ((h.inBounds_iff row col).mpr hin)]

theorem serve (h : g.Records rows cols history) (call : Call α) :
    (g.serve call).1.Records rows cols (history ++ (call.placement? rows cols).toList) := by
  have hsame : g.Records rows cols (history ++ []) := by rwa [List.append_nil]
  cases call with
  | place row col value =>
    by_cases hin : IsCell rows cols row col
    · rw [h.serve_inside value hin, Call.placement?, if_pos hin]
      exact h.insert row col value
    · rw [h.serve_outside value hin, Call.placement?, if_neg hin]
      exact hsame
  | get | inBounds | size => exact hsame
  | neighbor row col direction =>
    rw [Grid.serve]
    split <;> exact hsame

theorem answer (h : g.Records rows cols history) (call : Call α) :
    (g.serve call).2 = answerBy rows cols history call := by
  cases call with
  | place row col value =>
    by_cases hin : IsCell rows cols row col
    · rw [h.serve_inside value hin, answerBy, if_pos hin]
    · rw [h.serve_outside value hin, answerBy, if_neg hin]
  | get row col => rw [Grid.serve, answerBy, h.get?]
  | neighbor row col direction =>
    rw [Grid.serve, neighborToward, answerBy]
    cases Side.named? direction with
    | none => rfl
    | some side => simp only [neighbor?, h.get?]
  | inBounds row col =>
    have hiff := h.inBounds_iff row col
    rw [Grid.serve, answerBy, Bool.eq_iff_iff.mpr (hiff.trans decide_eq_true_iff.symm)]
  | size => rw [Grid.serve, answerBy, h.size]

theorem after (h : g.Records rows cols history) (calls : List (Call α)) :
    (g.after calls).Records rows cols (history ++ placements rows cols calls) := by
  induction calls generalizing g history with
  | nil => rwa [placements, List.filterMap_nil, List.append_nil]
  | cons call calls ih =>
    have hnext := ih (h.serve call)
    have hsplit : placements rows cols (call :: calls) =
        (call.placement? rows cols).toList ++ placements rows cols calls := by
      rw [placements, List.filterMap_cons]
      cases call.placement? rows cols <;> rfl
    rwa [hsplit, ← List.append_assoc]

end Records

/-! ### The answers -/

/-- The answer to each call follows from the placements before it. -/
theorem getElem?_answers (rows cols : Int) (before later : List (Call α)) (call : Call α) :
    ((empty rows cols).answers (before ++ call :: later))[before.length]? =
      some (answerBy rows cols (placements rows cols before) call) := by
  have hrecords := (records_empty rows cols).after before
  have hlength := length_answers (empty rows cols) before
  rw [answers_append, answers, List.getElem?_append_right hlength.le, hlength, Nat.sub_self,
    List.getElem?_cons_zero, hrecords.answer, List.nil_append]

theorem answers_outside (rows cols : Int) (before later : List (Call α)) {row col : Int}
    (value : α) (hout : ¬ IsCell rows cols row col) :
    (empty rows cols).answers (before ++ .place row col value :: later) =
      (empty rows cols).answers before ++ .refused (.outside row col rows cols) ::
        ((empty rows cols).answers (before ++ later)).drop before.length := by
  have hserve := ((records_empty rows cols).after before).serve_outside value hout
  rw [answers_append, answers_append, answers, hserve,
    List.drop_left' (length_answers (empty rows cols) before)]

/-- The neighbor beyond a side is what the cell there holds. -/
theorem serve_neighbor (g : Grid α) (row col : Int) (side : Side) :
    (g.serve (.neighbor row col side.name)).2 =
      (g.serve (.get (row + side.dy) (col + side.dx))).2 := by
  simp only [serve, neighborToward, Side.named?_name, neighbor?]

/-- Distinct cells within the bounds get the numbers of their turns; no other cell gets one. -/
theorem exists_ofPositions {rows cols : Int} {positions : List (Int × Int)}
    (hn : positions.Nodup) (hin : ∀ p ∈ positions, IsCell rows cols p.1 p.2) :
    ∃ g, ofPositions positions rows cols = .ok g ∧
      (∀ n row col, positions[n]? = some (row, col) → g.get? row col = some n) ∧
      ∀ row col, (row, col) ∉ positions → g.get? row col = none := by
  obtain ⟨g, hg⟩ : ∃ g, ofPositions positions rows cols = .ok g :=
    exists_placeFrom fun p hp => (inBounds_iff _ _ _).mpr (hin p hp)
  refine ⟨g, hg, fun n row col hp => ?_, fun row col hp => ?_⟩
  · rw [get?_of_placeFrom hg hn hp, Nat.zero_add]
  · rw [get?_of_placeFrom_of_notMem hg hp, get?_empty]

/-- The answers of a grid after any calls, failing ones included, the answers around a refused
placement, the cells next to a given one, and the grid over distinct positions. -/
theorem answers_by_history (rows cols : Int) :
    (∀ (before later : List (Call α)) (call : Call α),
      ((empty rows cols).answers (before ++ call :: later))[before.length]? =
        some (answerBy rows cols (placements rows cols before) call)) ∧
    (∀ (before later : List (Call α)) (row col : Int) (value : α), ¬ IsCell rows cols row col →
      (empty rows cols).answers (before ++ .place row col value :: later) =
        (empty rows cols).answers before ++ .refused (.outside row col rows cols) ::
          ((empty rows cols).answers (before ++ later)).drop before.length) ∧
    (∀ (g : Grid α) (row col : Int),
      (g.serve (.neighbor row col "n")).2 = (g.serve (.get (row - 1) col)).2 ∧
      (g.serve (.neighbor row col "s")).2 = (g.serve (.get (row + 1) col)).2 ∧
      (g.serve (.neighbor row col "w")).2 = (g.serve (.get row (col - 1))).2 ∧
      (g.serve (.neighbor row col "e")).2 = (g.serve (.get row (col + 1))).2) ∧
    (∀ positions : List (Int × Int), positions.Nodup →
      (∀ p ∈ positions, IsCell rows cols p.1 p.2) →
      ∃ g, ofPositions positions rows cols = .ok g ∧
        (∀ n row col, positions[n]? = some (row, col) → g.get? row col = some n) ∧
        ∀ row col, (row, col) ∉ positions → g.get? row col = none) := by
  refine ⟨getElem?_answers rows cols, fun before later row col value hout => ?outside,
    fun g row col => ?neighbor, fun positions hn hin => exists_ofPositions hn hin⟩
  case outside => exact answers_outside rows cols before later value hout
  case neighbor =>
    have hnorth := serve_neighbor g row col .north
    have hsouth := serve_neighbor g row col .south
    have hwest := serve_neighbor g row col .west
    have heast := serve_neighbor g row col .east
    simp only [Side.dx, Side.dy, Int.add_zero] at hnorth hsouth hwest heast
    exact ⟨hnorth, hsouth, hwest, heast⟩

theorem answers_by_history_two_by_two :
    (empty 2 2).answers [.place 0 1 7, .place 2 0 8, .get 0 1] =
      [.placed, .refused (.outside 2 0 2 2), .found (some 7)] ∧
    ∃ g, ofPositions [(0, 1), (1, 0)] 2 2 = .ok g ∧ g.get? 1 0 = some 1 ∧ g.get? 5 5 = none := by
  obtain ⟨hanswer, hrefused, -, hpositions⟩ := answers_by_history (α := Nat) 2 2
  have hshort : (empty 2 2).answers [.place 0 1 7, .get 0 1] = [.placed, .found (some 7)] := by
    refine List.ext_getElem? fun n => ?_
    match n with
    | 0 => exact hanswer [] [.get 0 1] (.place 0 1 7)
    | 1 => exact hanswer [.place 0 1 7] [] (.get 0 1)
    | n + 2 => rfl
  obtain ⟨g, hg, hin, hout⟩ := hpositions [(0, 1), (1, 0)] (by decide) (by decide)
  refine ⟨?_, g, hg, hin 1 1 0 rfl, hout 5 5 (by decide)⟩
  have hlong := hrefused [.place 0 1 7] [.get 0 1] 2 0 8 (by decide)
  rw [List.singleton_append] at hlong
  rw [hlong, List.singleton_append, hshort]
  rfl

end FlowGrid.Grid
