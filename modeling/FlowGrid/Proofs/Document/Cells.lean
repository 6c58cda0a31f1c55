import FlowGrid.Draft
import FlowGrid.Proofs.Result

/-! The cells of a document that hold a node. They are listed row by row, each at its own row
and column within the grid, and every one of them is drafted as one node at its place. -/

namespace FlowGrid

/-- Reading order: row by row, from left to right. -/
def Before (a b : Nat × Nat) : Prop := a.1 < b.1 ∨ a.1 = b.1 ∧ a.2 < b.2

theorem Before.ne {a b : Nat × Nat} (h : Before a b) : a ≠ b := by
  rintro rfl
  rcases h with h | ⟨_, h⟩ <;> exact Nat.lt_irrefl _ h

namespace Document

theorem pairwise_zipIdx {α : Type} (l : List α) (n : Nat) :
    (l.zipIdx n).Pairwise fun a b => a.2 < b.2 := by
  have h : ((l.zipIdx n).map Prod.snd).Pairwise (· < ·) := by
    rw [List.zipIdx_map_snd]
    exact List.pairwise_lt_range'
  exact List.pairwise_map.mp h

theorem mem_occurrencesOfRow {row r col : Nat} {cells : List Cell} {cell : Occurrence} :
    (r, col, cell) ∈ occurrencesOfRow row cells ↔ r = row ∧ cells[col]? = some (some cell) := by
  simp only [occurrencesOfRow, List.mem_filterMap, Option.map_eq_some_iff, Prod.exists,
    List.mem_zipIdx_iff_getElem?, Prod.mk.injEq]
  constructor
  · rintro ⟨c, k, hk, o, rfl, rfl, rfl, rfl⟩
    exact ⟨rfl, hk⟩
  · rintro ⟨rfl, hk⟩
    exact ⟨some cell, col, hk, cell, rfl, rfl, rfl, rfl⟩

theorem mem_occurrences {d : Document} {row col : Nat} {cell : Occurrence} :
    (row, col, cell) ∈ d.occurrences ↔
      ∃ cells, d.rows[row]? = some cells ∧ cells[col]? = some (some cell) := by
  simp only [occurrences, List.mem_flatMap, Prod.exists, List.mem_zipIdx_iff_getElem?,
    mem_occurrencesOfRow]
  constructor
  · rintro ⟨cells, r, hr, rfl, hc⟩
    exact ⟨cells, hr, hc⟩
  · rintro ⟨cells, hr, hc⟩
    exact ⟨cells, row, hr, rfl, hc⟩

/-- Changed cells stay where they are. -/
theorem occurrences_map {d e : Document} {f : Occurrence → Occurrence}
    (h : e.rows = d.rows.map (List.map (Option.map f))) :
    e.occurrences = d.occurrences.map fun (row, col, cell) => (row, col, f cell) := by
  have hrow (row : Nat) (cells : List Cell) : occurrencesOfRow row (cells.map (Option.map f)) =
      (occurrencesOfRow row cells).map fun (row, col, cell) => (row, col, f cell) := by
    rw [occurrencesOfRow, occurrencesOfRow, List.zipIdx_map, List.filterMap_map, List.map_filterMap]
    refine congrArg (List.filterMap · _) (funext fun p => ?_)
    cases hp : p.1 <;> simp [hp]
  rw [occurrences, occurrences, h, List.zipIdx_map, List.flatMap_map, List.map_flatMap]
  exact congrArg (List.flatMap · _) (funext fun p => hrow p.2 p.1)

theorem columnCount_map {d e : Document} {f : Occurrence → Occurrence}
    (h : e.rows = d.rows.map (List.map (Option.map f))) : e.columnCount = d.columnCount := by
  have hlengths : e.rows.map List.length = d.rows.map List.length := by
    rw [h, List.map_map]
    exact List.map_congr_left fun cells _ => List.length_map _
  rw [columnCount, columnCount, hlengths]

/-- The places of the cells that hold a node. -/
def places (d : Document) : List (Nat × Nat) := d.occurrences.map fun (row, col, _) => (row, col)

theorem pairwise_places (d : Document) : d.places.Pairwise Before := by
  rw [places, List.pairwise_map, occurrences, List.pairwise_flatMap]
  constructor
  · rintro ⟨cells, row⟩ _
    simp only [occurrencesOfRow, List.pairwise_filterMap]
    refine (pairwise_zipIdx cells 0).imp ?_
    intro a b hab o ho o' ho'
    obtain ⟨_, _, rfl⟩ := Option.map_eq_some_iff.mp ho
    obtain ⟨_, _, rfl⟩ := Option.map_eq_some_iff.mp ho'
    exact .inr ⟨rfl, hab⟩
  · refine (pairwise_zipIdx d.rows 0).imp ?_
    rintro ⟨cells, row⟩ ⟨cells', row'⟩ hrow ⟨r, c, o⟩ ho ⟨r', c', o'⟩ ho'
    obtain ⟨rfl, _⟩ := mem_occurrencesOfRow.mp ho
    obtain ⟨rfl, _⟩ := mem_occurrencesOfRow.mp ho'
    exact .inl hrow

theorem nodup_places (d : Document) : d.places.Nodup := d.pairwise_places.imp Before.ne

theorem le_foldl_max {l : List Nat} {n k : Nat} (h : k ≤ n ∨ k ∈ l) : k ≤ l.foldl max n := by
  induction l generalizing n with
  | nil => exact h.resolve_right List.not_mem_nil
  | cons a l ih =>
    apply ih
    rcases h with h | h
    · exact .inl (by omega)
    · rcases List.mem_cons.mp h with rfl | h
      · exact .inl (by omega)
      · exact .inr h

theorem length_le_columnCount {d : Document} {cells : List Cell} (h : cells ∈ d.rows) :
    cells.length ≤ d.columnCount := le_foldl_max (.inr (List.mem_map_of_mem h))

/-- Every place lies within the rows and columns of the document. -/
theorem lt_of_mem_places {d : Document} {row col : Nat} (h : (row, col) ∈ d.places) :
    row < d.rows.length ∧ col < d.columnCount := by
  obtain ⟨⟨r, c, cell⟩, hmem, heq⟩ := List.mem_map.mp h
  cases heq
  obtain ⟨cells, hr, hc⟩ := mem_occurrences.mp hmem
  obtain ⟨hrow, rfl⟩ := List.getElem?_eq_some_iff.mp hr
  obtain ⟨hcol, _⟩ := List.getElem?_eq_some_iff.mp hc
  exact ⟨hrow, Nat.lt_of_lt_of_le hcol (length_le_columnCount (List.getElem_mem hrow))⟩

/-! ### Drafts -/

theorem draftCells_eq_ok {definitions : List Definition} {cells : List (Nat × Nat × Occurrence)}
    {drafts : List Draft} (h : draftCells definitions cells = .ok drafts) :
    drafts = cells.map fun (row, col, cell) =>
      .ofOccurrence (Draft.defined definitions cell.identifier) row col cell := by
  induction cells generalizing drafts with
  | nil =>
    cases h
    rfl
  | cons cell cells ih =>
    obtain ⟨_, _, h⟩ := Result.bind_eq_ok_iff.mp h
    obtain ⟨rest, hrest, h⟩ := Result.bind_eq_ok_iff.mp h
    cases h
    rw [List.map_cons, ← ih hrest]

/-- There is one draft for every cell that holds a node, at its place. -/
theorem places_of_drafts {d : Document} {drafts : List Draft} (h : d.drafts = .ok drafts) :
    (drafts.map fun draft => (draft.row, draft.col)) = d.places := by
  obtain ⟨_, _, h⟩ := Result.bind_eq_ok_iff.mp h
  rw [draftCells_eq_ok h, List.map_map]
  rfl

end Document
end FlowGrid
