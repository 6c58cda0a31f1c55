import FlowGrid.Grid
import FlowGrid.Proofs.Result

/-! Filling a grid. It succeeds when all cells lie within the bounds, and distinct cells then
hold the indices of their turns, while all other ones keep what they held. -/

namespace FlowGrid.Grid

theorem place_eq_ok_iff {α : Type} {g placed : Grid α} {row col : Int} {value : α} :
    g.place row col value = .ok placed ↔
      g.inBounds row col = true ∧ placed = { g with cells := g.cells.insert (row, col) value } := by
  by_cases hin : g.inBounds row col = true
  · rw [place, if_pos hin, Except.ok.injEq, eq_comm, and_iff_right hin]
  · rw [place, if_neg hin]
    exact ⟨nofun, fun h => absurd h.1 hin⟩

variable {g placed : Grid Nat} {index : Nat} {positions : List (Int × Int)}

theorem placeFrom_cons {p : Int × Int} (h : g.placeFrom index (p :: positions) = .ok placed) :
    ∃ next, g.place p.1 p.2 index = .ok next ∧ next.placeFrom (index + 1) positions = .ok placed :=
  Result.bind_eq_ok_iff.mp h

theorem limits_of_placeFrom (h : g.placeFrom index positions = .ok placed) :
    placed.rows = g.rows ∧ placed.cols = g.cols := by
  induction positions generalizing g index with
  | nil =>
    cases h
    exact ⟨rfl, rfl⟩
  | cons p positions ih =>
    obtain ⟨next, hp, hrest⟩ := placeFrom_cons h
    obtain ⟨_, rfl⟩ := place_eq_ok_iff.mp hp
    have hlimits := ih hrest
    exact hlimits

theorem get?_of_placeFrom_of_notMem (h : g.placeFrom index positions = .ok placed)
    {row col : Int} (hn : (row, col) ∉ positions) : placed.get? row col = g.get? row col := by
  induction positions generalizing g index with
  | nil =>
    cases h
    rfl
  | cons p positions ih =>
    obtain ⟨next, hp, hrest⟩ := placeFrom_cons h
    rw [List.mem_cons, not_or] at hn
    rw [ih hrest hn.2, get?_of_place hp, if_neg]
    rintro ⟨rfl, rfl⟩
    exact hn.1 rfl

/-- Distinct cells keep the values that are put into them. -/
theorem get?_of_placeFrom (h : g.placeFrom index positions = .ok placed)
    (hn : positions.Nodup) {i : Nat} {row col : Int} (hi : positions[i]? = some (row, col)) :
    placed.get? row col = some (index + i) := by
  induction positions generalizing g index i with
  | nil => cases hi
  | cons p positions ih =>
    obtain ⟨next, hp, hrest⟩ := placeFrom_cons h
    obtain ⟨hfirst, hn⟩ := List.nodup_cons.mp hn
    cases i with
    | zero =>
      obtain rfl : p = (row, col) := Option.some.inj hi
      rw [get?_of_placeFrom_of_notMem hrest hfirst, get?_of_place hp, if_pos ⟨rfl, rfl⟩,
        Nat.add_zero]
    | succ i =>
      rw [ih hrest hn hi]
      congr 1
      omega

theorem exists_placeFrom (h : ∀ p ∈ positions, g.inBounds p.1 p.2 = true) :
    ∃ placed, g.placeFrom index positions = .ok placed := by
  induction positions generalizing g index with
  | nil => exact ⟨g, rfl⟩
  | cons p positions ih =>
    obtain ⟨next, hp⟩ : ∃ next, g.place p.1 p.2 index = .ok next :=
      ⟨_, place_eq_ok_iff.mpr ⟨h p (.head _), rfl⟩⟩
    obtain ⟨_, hnext⟩ := place_eq_ok_iff.mp hp
    have hin : ∀ q ∈ positions, next.inBounds q.1 q.2 = true := by
      rw [hnext]
      exact fun q hq => h q (.tail _ hq)
    obtain ⟨placed, hrest⟩ := ih hin
    exact ⟨placed, Result.bind_eq_ok_iff.mpr ⟨_, hp, hrest⟩⟩

end FlowGrid.Grid
