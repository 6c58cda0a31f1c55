import FlowGrid.Geometry.Arrowhead
import FlowGrid.Proofs.Exact.Arithmetic
import FlowGrid.Proofs.Result
import Mathlib.Data.List.Chain

/-! Arrowheads over exact numbers. The axis of an arrowhead has a direction whenever its apex
and the point before it differ, so a path without repeated points gets its arrowheads. They are
those that are asked for, each with its apex at its end of the path. -/

namespace FlowGrid

/-! ### Marks -/

section Marks

variable {α : Type}

/-- What an arrowhead marks: an end of a path and the point there. -/
def Arrowhead.mark (a : Arrowhead α) : Terminal × Point α := (a.terminal, a.apex)

/-- The ends of a path from `first` to `last` that are marked, in order. -/
def Arrowheads.marks (first last : Point α) : Arrowheads → List (Terminal × Point α)
  | .none => []
  | .start => [(.start, first)]
  | .finish => [(.finish, last)]
  | .both => [(.start, first), (.finish, last)]

namespace Arrowhead

theorem exists_cons_cons {l : List α} (h : 2 ≤ l.length) : ∃ a b rest, l = a :: b :: rest := by
  match l, h with
  | a :: b :: rest, _ => exact ⟨a, b, rest, rfl⟩

variable [Scalar α] {terminal : Terminal} {apex previous : Point α} {size : α}

theorem mark_of_pointingFrom {a : Arrowhead α}
    (h : pointingFrom terminal apex previous size = .ok a) : a.mark = (terminal, apex) := by
  obtain ⟨ux, -, h⟩ := Result.bind_eq_ok_iff.mp h
  obtain ⟨uy, -, h⟩ := Result.bind_eq_ok_iff.mp h
  cases h
  rfl

theorem map_mark_of_ifWanted {wanted : Bool} {heads : List (Arrowhead α)}
    (h : ifWanted wanted terminal apex previous size = .ok heads) :
    heads.map mark = if wanted then [(terminal, apex)] else [] := by
  cases wanted with
  | false =>
    cases h
    rfl
  | true =>
    obtain ⟨a, ha, rfl⟩ := Result.map_eq_ok_iff.mp h
    simp [mark_of_pointingFrom ha]

/-- A path of two points or more has the arrowheads that are asked for, each with its apex at its
end of the path; any other one has none. -/
theorem map_mark_of_ofPath {points : List (Point α)} {ends : Arrowheads}
    {heads : List (Arrowhead α)} (h : ofPath points ends size = .ok heads) {first last : Point α}
    (hfirst : points.head? = some first) (hlast : points.getLast? = some last) :
    heads.map mark = if 2 ≤ points.length then ends.marks first last else [] := by
  rw [← List.head?_reverse] at hlast
  unfold ofPath at h
  split at h
  · rename_i heq
    rw [heq] at hlast
    cases hfirst
    cases hlast
    obtain ⟨atStart, hs, h⟩ := Result.bind_eq_ok_iff.mp h
    obtain ⟨atFinish, hf, h⟩ := Result.bind_eq_ok_iff.mp h
    cases h
    rw [if_pos (by simp), List.map_append, map_mark_of_ifWanted hs, map_mark_of_ifWanted hf]
    cases ends <;> rfl
  · rename_i hshort
    cases h
    rw [if_neg, List.map_nil]
    intro hlength
    obtain ⟨a, b, rest, heq⟩ := exists_cons_cons hlength
    obtain ⟨c, d, rest', heq'⟩ := exists_cons_cons (List.length_reverse.symm ▸ hlength)
    exact hshort a b rest c d rest' heq heq'

end Arrowhead

end Marks

/-! ### Paths without repeated points -/

namespace Arrowhead

theorem length_ne_zero {p q : Point ℝ} (h : p ≠ q) :
    Scalar.length (p.x - q.x) (p.y - q.y) ≠ 0 := by
  have hne : p.x - q.x ≠ 0 ∨ p.y - q.y ≠ 0 := by
    by_contra! hc
    apply h
    cases p
    cases q
    rw [Point.mk.injEq]
    exact ⟨sub_eq_zero.mp hc.1, sub_eq_zero.mp hc.2⟩
  have hpos : 0 < (p.x - q.x) ^ 2 + (p.y - q.y) ^ 2 := by
    rcases hne with h | h <;> positivity
  exact (Real.sqrt_pos.mpr hpos).ne'

theorem exists_pointingFrom (terminal : Terminal) {apex previous : Point ℝ} (h : apex ≠ previous)
    (size : ℝ) : ∃ a, pointingFrom terminal apex previous size = .ok a := by
  have hlength := length_ne_zero h
  simp only [pointingFrom, Scalar.quotient_real _ hlength]
  exact ⟨_, rfl⟩

theorem exists_ifWanted (wanted : Bool) (terminal : Terminal) {apex previous : Point ℝ}
    (h : apex ≠ previous) (size : ℝ) :
    ∃ l, ifWanted wanted terminal apex previous size = .ok l := by
  obtain ⟨a, ha⟩ := exists_pointingFrom terminal h size
  cases wanted with
  | false => exact ⟨[], rfl⟩
  | true => exact ⟨[a], by rw [ifWanted, if_pos rfl, ha]; rfl⟩

/-- A path without repeated points has arrowheads as wanted. -/
theorem exists_ofPath {points : List (Point ℝ)} (h : points.IsChain (· ≠ ·)) (ends : Arrowheads)
    (size : ℝ) : ∃ l, ofPath points ends size = .ok l := by
  have hreverse : points.reverse.IsChain (· ≠ ·) :=
    List.isChain_reverse.mpr (h.imp fun _ _ => Ne.symm)
  unfold ofPath
  split
  · rename_i first second _ last previous _ heq
    rw [heq] at hreverse
    obtain ⟨a, ha⟩ := exists_ifWanted ends.atStart .start (List.isChain_cons_cons.mp h).1 size
    obtain ⟨b, hb⟩ := exists_ifWanted ends.atFinish .finish (List.isChain_cons_cons.mp hreverse).1
      size
    exact ⟨a ++ b, by rw [ha, hb]; rfl⟩
  · exact ⟨[], rfl⟩

end Arrowhead
end FlowGrid
