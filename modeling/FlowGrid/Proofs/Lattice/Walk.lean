import FlowGrid.Chart

/-! Walks over the lattice. A walk is the list of its steps from a given vertex. It answers
a query if every vertex that it visits is free, it never doubles back, and it ends at the
goal with a heading from which the goal can be left as required. Its cost is its length
and a fixed charge for every turn. -/

namespace FlowGrid.Lattice

/-! ### Vertices of a walk -/

namespace Vertex

/-- The vertices that the steps lead to, one after the other. -/
def visits (v : Vertex) : List Heading → List Vertex
  | [] => []
  | h :: steps => v.move h :: (v.move h).visits steps

/-- All vertices of a walk, its first one included. -/
def trace (v : Vertex) (steps : List Heading) : List Vertex := v :: v.visits steps

/-- The last vertex of a walk. -/
def after (v : Vertex) : List Heading → Vertex
  | [] => v
  | h :: steps => (v.move h).after steps

theorem visits_append (v : Vertex) (a b : List Heading) :
    v.visits (a ++ b) = v.visits a ++ (v.after a).visits b := by
  induction a generalizing v with
  | nil => rfl
  | cons h a ih => simp only [List.cons_append, visits, after, ih]

theorem after_append (v : Vertex) (a b : List Heading) :
    v.after (a ++ b) = (v.after a).after b := by
  induction a generalizing v with
  | nil => rfl
  | cons h a ih => simp only [List.cons_append, after, ih]

theorem trace_concat (v : Vertex) (steps : List Heading) (h : Heading) :
    v.trace (steps ++ [h]) = v.trace steps ++ [(v.after steps).move h] := by
  simp only [trace, visits_append, visits, List.cons_append]

theorem getLast?_trace (v : Vertex) (steps : List Heading) :
    (v.trace steps).getLast? = some (v.after steps) := by
  induction steps generalizing v with
  | nil => rfl
  | cons h steps ih => rw [trace, visits, List.getLast?_cons_cons, ← trace, ih, after]

end Vertex

/-! ### Turns -/

namespace Heading

/-- The number of turns of a list of headings that comes after `h`. -/
def turns (h : Heading) : List Heading → Nat
  | [] => 0
  | k :: rest => (if k = h then 0 else 1) + k.turns rest

/-- No heading of the list after `h` reverses the one before it. -/
def Forward (h : Heading) : List Heading → Prop
  | [] => True
  | k :: rest => k ≠ h.reverse ∧ k.Forward rest

theorem turns_append (h : Heading) (a b : List Heading) :
    h.turns (a ++ b) = h.turns a + (a.getLastD h).turns b := by
  induction a generalizing h with
  | nil => simp only [List.nil_append, turns, List.getLastD_nil, Nat.zero_add]
  | cons k a ih =>
    simp only [List.cons_append, turns, ih, List.getLastD_cons]
    omega

theorem forward_append (h : Heading) (a b : List Heading) :
    h.Forward (a ++ b) ↔ h.Forward a ∧ (a.getLastD h).Forward b := by
  induction a generalizing h with
  | nil => simp only [List.nil_append, Forward, List.getLastD_nil, true_and]
  | cons k a ih => simp only [List.cons_append, Forward, ih, List.getLastD_cons, and_assoc]

theorem ne_reverse_comm {h k : Heading} : h ≠ k.reverse ↔ k ≠ h.reverse := by
  constructor <;> rintro hne rfl <;> exact hne (reverse_reverse _).symm

end Heading

/-! ### Answers to a query -/

namespace Query

/-- The vertex lies on the lattice of the grid and is not the center of an occupied cell. -/
def Free (q : Query) (v : Vertex) : Prop :=
  (0 ≤ v.x ∧ v.x ≤ 2 * q.grid.cols) ∧ (0 ≤ v.y ∧ v.y ≤ 2 * q.grid.rows) ∧
    ∀ row col, v = .ofCell row col → q.grid.get? row col = none

/-- The steps are those of a walk from the start of the query that answers it. -/
structure IsWalk (q : Query) (steps : List Heading) : Prop where
  unit : ∀ h ∈ steps, h ∈ Heading.steps
  free : ∀ v ∈ q.start.visits steps, q.Free v
  arrives : q.start.after steps = q.goal
  forward : q.startHeading.Forward (steps ++ [q.goalHeading])

/-- The turns of a walk, those from the required heading at its start and to the one at its
end included. -/
def turns (q : Query) (steps : List Heading) : Nat :=
  q.startHeading.turns (steps ++ [q.goalHeading])

def cost (q : Query) (steps : List Heading) : Nat := steps.length + turnCost * q.turns steps

theorem inside_iff (q : Query) (v : Vertex) : q.inside v = true ↔
    (0 ≤ v.x ∧ v.x ≤ 2 * q.grid.cols) ∧ 0 ≤ v.y ∧ v.y ≤ 2 * q.grid.rows := by
  simp only [inside, Bool.and_eq_true, decide_eq_true_eq]
  unfold width height
  omega

theorem eq_ofCell_iff (v : Vertex) (row col : Int) : v = .ofCell row col ↔
    (v.x % 2 ≠ 0 ∧ v.y % 2 ≠ 0) ∧ row = v.y / 2 ∧ col = v.x / 2 := by
  cases v
  simp only [Vertex.ofCell, Vertex.mk.injEq]
  omega

theorem isOccupied_eq_false_iff (q : Query) (v : Vertex) : q.isOccupied v = false ↔
    ∀ row col, v = .ofCell row col → q.grid.get? row col = none := by
  simp only [eq_ofCell_iff, isOccupied, Bool.and_eq_false_iff, bne_eq_false_iff_eq,
    Option.isSome_eq_false_iff, Option.isNone_iff_eq_none]
  constructor
  · rintro ((hx | hy) | hf) row col ⟨⟨hox, hoy⟩, rfl, rfl⟩
    · exact absurd hx hox
    · exact absurd hy hoy
    · exact hf
  · intro hf
    by_cases hx : v.x % 2 = 0
    · exact .inl (.inl hx)
    by_cases hy : v.y % 2 = 0
    · exact .inl (.inr hy)
    exact .inr (hf _ _ ⟨⟨hx, hy⟩, rfl, rfl⟩)

theorem isOpen_iff (q : Query) (v : Vertex) : q.isOpen v = true ↔ q.Free v := by
  rw [isOpen, Bool.and_eq_true, Bool.not_eq_true', inside_iff, isOccupied_eq_false_iff, Free,
    and_assoc]

end Query
end FlowGrid.Lattice
