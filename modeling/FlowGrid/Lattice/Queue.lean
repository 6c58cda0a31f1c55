import FlowGrid.Lattice.Basic

/-! A queue of lattice states, the cheapest first and the earliest of equally cheap ones
first. It is a skew heap: two heaps are merged along their right spines, and the
branches of every node on the way change places. Main statement: merging and popping
keep the weight, which bounds the number of steps that a search can still take. -/

namespace FlowGrid.Lattice

/-- A vertex with the heading in which it was reached. -/
structure State where
  vertex : Vertex
  heading : Heading
deriving DecidableEq, Repr, Hashable

/-- A state that waits for its turn, or one that has arrived at the goal and waits for
every cheaper state to have had its turn. -/
structure Entry where
  cost : Nat
  order : Nat
  state : State
  arrived : Bool
deriving DecidableEq, Repr

namespace Entry

def precedes (a b : Entry) : Bool := a.cost < b.cost || (a.cost = b.cost && a.order < b.order)

/-- A waiting state can put one arrived state into the queue, so it weighs more. -/
def weight (e : Entry) : Nat := if e.arrived then 1 else 2

theorem weight_pos (e : Entry) : 0 < e.weight := by
  unfold weight; split <;> decide

end Entry

inductive Queue
  | empty
  | node (top : Entry) (left right : Queue)

namespace Queue

def size : Queue → Nat
  | .empty => 0
  | .node _ left right => left.size + right.size + 1

def weight : Queue → Nat
  | .empty => 0
  | .node top left right => top.weight + left.weight + right.weight

def merge : Queue → Queue → Queue
  | .empty, q => q
  | p, .empty => p
  | .node a left right, .node b left' right' =>
    if b.precedes a then .node b (merge (.node a left right) right') left'
    else .node a (merge right (.node b left' right')) left
termination_by p q => p.size + q.size
decreasing_by all_goals simp only [size]; omega

def push (q : Queue) (e : Entry) : Queue := merge (.node e .empty .empty) q

/-- The first entry and the queue without it. -/
def pop? : Queue → Option (Entry × Queue)
  | .empty => none
  | .node top left right => some (top, merge left right)

theorem weight_merge (p q : Queue) : (merge p q).weight = p.weight + q.weight := by
  fun_induction merge p q with
  | case1 => simp [weight]
  | case2 => simp [weight]
  | case3 a left right b left' right' _ ih => simp only [weight] at ih ⊢; omega
  | case4 a left right b left' right' _ ih => simp only [weight] at ih ⊢; omega

theorem weight_push (q : Queue) (e : Entry) : (q.push e).weight = e.weight + q.weight := by
  simp [push, weight_merge, weight]

theorem weight_of_pop? {q rest : Queue} {e : Entry} (h : q.pop? = some (e, rest)) :
    q.weight = e.weight + rest.weight := by
  cases q with
  | empty => cases h
  | node top left right =>
    cases h
    simp [weight, weight_merge, Nat.add_assoc]

end Queue
end FlowGrid.Lattice
