import FlowGrid.Grid
import FlowGrid.Lattice.Queue

/-! The search for a route over the lattice: fewest turns first, then fewest steps. States
are settled in the order of their costs. Every state that was reached carries the
cheapest walk to it so far; a state found again at a lower cost is queued again, and
its older entry is skipped. A state that can leave the goal as required is queued once
more, at the cost of a last turn, so that the first one to come up is the best.

The search ends because every round does one of three things: it reaches a new state,
it makes a reached one cheaper, or it takes weight from the queue. -/

namespace FlowGrid.Lattice

/-- A route is sought from `start`, moving along `startHeading`, to `goal`, where it has to
be able to go on along `goalHeading`. -/
structure Query where
  grid : Grid Nat
  start : Vertex
  startHeading : Heading
  goal : Vertex
  goalHeading : Heading

/-- The cheapest walk to a state so far, its last vertex first, and its cost. -/
structure Label where
  cost : Nat
  trail : List Vertex
deriving DecidableEq, Repr

structure Search where
  labels : Std.HashMap State Label
  queue : Queue
  clock : Nat

/-- A turn costs more than any number of steps it could save. -/
def turnCost : Nat := 10000

def costOfTurn (before after : Heading) : Nat := if after = before then 0 else turnCost

namespace Search

/-- Puts a state into the queue. -/
def enqueue (s : Search) (cost : Nat) (state : State) (arrived : Bool) : Search :=
  { s with queue := s.queue.push ⟨cost, s.clock, state, arrived⟩, clock := s.clock + 1 }

/-- Notes a walk to a state, if it is the cheapest so far. -/
def record (s : Search) (state : State) (label : Label) : Search :=
  match s.labels[state]? with
  | some old =>
    if label.cost < old.cost then
      { s with labels := s.labels.insert state label }.enqueue label.cost state false
    else s
  | none => { s with labels := s.labels.insert state label }.enqueue label.cost state false

end Search

namespace Query

def width (q : Query) : Int := 2 * q.grid.cols + 1

def height (q : Query) : Int := 2 * q.grid.rows + 1

def inside (q : Query) (v : Vertex) : Bool :=
  0 ≤ v.x && v.x < q.width && 0 ≤ v.y && v.y < q.height

/-- The vertex is the center of a cell that holds a node. -/
def isOccupied (q : Query) (v : Vertex) : Bool :=
  v.x % 2 != 0 && v.y % 2 != 0 && (q.grid.get? (v.y / 2) (v.x / 2)).isSome

def isOpen (q : Query) (v : Vertex) : Bool := q.inside v && !q.isOccupied v

def initial (q : Query) : Search :=
  let state : State := ⟨q.start, q.startHeading⟩
  { labels := (∅ : Std.HashMap State Label).insert state ⟨0, [q.start]⟩
    queue := Queue.empty.push ⟨0, 0, state, false⟩
    clock := 1 }

/-- Queues a state as arrived, if the route can end with it. -/
def arrive (q : Query) (state : State) (label : Label) (s : Search) : Search :=
  if state.vertex = q.goal ∧ state.heading ≠ q.goalHeading.reverse then
    s.enqueue (label.cost + costOfTurn state.heading q.goalHeading) state true
  else s

/-- Extends the walk to a state by one step, unless it doubles back or is blocked. -/
def extend (q : Query) (state : State) (label : Label) (s : Search) (step : Heading) : Search :=
  let v := state.vertex.move step
  if step ≠ state.heading.reverse ∧ q.isOpen v then
    s.record ⟨v, step⟩ ⟨label.cost + 1 + costOfTurn state.heading step, v :: label.trail⟩
  else s

inductive Outcome
  | blocked
  | arrived (walk : List Vertex)
  | continues (s : Search)

/-- Settles the first state of the queue. -/
def settle (q : Query) (s : Search) : Outcome :=
  match s.queue.pop? with
  | none => .blocked
  | some (e, queue) =>
    match s.labels[e.state]? with
    | none => .continues { s with queue }
    | some label =>
      if e.arrived then .arrived label.trail.reverse
      else if label.cost < e.cost then .continues { s with queue }
      else
        .continues (Heading.steps.foldl (q.extend e.state label)
          (q.arrive e.state label { s with queue }))

/-! ### The search ends -/

/-- All states that a step inside the lattice can reach. -/
def states (q : Query) : List State :=
  (List.range q.width.toNat).flatMap fun (x : Nat) =>
    (List.range q.height.toNat).flatMap fun (y : Nat) =>
      Heading.steps.map fun step => ⟨⟨x, y⟩, step⟩

theorem mem_states {q : Query} {v : Vertex} {step : Heading} (hv : q.inside v = true)
    (hs : step ∈ Heading.steps) : (⟨v, step⟩ : State) ∈ q.states := by
  simp only [inside, Bool.and_eq_true, decide_eq_true_eq] at hv
  simp only [states, List.mem_flatMap, List.mem_range, List.mem_map]
  refine ⟨v.x.toNat, by omega, v.y.toNat, by omega, step, hs, ?_⟩
  have hx : (v.x.toNat : Int) = v.x := by omega
  have hy : (v.y.toNat : Int) = v.y := by omega
  rw [hx, hy]

/-- How many of the states have not been reached. -/
def unreached (labels : Std.HashMap State Label) (states : List State) : Nat :=
  states.countP fun t => !labels.contains t

/-- The sum of the costs at which the states have been reached. -/
def totalCost (labels : Std.HashMap State Label) (states : List State) : Nat :=
  states.foldr (fun t sum => ((labels[t]?).map Label.cost).getD 0 + sum) 0

/-- Some state is reached for the first time, or none is and some became cheaper. -/
def Improves (states : List State) (before after : Std.HashMap State Label) : Prop :=
  unreached after states < unreached before states ∨
    (unreached after states = unreached before states ∧
      totalCost after states < totalCost before states)

theorem Improves.trans {states : List State} {a b c : Std.HashMap State Label}
    (h : Improves states a b) (k : Improves states b c) : Improves states a c := by
  unfold Improves at *
  omega

theorem unreached_insert_le (labels : Std.HashMap State Label) (t : State) (label : Label)
    (states : List State) : unreached (labels.insert t label) states ≤ unreached labels states := by
  unfold unreached
  apply List.countP_mono_left
  intro x _ hx
  simp only [Std.HashMap.contains_insert, Bool.not_eq_true', Bool.or_eq_false_iff] at hx ⊢
  exact hx.2

theorem unreached_insert_lt {labels : Std.HashMap State Label} {t : State} (label : Label)
    {states : List State} (ht : t ∈ states) (hn : labels[t]? = none) :
    unreached (labels.insert t label) states < unreached labels states := by
  have hc : labels.contains t = false := by
    rw [Std.HashMap.contains_eq_isSome_getElem?, hn]; rfl
  induction states with
  | nil => cases ht
  | cons x rest ih =>
    have hle := unreached_insert_le labels t label rest
    unfold unreached at ih hle ⊢
    simp only [List.countP_cons]
    by_cases hx : x = t
    · subst hx
      have h1 : (labels.insert x label).contains x = true := by simp
      simp only [h1, hc, Bool.not_true, Bool.false_eq_true, if_false, Bool.not_false, if_true]
      omega
    · have hr : t ∈ rest := by
        cases ht with
        | head => exact absurd rfl hx
        | tail _ h => exact h
      have hi := ih hr
      have he : (labels.insert t label).contains x = labels.contains x := by
        have : (t == x) = false := by simpa using fun h => hx h.symm
        rw [Std.HashMap.contains_insert, this, Bool.false_or]
      rw [he]
      omega

theorem cost_insert_le {labels : Std.HashMap State Label} {t : State} {label old : Label}
    (ho : labels[t]? = some old) (hl : label.cost < old.cost) (x : State) :
    (((labels.insert t label)[x]?).map Label.cost).getD 0 ≤
      ((labels[x]?).map Label.cost).getD 0 := by
  rw [Std.HashMap.getElem?_insert]
  by_cases hx : t = x
  · subst hx
    simp [ho]
    omega
  · simp [hx]

theorem totalCost_insert_lt {labels : Std.HashMap State Label} {t : State} {label old : Label}
    {states : List State} (ht : t ∈ states) (ho : labels[t]? = some old)
    (hl : label.cost < old.cost) :
    totalCost (labels.insert t label) states < totalCost labels states := by
  have hle (l : List State) : totalCost (labels.insert t label) l ≤ totalCost labels l := by
    induction l with
    | nil => exact Nat.le_refl _
    | cons x rest ih =>
      have := cost_insert_le ho hl x
      simp only [totalCost, List.foldr_cons] at ih ⊢
      omega
  induction states with
  | nil => cases ht
  | cons x rest ih =>
    have hx := cost_insert_le ho hl x
    have hrest := hle rest
    simp only [totalCost, List.foldr_cons] at ih hrest ⊢
    by_cases he : x = t
    · subst he
      have : (((labels.insert x label)[x]?).map Label.cost).getD 0 = label.cost := by simp
      have : ((labels[x]?).map Label.cost).getD 0 = old.cost := by simp [ho]
      omega
    · have hr : t ∈ rest := by
        cases ht with
        | head => exact absurd rfl he
        | tail _ h => exact h
      have := ih hr
      omega

theorem unreached_insert_of_some {labels : Std.HashMap State Label} {t : State} {old : Label}
    (label : Label) (states : List State) (ho : labels[t]? = some old) :
    unreached (labels.insert t label) states = unreached labels states := by
  have hc : labels.contains t = true := by
    rw [Std.HashMap.contains_eq_isSome_getElem?, ho]; rfl
  unfold unreached
  congr 1
  funext x
  by_cases hx : t = x
  · subst hx; simp [hc]
  · simp [Std.HashMap.contains_insert, hx]

theorem record_eq_or_improves {states : List State} {t : State} (ht : t ∈ states)
    (s : Search) (label : Label) :
    s.record t label = s ∨ Improves states s.labels (s.record t label).labels := by
  unfold Search.record
  split
  · rename_i old ho
    split
    · rename_i hl
      exact .inr (.inr ⟨unreached_insert_of_some label states ho, totalCost_insert_lt ht ho hl⟩)
    · exact .inl rfl
  · rename_i hn
    exact .inr (.inl (unreached_insert_lt label ht hn))

theorem extend_eq_or_improves (q : Query) (state : State) (label : Label) (s : Search)
    {step : Heading} (hs : step ∈ Heading.steps) :
    q.extend state label s step = s ∨
      Improves q.states s.labels (q.extend state label s step).labels := by
  unfold extend
  simp only []
  split
  · rename_i h
    have hi : q.inside (state.vertex.move step) = true := by
      have := h.2
      simp only [isOpen, Bool.and_eq_true] at this
      exact this.1
    exact record_eq_or_improves (mem_states hi hs) s _
  · exact .inl rfl

theorem foldl_extend_eq_or_improves (q : Query) (state : State) (label : Label)
    (steps : List Heading) (hs : ∀ step ∈ steps, step ∈ Heading.steps) (s : Search) :
    steps.foldl (q.extend state label) s = s ∨
      Improves q.states s.labels (steps.foldl (q.extend state label) s).labels := by
  induction steps generalizing s with
  | nil => exact .inl rfl
  | cons step rest ih =>
    rw [List.foldl_cons]
    have hr := ih (fun t ht => hs t (.tail _ ht)) (q.extend state label s step)
    rcases extend_eq_or_improves q state label s (hs step (.head _)) with he | hi
    · rw [he] at hr ⊢
      exact hr
    · rcases hr with he | hj
      · rw [he]
        exact .inr hi
      · exact .inr (hi.trans hj)

theorem arrive_labels (q : Query) (state : State) (label : Label) (s : Search) :
    (q.arrive state label s).labels = s.labels := by
  unfold arrive; split <;> rfl

theorem arrive_weight_le (q : Query) (state : State) (label : Label) (s : Search) :
    (q.arrive state label s).queue.weight ≤ s.queue.weight + 1 := by
  unfold arrive
  split
  · simp only [Search.enqueue, Queue.weight_push, Entry.weight, if_true]
    omega
  · omega

/-- A round that goes on improves the labels, or keeps them and takes weight from the queue. -/
theorem settle_progresses {q : Query} {s next : Search} (h : q.settle s = .continues next) :
    Improves q.states s.labels next.labels ∨
      (next.labels = s.labels ∧ next.queue.weight < s.queue.weight) := by
  unfold settle at h
  split at h
  · cases h
  · rename_i e queue hp
    have hw := Queue.weight_of_pop? hp
    have he := e.weight_pos
    split at h
    · cases h
      exact .inr ⟨rfl, by simp only []; omega⟩
    · rename_i label _
      split at h
      · cases h
      · rename_i ha
        split at h
        · cases h
          exact .inr ⟨rfl, by simp only []; omega⟩
        · cases h
          have hl := arrive_labels q e.state label { s with queue }
          have hq := arrive_weight_le q e.state label { s with queue }
          rcases foldl_extend_eq_or_improves q e.state label Heading.steps (fun _ h => h)
            (q.arrive e.state label { s with queue }) with heq | hi
          · rw [heq]
            refine .inr ⟨hl, ?_⟩
            have h2 : e.weight = 2 := by simp [Entry.weight, ha]
            simp only [] at hq
            omega
          · rw [hl] at hi
            exact .inl hi

/-- Settles states until the goal is left as required or no state is left. -/
def run (q : Query) (s : Search) : Option (List Vertex) :=
  match _h : q.settle s with
  | .blocked => none
  | .arrived walk => some walk
  | .continues next => q.run next
termination_by (unreached s.labels q.states, totalCost s.labels q.states, s.queue.weight)
decreasing_by
  rcases settle_progresses _h with (hi | ⟨he, hc⟩) | ⟨hl, hw⟩
  · exact Prod.Lex.left _ _ hi
  · rw [he]
    exact Prod.Lex.right _ (Prod.Lex.left _ _ hc)
  · rw [hl]
    exact Prod.Lex.right _ (Prod.Lex.right _ hw)

/-- The vertices of the best route, if there is one. -/
def route? (q : Query) : Option (List Vertex) := q.run q.initial

end Query
end FlowGrid.Lattice
