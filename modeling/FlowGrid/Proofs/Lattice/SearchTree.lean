import FlowGrid.Proofs.Lattice.Invariant
import Mathlib.Logic.Relation

/-! The search with a table of parents. Instead of the walk to a state it keeps the cost and
the state before it, and both are overwritten when the state is reached at a lower cost, while
older entries of the queue still wait. What comes up never becomes cheaper, so a state that
costs no more than what came up last is never reached at a lower cost again. The parent of any
state is such a state: it had come up itself when it was noted. -/

namespace FlowGrid.Lattice

/-- The states that have been reached, each with its cost and the state before it. -/
structure SearchTree where
  best : Std.HashMap State Nat
  parents : Std.HashMap State (Option State)
  queue : Queue
  clock : Nat

def Query.origin (q : Query) : State := ⟨q.start, q.startHeading⟩

namespace SearchTree

/-! ### Rounds -/

/-- Puts a state into the queue. -/
def enqueue (s : SearchTree) (cost : Nat) (t : State) (arrived : Bool) : SearchTree :=
  { s with queue := s.queue.push ⟨cost, s.clock, t, arrived⟩, clock := s.clock + 1 }

/-- Notes the parent of a state, if the state has not been reached at such a low cost. -/
def record (s : SearchTree) (parent t : State) (cost : Nat) : SearchTree :=
  if (s.best[t]?).all (cost < ·) then
    { s with best := s.best.insert t cost, parents := s.parents.insert t (some parent) }.enqueue
      cost t false
  else s

def initial (q : Query) : SearchTree where
  best := (∅ : Std.HashMap State Nat).insert q.origin 0
  parents := (∅ : Std.HashMap State (Option State)).insert q.origin none
  queue := Queue.empty.push ⟨0, 0, q.origin, false⟩
  clock := 1

/-- Queues a state as arrived, if the route can end with it. -/
def arrive (q : Query) (t : State) (cost : Nat) (s : SearchTree) : SearchTree :=
  if t.vertex = q.goal ∧ t.heading ≠ q.goalHeading.reverse then
    s.enqueue (cost + costOfTurn t.heading q.goalHeading) t true
  else s

/-- Takes one step from a state, unless it doubles back or is blocked. -/
def extend (q : Query) (t : State) (cost : Nat) (s : SearchTree) (h : Heading) : SearchTree :=
  if h ≠ t.heading.reverse ∧ q.isOpen (t.vertex.move h) then
    s.record t (t.next h) (cost + 1 + costOfTurn t.heading h)
  else s

/-- Takes all steps from a state. -/
def expand (q : Query) (t : State) (cost : Nat) (s : SearchTree) : SearchTree :=
  Heading.steps.foldl (extend q t cost) (arrive q t cost s)

inductive Outcome
  | blocked
  | arrived (t : State) (cost : Nat)
  | continues (s : SearchTree)

/-- Settles the first state of the queue. A state without a cost cannot be settled. -/
def settle (q : Query) (s : SearchTree) : Option Outcome :=
  match s.queue.pop? with
  | none => some .blocked
  | some (e, queue) =>
    if e.arrived then some (.arrived e.state e.cost)
    else (s.best[e.state]?).map fun cost =>
      if cost < e.cost then .continues { s with queue }
      else .continues (expand q e.state e.cost { s with queue })

/-- Rounds lead from one tree to the other. -/
def Grows (q : Query) : SearchTree → SearchTree → Prop :=
  Relation.ReflTransGen fun s next => s.settle q = some (.continues next)

/-- The first state of the queue is one that the next round takes all steps from. -/
def Expands (s : SearchTree) (t : State) : Prop :=
  ∃ e rest cost, s.queue.pop? = some (e, rest) ∧ e.state = t ∧ e.arrived = false ∧
    s.best[t]? = some cost ∧ e.cost ≤ cost

/-! ### What is kept -/

/-- States that cost no more than `floor` keep their costs and their parents. -/
def Keeps (floor : Nat) (s s' : SearchTree) : Prop :=
  ∀ (t : State) cost, s.best[t]? = some cost → cost ≤ floor →
    s'.best[t]? = some cost ∧ s'.parents[t]? = s.parents[t]?

theorem Keeps.refl (floor : Nat) (s : SearchTree) : s.Keeps floor s :=
  fun _ _ hb _ => ⟨hb, rfl⟩

theorem Keeps.trans {floor : Nat} {a b c : SearchTree} (hab : a.Keeps floor b)
    (hbc : b.Keeps floor c) : a.Keeps floor c := by
  intro t cost hb hle
  obtain ⟨hb', hp⟩ := hab t cost hb hle
  obtain ⟨hb'', hp'⟩ := hbc t cost hb' hle
  exact ⟨hb'', hp'.trans hp⟩

theorem Keeps.mono {floor floor' : Nat} {s s' : SearchTree} (hk : s.Keeps floor' s')
    (hle : floor ≤ floor') : s.Keeps floor s' :=
  fun t cost hb hc => hk t cost hb (Nat.le_trans hc hle)

/-- A state is noted with a parent and queued, unless it was reached at no higher cost. -/
theorem record_cases (s : SearchTree) (parent t : State) (cost : Nat) :
    (∃ old, s.best[t]? = some old ∧ old ≤ cost ∧ s.record parent t cost = s) ∨
    ((∀ old, s.best[t]? = some old → cost < old) ∧
      s.record parent t cost = enqueue { s with
        best := s.best.insert t cost, parents := s.parents.insert t (some parent) } cost t false) := by
  unfold record
  cases hb : s.best[t]? with
  | none => exact .inr ⟨nofun, rfl⟩
  | some old =>
    by_cases hlt : cost < old
    · refine .inr ⟨?_, if_pos (by simpa using hlt)⟩
      rintro _ ⟨⟩
      exact hlt
    · exact .inl ⟨old, rfl, Nat.le_of_not_lt hlt, if_neg (by simpa using hlt)⟩

theorem getElem?_insert_state {α : Type} (m : Std.HashMap State α) (t u : State) (a : α) :
    (m.insert t a)[u]? = if t = u then some a else m[u]? := by
  simp only [Std.HashMap.getElem?_insert, beq_iff_eq]

/-- Noting a state at more than `floor` changes nothing that costs no more than it. -/
theorem keeps_record {floor cost : Nat} (s : SearchTree) (parent t : State) (hlt : floor < cost) :
    s.Keeps floor (s.record parent t cost) := by
  rcases s.record_cases parent t cost with ⟨_, _, _, he⟩ | ⟨hlow, he⟩
  · rw [he]
    exact .refl floor s
  · rw [he]
    intro u old hb hle
    have hne : t ≠ u := by
      rintro rfl
      have := hlow old hb
      omega
    simp only [enqueue, getElem?_insert_state, if_neg hne, and_true]
    exact hb

theorem keeps_extend (q : Query) (t : State) (cost : Nat) (s : SearchTree) (h : Heading) :
    s.Keeps cost (extend q t cost s h) := by
  unfold extend
  split
  · exact keeps_record s t _ (by omega)
  · exact .refl cost s

theorem keeps_arrive (q : Query) (t : State) (cost floor : Nat) (s : SearchTree) :
    s.Keeps floor (arrive q t cost s) := by
  unfold arrive
  split
  · exact fun _ _ hb _ => ⟨hb, rfl⟩
  · exact .refl floor s

theorem keeps_foldl_extend (q : Query) (t : State) (cost : Nat) (hs : List Heading)
    (s : SearchTree) : s.Keeps cost (hs.foldl (extend q t cost) s) := by
  induction hs generalizing s with
  | nil => exact .refl cost s
  | cons h hs ih => exact (keeps_extend q t cost s h).trans (ih _)

theorem keeps_expand (q : Query) (t : State) (cost : Nat) (s : SearchTree) :
    s.Keeps cost (expand q t cost s) :=
  (keeps_arrive q t cost cost s).trans (keeps_foldl_extend q t cost _ _)

/-! ### The invariant -/

/-- The state is the origin, or it is one step away from its parent, which costs no more than
`floor`; its cost is that of the parent and the step. -/
inductive IsLinked (q : Query) (floor : Nat) (s : SearchTree) (t : State) (cost : Nat) : Prop
  | origin : t = q.origin → cost = 0 → s.parents[t]? = some none → IsLinked q floor s t cost
  | child {p : State} {h : Heading} {before : Nat} : h ∈ Heading.steps → q.Allows p h →
      t = p.next h → s.parents[t]? = some (some p) → s.best[p]? = some before → before ≤ floor →
      cost = before + 1 + costOfTurn p.heading h → IsLinked q floor s t cost

/-- What every round keeps; `floor` is the cost of what came up last. -/
structure Invariant (q : Query) (floor : Nat) (s : SearchTree) : Prop where
  ordered : s.queue.Ordered
  le_cost : ∀ e ∈ s.queue.entries, floor ≤ e.cost
  waiting : ∀ e ∈ s.queue.entries, e.arrived = false →
    ∃ cost, s.best[e.state]? = some cost ∧ cost ≤ e.cost
  arrived : ∀ e ∈ s.queue.entries, e.arrived = true → q.Accepts e.state ∧
    ∃ cost, s.best[e.state]? = some cost ∧ cost ≤ floor ∧
      e.cost = cost + costOfTurn e.state.heading q.goalHeading
  linked : ∀ t cost, s.best[t]? = some cost → IsLinked q floor s t cost

variable {q : Query} {floor cost : Nat} {s : SearchTree} {t : State}

theorem mem_entries_enqueue (s : SearchTree) (cost : Nat) (t : State) (arrived : Bool)
    (e : Entry) : e ∈ (s.enqueue cost t arrived).queue.entries ↔
      e = ⟨cost, s.clock, t, arrived⟩ ∨ e ∈ s.queue.entries := Queue.mem_entries_push _ _ _

theorem Invariant.exists_best {e : Entry} (hi : Invariant q floor s)
    (he : e ∈ s.queue.entries) : ∃ cost, s.best[e.state]? = some cost := by
  cases hea : e.arrived with
  | false =>
    obtain ⟨cost, hb, _⟩ := hi.waiting e he hea
    exact ⟨cost, hb⟩
  | true =>
    obtain ⟨_, cost, hb, _⟩ := hi.arrived e he hea
    exact ⟨cost, hb⟩

/-- A later tree keeps the link of a state that keeps its parent. -/
theorem IsLinked.keep {floor' : Nat} {s' : SearchTree} (hl : IsLinked q floor s t cost)
    (hk : s.Keeps floor s') (hle : floor ≤ floor') (hp : s'.parents[t]? = s.parents[t]?) :
    IsLinked q floor' s' t cost := by
  cases hl with
  | origin ht hc hn => exact .origin ht hc (hp.trans hn)
  | child hh ha ht hparent hb hbl hc =>
    exact .child hh ha ht (hp.trans hparent) (hk _ _ hb hbl).1 (Nat.le_trans hbl hle) hc

/-- When an entry comes up, its cost is the new floor. -/
theorem Invariant.pop {e : Entry} {rest : Queue} (hi : Invariant q floor s)
    (hp : s.queue.pop? = some (e, rest)) :
    floor ≤ e.cost ∧ Invariant q e.cost { s with queue := rest } := by
  have hmem := Queue.mem_entries_of_pop? hp
  have hfloor : floor ≤ e.cost := hi.le_cost e ((hmem e).mpr (.inl rfl))
  refine ⟨hfloor, Queue.ordered_of_pop? hi.ordered hp, ?_, ?_, ?_, ?_⟩
  · intro x hx
    exact Queue.cost_le_of_pop? hi.ordered hp ((hmem x).mpr (.inr hx))
  · intro x hx
    exact hi.waiting x ((hmem x).mpr (.inr hx))
  · intro x hx hxa
    obtain ⟨hacc, cost, hb, hle, hc⟩ := hi.arrived x ((hmem x).mpr (.inr hx)) hxa
    exact ⟨hacc, cost, hb, Nat.le_trans hle hfloor, hc⟩
  · intro t cost hb
    exact (hi.linked t cost hb).keep (.refl floor s) hfloor rfl

theorem Invariant.arrive (hi : Invariant q cost s) (hb : s.best[t]? = some cost) :
    Invariant q cost (arrive q t cost s) := by
  unfold SearchTree.arrive
  split
  · rename_i ha
    refine ⟨Queue.ordered_push hi.ordered _, ?_, ?_, ?_, ?_⟩
    · intro e he
      rcases (mem_entries_enqueue _ _ _ _ e).mp he with rfl | he
      · exact Nat.le_add_right _ _
      · exact hi.le_cost e he
    · intro e he hea
      rcases (mem_entries_enqueue _ _ _ _ e).mp he with rfl | he
      · cases hea
      · exact hi.waiting e he hea
    · intro e he hea
      rcases (mem_entries_enqueue _ _ _ _ e).mp he with rfl | he
      · exact ⟨ha, cost, hb, Nat.le_refl _, rfl⟩
      · exact hi.arrived e he hea
    · intro u c hc
      exact (hi.linked u c hc).keep (fun _ _ h _ => ⟨h, rfl⟩) (Nat.le_refl _) rfl
  · exact hi

/-- Noting a step from a state that costs `floor` keeps the invariant. -/
theorem Invariant.record {h : Heading} (hi : Invariant q cost s) (hb : s.best[t]? = some cost)
    (hh : h ∈ Heading.steps) (ha : q.Allows t h) :
    Invariant q cost (s.record t (t.next h) (cost + 1 + costOfTurn t.heading h)) := by
  have hlt : cost < cost + 1 + costOfTurn t.heading h := by omega
  have hk := keeps_record s t (t.next h) hlt
  rcases s.record_cases t (t.next h) (cost + 1 + costOfTurn t.heading h) with
    ⟨_, _, _, he⟩ | ⟨hlow, he⟩
  · rw [he]
    exact hi
  rw [he] at hk ⊢
  have hbest (u : State) : (s.best.insert (t.next h) (cost + 1 + costOfTurn t.heading h))[u]? =
      if t.next h = u then some (cost + 1 + costOfTurn t.heading h) else s.best[u]? :=
    getElem?_insert_state _ _ _ _
  refine ⟨Queue.ordered_push hi.ordered _, ?_, ?_, ?_, ?_⟩
  · intro e he
    rcases (mem_entries_enqueue _ _ _ _ e).mp he with rfl | he
    · exact Nat.le_of_lt hlt
    · exact hi.le_cost e he
  · intro e he hea
    rcases (mem_entries_enqueue _ _ _ _ e).mp he with rfl | he
    · exact ⟨_, (hbest _).trans (if_pos rfl), Nat.le_refl _⟩
    · -- an older entry of the state that has become cheaper still waits
      obtain ⟨old, hold, hle⟩ := hi.waiting e he hea
      by_cases hu : t.next h = e.state
      · have := hlow old (hu ▸ hold)
        exact ⟨_, (hbest _).trans (if_pos hu), by omega⟩
      · exact ⟨old, (hbest _).trans ((if_neg hu).trans hold), hle⟩
  · intro e he hea
    rcases (mem_entries_enqueue _ _ _ _ e).mp he with rfl | he
    · cases hea
    · obtain ⟨hacc, old, hold, hle, hc⟩ := hi.arrived e he hea
      exact ⟨hacc, old, (hk _ _ hold hle).1, hle, hc⟩
  · intro u c hc
    simp only [enqueue, hbest] at hc
    split at hc
    · rename_i hu
      cases hc
      refine .child hh ha hu.symm ?_ (hk _ _ hb (Nat.le_refl _)).1 (Nat.le_refl _) rfl
      simp only [enqueue, getElem?_insert_state, if_pos hu]
    · rename_i hu
      refine (hi.linked u c hc).keep hk (Nat.le_refl _) ?_
      simp only [enqueue, getElem?_insert_state, if_neg hu]

theorem Invariant.extend {h : Heading} (hi : Invariant q cost s) (hb : s.best[t]? = some cost)
    (hh : h ∈ Heading.steps) : Invariant q cost (extend q t cost s h) := by
  unfold SearchTree.extend
  split
  · rename_i ha
    exact hi.record hb hh ⟨ha.1, (q.isOpen_iff _).mp ha.2⟩
  · exact hi

theorem Invariant.foldl_extend {hs : List Heading} (hi : Invariant q cost s)
    (hb : s.best[t]? = some cost) (hh : ∀ h ∈ hs, h ∈ Heading.steps) :
    Invariant q cost (hs.foldl (SearchTree.extend q t cost) s) := by
  induction hs generalizing s with
  | nil => exact hi
  | cons h hs ih =>
    exact ih (hi.extend hb (hh h (.head _))) (keeps_extend q t cost s h t cost hb (Nat.le_refl _)).1
      fun k hk => hh k (.tail _ hk)

theorem Invariant.expand (hi : Invariant q cost s) (hb : s.best[t]? = some cost) :
    Invariant q cost (expand q t cost s) :=
  (hi.arrive hb).foldl_extend (keeps_arrive q t cost cost s t cost hb (Nat.le_refl _)).1
    fun _ hh => hh

/-- A round that goes on takes the first entry out of the queue: it is left out when its state
has become cheaper, and else all steps are taken from its state. -/
theorem settle_continues {next : SearchTree} (hn : s.settle q = some (.continues next)) :
    ∃ e rest cost, s.queue.pop? = some (e, rest) ∧ e.arrived = false ∧
      s.best[e.state]? = some cost ∧
      (cost < e.cost ∧ next = { s with queue := rest } ∨
        e.cost ≤ cost ∧ next = SearchTree.expand q e.state e.cost { s with queue := rest }) := by
  unfold settle at hn
  split at hn
  · cases hn
  rename_i e rest hp
  split at hn
  · cases hn
  rename_i hea
  obtain ⟨cost, hb, hn⟩ := Option.map_eq_some_iff.mp hn
  refine ⟨e, rest, cost, hp, Bool.eq_false_iff.mpr hea, hb, ?_⟩
  split at hn
  · rename_i hlt
    cases hn
    exact .inl ⟨hlt, rfl⟩
  · rename_i hlt
    cases hn
    exact .inr ⟨Nat.le_of_not_lt hlt, rfl⟩

theorem settle_arrived (ha : s.settle q = some (.arrived t cost)) :
    ∃ e rest, s.queue.pop? = some (e, rest) ∧ e.arrived = true ∧ e.state = t ∧ e.cost = cost := by
  unfold settle at ha
  split at ha
  · cases ha
  rename_i e rest hp
  split at ha
  · rename_i hea
    cases ha
    exact ⟨e, rest, hp, hea, rfl, rfl⟩
  · obtain ⟨_, _, ha⟩ := Option.map_eq_some_iff.mp ha
    split at ha <;> cases ha

/-- The first entry that comes up costs what its state costs, unless the state has become
cheaper. -/
theorem Invariant.cost_eq {e : Entry} {rest : Queue} (hi : Invariant q floor s)
    (hp : s.queue.pop? = some (e, rest)) (hea : e.arrived = false)
    (hb : s.best[e.state]? = some cost) (hle : e.cost ≤ cost) : cost = e.cost := by
  have he : e ∈ s.queue.entries := (Queue.mem_entries_of_pop? hp e).mpr (.inl rfl)
  obtain ⟨cost', hb', hle'⟩ := hi.waiting e he hea
  cases hb.symm.trans hb'
  exact Nat.le_antisymm hle' hle

/-- A round that goes on keeps the invariant with the cost of what came up as the floor, and
what costs no more. -/
theorem Invariant.settle {next : SearchTree} {e : Entry} {rest : Queue}
    (hi : Invariant q floor s) (hn : s.settle q = some (.continues next))
    (hp : s.queue.pop? = some (e, rest)) : Invariant q e.cost next ∧ s.Keeps e.cost next := by
  obtain ⟨e', rest', cost, hp', hea, hb, hcases⟩ := settle_continues hn
  cases hp.symm.trans hp'
  have hpop := (hi.pop hp).2
  rcases hcases with ⟨_, rfl⟩ | ⟨hle, rfl⟩
  · exact ⟨hpop, .refl e.cost s⟩
  · have hb' : s.best[e.state]? = some e.cost := hi.cost_eq hp hea hb hle ▸ hb
    exact ⟨hpop.expand hb', keeps_expand q e.state e.cost { s with queue := rest }⟩

theorem invariant_initial (q : Query) : Invariant q 0 (initial q) := by
  have hentry (e : Entry) : e ∈ (initial q).queue.entries ↔ e = ⟨0, 0, q.origin, false⟩ := by
    simp only [initial, Queue.mem_entries_push, Queue.entries, List.not_mem_nil, or_false]
  have hordered : Queue.empty.Ordered := trivial
  refine ⟨Queue.ordered_push hordered _, fun _ _ => Nat.zero_le _, ?_, ?_, ?_⟩
  · intro e he _
    refine ⟨0, ?_, Nat.zero_le _⟩
    rw [(hentry e).mp he]
    simp only [initial, getElem?_insert_state, if_true]
  · intro e he hea
    rw [(hentry e).mp he] at hea
    cases hea
  · intro t cost hb
    simp only [initial, getElem?_insert_state, Std.HashMap.getElem?_empty] at hb
    split at hb
    · rename_i ht
      cases hb
      refine .origin ht.symm rfl ?_
      simp only [initial, getElem?_insert_state, if_pos ht]
    · cases hb

/-- However many rounds follow, the invariant holds with a floor that is no lower, and what
costs no more than the floor before them is kept. -/
theorem Invariant.grows {later : SearchTree} (hi : Invariant q floor s) (hg : Grows q s later) :
    ∃ floor', floor ≤ floor' ∧ Invariant q floor' later ∧ s.Keeps floor later := by
  induction hg with
  | refl => exact ⟨floor, Nat.le_refl _, hi, .refl floor s⟩
  | @tail mid next _ hn ih =>
    obtain ⟨floor', hle, hmid, hkeeps⟩ := ih
    obtain ⟨e, rest, _, hp, -⟩ := settle_continues hn
    have hfloor : floor' ≤ e.cost := (hmid.pop hp).1
    obtain ⟨hnext, hk⟩ := hmid.settle hn hp
    have hle := Nat.le_trans hle hfloor
    exact ⟨e.cost, hle, hnext, hkeeps.trans (hk.mono hle)⟩

end SearchTree
end FlowGrid.Lattice
