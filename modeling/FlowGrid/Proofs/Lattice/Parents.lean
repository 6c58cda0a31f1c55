import FlowGrid.Proofs.Lattice.Optimal
import FlowGrid.Proofs.Lattice.SearchTree

/-! Going back from parent to parent. From every state that has been reached this leads to the
origin, through the states of a walk that costs what is noted for the state, so the walk that is
found at the end costs what the search charged for it. The search that keeps whole walks goes
through the same rounds, and the walk that it keeps for a state is the one that the parents
spell. -/

namespace FlowGrid.Lattice

/-! ### The states of a walk -/

/-- The states that the steps lead through, the first one included. -/
def State.path (t : State) : List Heading → List State
  | [] => [t]
  | h :: steps => t :: (t.next h).path steps

theorem State.path_concat (t : State) (steps : List Heading) (h : Heading) :
    t.path (steps ++ [h]) = t.path steps ++ [⟨(t.vertex.after steps).move h, h⟩] := by
  induction steps generalizing t with
  | nil => rfl
  | cons k steps ih => rw [List.cons_append, path, ih, path, List.cons_append]; rfl

theorem State.map_vertex_path (t : State) (steps : List Heading) :
    (t.path steps).map State.vertex = t.vertex.trace steps := by
  induction steps generalizing t with
  | nil => rfl
  | cons h steps ih => rw [path, List.map_cons, ih]; rfl

namespace SearchTree

/-! ### Ancestors -/

/-- Going back from parent to parent leads from the state to one that has none; the states on the
way are listed from there on. -/
inductive Descends (parents : Std.HashMap State (Option State)) : State → List State → Prop
  | root {t : State} : parents[t]? = some none → Descends parents t [t]
  | child {t p : State} {states : List State} : parents[t]? = some (some p) →
      Descends parents p states → Descends parents t (states ++ [t])

/-- From the vertices found so far, going back from parent to parent ends with a walk. It does not
end when a state is not in the table, or when there is no first one. -/
inductive Unwinds (parents : Std.HashMap State (Option State)) :
    List Vertex → Option State → List Vertex → Prop
  | done {found : List Vertex} : Unwinds parents found none found
  | back {found walk : List Vertex} {t : State} {parent : Option State} :
      parents[t]? = some parent → Unwinds parents (t.vertex :: found) parent walk →
      Unwinds parents found (some t) walk

theorem Unwinds.unique {parents : Std.HashMap State (Option State)} {found walk walk' : List Vertex}
    {t : Option State} (h : Unwinds parents found t walk) (h' : Unwinds parents found t walk') :
    walk = walk' := by
  induction h with
  | done =>
    cases h'
    rfl
  | back hp _ ih =>
    cases h' with
    | back hp' h' =>
      cases hp.symm.trans hp'
      exact ih h'

theorem Descends.unwinds {parents : Std.HashMap State (Option State)} {t : State}
    {states : List State} (hd : Descends parents t states) (found : List Vertex) :
    Unwinds parents found (some t) (states.map State.vertex ++ found) := by
  induction hd generalizing found with
  | root hp => exact .back hp .done
  | @child t p states hp _ ih =>
    rw [List.map_append, List.append_assoc]
    exact .back hp (ih (t.vertex :: found))

theorem Descends.unwinds_nil {parents : Std.HashMap State (Option State)} {t : State}
    {states : List State} (hd : Descends parents t states) :
    Unwinds parents [] (some t) (states.map State.vertex) := by
  have hunwinds := hd.unwinds []
  rwa [List.append_nil] at hunwinds

variable {q : Query} {floor cost : Nat} {s : SearchTree} {t : State}

/-- The parents of a state spell a walk from the origin that costs what is noted for the state. -/
theorem Invariant.descends (hi : Invariant q floor s) (hb : s.best[t]? = some cost) :
    ∃ steps, q.LeadsTo steps t ∧ q.costTo steps = cost ∧
      Descends s.parents t (q.origin.path steps) := by
  induction cost using Nat.strongRecOn generalizing t with
  | ind cost ih =>
    cases hi.linked t cost hb with
    | origin ht hc hp =>
      subst ht hc
      exact ⟨[], .nil q, rfl, .root hp⟩
    | @child p h before hh ha ht hp hbefore _ hc =>
      obtain ⟨steps, hs, hcost, hd⟩ := ih before (by omega) hbefore
      refine ⟨steps ++ [h], ht ▸ hs.concat hh ha, by rw [hs.costTo_concat, hcost, hc], ?_⟩
      have hvertex : q.origin.vertex.after steps = p.vertex := hs.vertex
      rw [State.path_concat, hvertex, ← State.next, ← ht]
      exact .child hp hd

/-- A parent costs less than its child and no more than the floor. -/
theorem Invariant.exists_before {p : State} (hi : Invariant q floor s)
    (hb : s.best[t]? = some cost) (hp : s.parents[t]? = some (some p)) :
    ∃ before, s.best[p]? = some before ∧ before ≤ floor ∧ before < cost := by
  cases hi.linked t cost hb with
  | origin _ _ hn => cases hn.symm.trans hp
  | child _ _ _ hp' hbefore hle hc =>
    cases hp.symm.trans hp'
    exact ⟨_, hbefore, hle, by omega⟩

/-! ### The search that keeps walks -/

/-- The search is in the same round, and the walk that it keeps for a state is that of the parent
with one vertex more. -/
structure Mirrors (s : SearchTree) (r : Search) : Prop where
  queue : s.queue = r.queue
  clock : s.clock = r.clock
  best : ∀ t : State, s.best[t]? = (r.labels[t]?).map Label.cost
  trail : ∀ (t : State) label, r.labels[t]? = some label →
    s.parents[t]? = some none ∧ label.trail = [t.vertex] ∨
    ∃ p l, s.parents[t]? = some (some p) ∧ r.labels[p]? = some l ∧
      label.trail = t.vertex :: l.trail

variable {r : Search} {l : Label} {h : Heading}

theorem Mirrors.best_eq (hm : s.Mirrors r) (hl : r.labels[t]? = some l) :
    s.best[t]? = some l.cost := by
  rw [hm.best, hl, Option.map_some]

theorem Mirrors.enqueue (hm : s.Mirrors r) (cost : Nat) (t : State) (arrived : Bool) :
    (s.enqueue cost t arrived).Mirrors (r.enqueue cost t arrived) where
  queue := by rw [SearchTree.enqueue, Search.enqueue, hm.queue, hm.clock]
  clock := congrArg (· + 1) hm.clock
  best := hm.best
  trail := hm.trail

theorem Mirrors.arrive (hm : s.Mirrors r) (t : State) (l : Label) :
    (SearchTree.arrive q t l.cost s).Mirrors (q.arrive t l r) := by
  unfold SearchTree.arrive Query.arrive
  split
  · exact hm.enqueue _ t true
  · exact hm

/-- Both searches note a step from a state that costs as much as the floor, or neither does. -/
theorem Mirrors.record (hm : s.Mirrors r) (hi : Invariant q l.cost s)
    (hl : r.labels[t]? = some l) (h : Heading) :
    (s.record t (t.next h) (l.cost + 1 + costOfTurn t.heading h)).Mirrors
      (r.record (t.next h)
        ⟨l.cost + 1 + costOfTurn t.heading h, (t.next h).vertex :: l.trail⟩) := by
  rcases s.record_cases t (t.next h) (l.cost + 1 + costOfTurn t.heading h) with
    ⟨old, hold, hle, he⟩ | ⟨hlow, he⟩ <;>
  rcases r.record_cases (t.next h)
      ⟨l.cost + 1 + costOfTurn t.heading h, (t.next h).vertex :: l.trail⟩ with
    ⟨old', hold', hle', he'⟩ | ⟨hlow', he'⟩
  · rw [he, he']
    exact hm
  · rw [hm.best] at hold
    obtain ⟨l', hl', rfl⟩ := Option.map_eq_some_iff.mp hold
    exact absurd (hlow' l' hl') (Nat.not_lt.mpr hle)
  · exact absurd (hlow _ (hm.best_eq hold')) (Nat.not_lt.mpr hle')
  rw [he, he']
  -- a state that costs no more than the floor is not the one that is noted
  have hne {u : State} {before : Nat} (hb : s.best[u]? = some before) (hle : before ≤ l.cost) :
      t.next h ≠ u := by
    rintro rfl
    have := hlow before hb
    omega
  apply Mirrors.enqueue
  refine ⟨hm.queue, hm.clock, ?_, ?_⟩
  · intro u
    simp only [getElem?_insert_state]
    split
    · rfl
    · exact hm.best u
  · intro u label hu
    simp only [getElem?_insert_state] at hu ⊢
    split at hu
    · rename_i heq
      cases hu
      refine .inr ⟨t, l, if_pos heq, ?_, by rw [heq]⟩
      rw [if_neg (hne (hm.best_eq hl) (Nat.le_refl _)), hl]
    · rename_i hother
      rw [if_neg hother]
      rcases hm.trail u label hu with hroot | ⟨p, lp, hp, hlp, ht⟩
      · exact .inl hroot
      · obtain ⟨before, hb, hle, _⟩ := hi.exists_before (hm.best_eq hu) hp
        exact .inr ⟨p, lp, hp, by rw [if_neg (hne hb hle), hlp], ht⟩

/-- The label of the state from which a step is taken stays. -/
theorem label_extend (q : Query) (hl : r.labels[t]? = some l) (h : Heading) :
    (q.extend t l r h).labels[t]? = some l := by
  unfold Query.extend
  simp only []
  split
  · rcases r.record_cases ⟨t.vertex.move h, h⟩
      ⟨l.cost + 1 + costOfTurn t.heading h, t.vertex.move h :: l.trail⟩ with
      ⟨_, _, _, he⟩ | ⟨hlow, he⟩
    · rw [he, hl]
    · rw [he, Search.enqueue, Search.getElem?_insert_label, if_neg, hl]
      intro heq
      have := hlow l (by rw [heq, hl])
      simp only [] at this
      omega
  · exact hl

theorem Mirrors.foldl_extend {hs : List Heading} (hm : s.Mirrors r) (hi : Invariant q l.cost s)
    (hl : r.labels[t]? = some l) (hh : ∀ h ∈ hs, h ∈ Heading.steps) :
    (hs.foldl (SearchTree.extend q t l.cost) s).Mirrors (hs.foldl (q.extend t l) r) := by
  induction hs generalizing s r with
  | nil => exact hm
  | cons h hs ih =>
    refine ih ?_ (hi.extend (hm.best_eq hl) (hh h (.head _))) (label_extend q hl h)
      fun k hk => hh k (.tail _ hk)
    unfold SearchTree.extend Query.extend
    simp only []
    split
    · exact hm.record hi hl h
    · exact hm

/-- The walk that the search keeps for a state is the one that the parents spell. -/
theorem Mirrors.descends (hm : s.Mirrors r) (hi : Invariant q floor s)
    (hl : r.labels[t]? = some l) :
    ∃ states, Descends s.parents t states ∧ l.trail = (states.map State.vertex).reverse := by
  induction hc : l.cost using Nat.strongRecOn generalizing t l with
  | ind cost ih =>
    subst hc
    rcases hm.trail t l hl with ⟨hp, ht⟩ | ⟨p, lp, hp, hlp, ht⟩
    · exact ⟨[t], .root hp, ht⟩
    · obtain ⟨before, hb, _, hlt⟩ := hi.exists_before (hm.best_eq hl) hp
      cases hb.symm.trans (hm.best_eq hlp)
      obtain ⟨states, hd, htrail⟩ := ih lp.cost hlt hlp rfl
      refine ⟨states ++ [t], .child hp hd, ?_⟩
      rw [ht, htrail, List.map_append, List.reverse_append]
      rfl

theorem Mirrors.expand (hm : s.Mirrors r) (hi : Invariant q l.cost s)
    (hl : r.labels[t]? = some l) :
    (SearchTree.expand q t l.cost s).Mirrors
      (Heading.steps.foldl (q.extend t l) (q.arrive t l r)) := by
  refine (hm.arrive t l).foldl_extend (hi.arrive (hm.best_eq hl)) ?_ fun _ hh => hh
  rw [q.arrive_labels, hl]

/-- A round of the one search is a round of the other. -/
theorem Mirrors.settle (hm : s.Mirrors r) (hi : Invariant q floor s) :
    match q.settle r with
    | .blocked => s.settle q = some .blocked
    | .arrived walk => ∃ t cost, s.settle q = some (.arrived t cost) ∧
        Unwinds s.parents [] (some t) walk
    | .continues r' => ∃ s', s.settle q = some (.continues s') ∧ s'.Mirrors r' ∧
        ∃ floor', Invariant q floor' s' := by
  cases hp : r.queue.pop? with
  | none => simp only [Query.settle, SearchTree.settle, hm.queue, hp]
  | some first =>
    obtain ⟨e, rest⟩ := first
    have hp' : s.queue.pop? = some (e, rest) := hm.queue ▸ hp
    have hrest : Mirrors { s with queue := rest } { r with queue := rest } :=
      ⟨rfl, hm.clock, hm.best, hm.trail⟩
    have hpop := (hi.pop hp').2
    obtain ⟨cost, hb⟩ := hi.exists_best ((Queue.mem_entries_of_pop? hp' e).mpr (.inl rfl))
    rw [hm.best] at hb
    obtain ⟨l, hl, -⟩ := Option.map_eq_some_iff.mp hb
    simp only [Query.settle, SearchTree.settle, hp, hp', hl, hm.best_eq hl, Option.map_some]
    by_cases hea : e.arrived = true
    · obtain ⟨states, hd, htrail⟩ := hm.descends hi hl
      simp only [if_pos hea]
      refine ⟨e.state, e.cost, rfl, ?_⟩
      rw [htrail, List.reverse_reverse]
      exact hd.unwinds_nil
    · by_cases hlt : l.cost < e.cost
      · simp only [if_neg hea, if_pos hlt]
        exact ⟨_, rfl, hrest, e.cost, hpop⟩
      · simp only [if_neg hea, if_neg hlt]
        have hcost : l.cost = e.cost :=
          hi.cost_eq hp' (Bool.eq_false_iff.mpr hea) (hm.best_eq hl) (Nat.le_of_not_lt hlt)
        rw [← hcost] at hpop ⊢
        exact ⟨_, rfl, hrest.expand hpop hl, l.cost, hpop.expand (hm.best_eq hl)⟩

/-! ### The route -/

/-- Rounds go on until a state has arrived, whose walk is then found by its parents, or until no
state is left. -/
inductive Finds (q : Query) : SearchTree → Except Fault (List Vertex) → Prop
  | blocked {s : SearchTree} : s.settle q = some .blocked →
      Finds q s (.error (.noRoute q.start q.goal))
  | arrived {s : SearchTree} {t : State} {cost : Nat} {walk : List Vertex} :
      s.settle q = some (.arrived t cost) → Unwinds s.parents [] (some t) walk →
      Finds q s (.ok walk)
  | continues {s next : SearchTree} {result : Except Fault (List Vertex)} :
      s.settle q = some (.continues next) → Finds q next result → Finds q s result

theorem Finds.unique {result result' : Except Fault (List Vertex)} (h : Finds q s result)
    (h' : Finds q s result') : result = result' := by
  induction h with
  | blocked hs =>
    cases h' with
    | blocked => rfl
    | arrived hs' | continues hs' => cases hs.symm.trans hs'
  | arrived hs hw =>
    cases h' with
    | blocked hs' | continues hs' => cases hs.symm.trans hs'
    | arrived hs' hw' =>
      cases hs.symm.trans hs'
      rw [hw.unique hw']
  | continues hs _ ih =>
    cases h' with
    | blocked hs' | arrived hs' => cases hs.symm.trans hs'
    | continues hs' h' =>
      cases hs.symm.trans hs'
      exact ih h'

theorem Mirrors.run (hm : s.Mirrors r) (hi : Invariant q floor s) :
    Finds q s (match q.run r with
      | some walk => .ok walk
      | none => .error (.noRoute q.start q.goal)) := by
  fun_induction Query.run q r generalizing s floor with
  | case1 r hb =>
    have hs := hm.settle hi
    rw [hb] at hs
    exact .blocked hs
  | case2 r walk ha =>
    have hs := hm.settle hi
    rw [ha] at hs
    obtain ⟨t, cost, hs, hw⟩ := hs
    exact .arrived hs hw
  | case3 r next hn ih =>
    have hs := hm.settle hi
    rw [hn] at hs
    obtain ⟨s', hs, hm', floor', hi'⟩ := hs
    exact .continues hs (ih hm' hi')

theorem mirrors_initial (q : Query) : (initial q).Mirrors q.initial where
  queue := rfl
  clock := rfl
  best t := by
    simp only [initial, Query.initial, getElem?_insert_state, Std.HashMap.getElem?_empty]
    unfold Query.origin
    split <;> rfl
  trail t label hl := by
    simp only [Query.initial, getElem?_insert_state, Std.HashMap.getElem?_empty] at hl
    split at hl
    · rename_i ht
      cases hl
      refine .inl ⟨?_, by rw [← ht]⟩
      simp only [initial, getElem?_insert_state, Query.origin, if_pos ht]
    · cases hl

/-- The search with a table of parents comes to an end with the route of the one that keeps
walks. -/
theorem finds_iff (q : Query) (result : Except Fault (List Vertex)) :
    Finds q (initial q) result ↔ result = q.route := by
  have hroute : Finds q (initial q) q.route := (mirrors_initial q).run (invariant_initial q)
  constructor
  · intro h
    exact h.unique hroute
  · rintro rfl
    exact hroute

/-! ### Later rounds -/

variable {later : SearchTree}

/-- In every later round the floor is no lower than what comes up now, and what costs no more is
kept. -/
theorem Invariant.grows_past {e : Entry} {rest : Queue} (hi : Invariant q floor s)
    (hp : s.queue.pop? = some (e, rest)) (hg : Grows q s later) :
    later = s ∨ ∃ floor', e.cost ≤ floor' ∧ Invariant q floor' later ∧ s.Keeps e.cost later := by
  rcases hg.cases_head with rfl | ⟨next, hn, hg⟩
  · exact .inl rfl
  · obtain ⟨hnext, hk⟩ := hi.settle hn hp
    obtain ⟨floor', hle, hlater, hk'⟩ := hnext.grows hg
    exact .inr ⟨floor', hle, hlater, hk.trans hk'⟩

theorem Invariant.cost_le_of_grows {e e' : Entry} {rest rest' : Queue} (hi : Invariant q floor s)
    (hg : Grows q s later) (hp : s.queue.pop? = some (e, rest))
    (hp' : later.queue.pop? = some (e', rest')) : e.cost ≤ e'.cost := by
  rcases hi.grows_past hp hg with rfl | ⟨floor', hle, hlater, _⟩
  · cases hp.symm.trans hp'
    exact Nat.le_refl _
  · exact Nat.le_trans hle (hlater.pop hp').1

theorem Invariant.kept_of_expands (hi : Invariant q floor s) (hg : Grows q s later)
    (ht : s.Expands t) :
    later.best[t]? = s.best[t]? ∧ later.parents[t]? = s.parents[t]? := by
  obtain ⟨e, rest, cost, hp, rfl, hea, hb, hle⟩ := ht
  rcases hi.grows_past hp hg with rfl | ⟨_, _, _, hk⟩
  · exact ⟨rfl, rfl⟩
  · obtain ⟨hbest, hparent⟩ := hk e.state cost hb (Nat.le_of_eq (hi.cost_eq hp hea hb hle))
    exact ⟨hbest.trans hb.symm, hparent⟩

/-- The walk that is found for an arrived state answers the query at the cost of its entry. -/
theorem Invariant.exists_walk (hi : Invariant q floor s)
    (ha : s.settle q = some (.arrived t cost)) :
    ∃ steps, q.IsWalk steps ∧ q.cost steps = cost ∧
      ∀ walk, Unwinds s.parents [] (some t) walk ↔ walk = q.start.trace steps := by
  obtain ⟨e, rest, hp, hea, rfl, rfl⟩ := settle_arrived ha
  have he : e ∈ s.queue.entries := (Queue.mem_entries_of_pop? hp e).mpr (.inl rfl)
  obtain ⟨hacc, before, hb, _, hc⟩ := hi.arrived e he hea
  obtain ⟨steps, hs, hcost, hd⟩ := hi.descends hb
  have hwalk : Unwinds s.parents [] (some e.state) (q.start.trace steps) := by
    have hunwinds := hd.unwinds_nil
    rwa [State.map_vertex_path] at hunwinds
  refine ⟨steps, hs.isWalk hacc, by rw [hs.cost_eq, hcost, hc], fun walk => ⟨?_, ?_⟩⟩
  · exact fun h => h.unique hwalk
  · rintro rfl
    exact hwalk

/-- In every round, the parents of any state that has been reached lead back to the origin and
spell a walk that costs what is noted for the state. What comes up in later rounds is no
cheaper, and a state from which all steps have been taken keeps its cost and its parent. So the
walk found for the state that arrives costs what the search charged for it, and it is the one
that the search for the route finds. -/
theorem parents_spell_walks (q : Query) {s later : SearchTree} (hs : Grows q (initial q) s)
    (hg : Grows q s later) :
    (∀ (t : State) cost, s.best[t]? = some cost → ∃ steps, q.LeadsTo steps t ∧
      q.costTo steps = cost ∧ Descends s.parents t (q.origin.path steps)) ∧
    (∀ e rest e' rest', s.queue.pop? = some (e, rest) →
      later.queue.pop? = some (e', rest') → e.cost ≤ e'.cost) ∧
    (∀ t, s.Expands t →
      later.best[t]? = s.best[t]? ∧ later.parents[t]? = s.parents[t]?) ∧
    (∀ t cost, s.settle q = some (.arrived t cost) → ∃ steps, q.IsWalk steps ∧
      q.cost steps = cost ∧
      ∀ walk, Unwinds s.parents [] (some t) walk ↔ walk = q.start.trace steps) ∧
    ∀ result, Finds q (initial q) result ↔ result = q.route := by
  obtain ⟨floor, -, hi, -⟩ := (invariant_initial q).grows hs
  exact ⟨fun t cost hb => hi.descends hb, fun e rest e' rest' => hi.cost_le_of_grows hg,
    fun t => hi.kept_of_expands hg, fun t cost => hi.exists_walk, finds_iff q⟩

/-- To the next vertex of the border of a grid without rows, with a turn at the start. -/
def lane : Query := ⟨.empty 0 1, ⟨0, 0⟩, ⟨0, -1⟩, ⟨1, 0⟩, ⟨1, 0⟩⟩

/-- The goal of the lane, reached after the turn. -/
def laneEnd : State := ⟨⟨1, 0⟩, ⟨1, 0⟩⟩

/-- The tree after one round along the lane. -/
def laneTurned : SearchTree where
  best := ((∅ : Std.HashMap State Nat).insert lane.origin 0).insert laneEnd 10001
  parents := ((∅ : Std.HashMap State (Option State)).insert lane.origin none).insert laneEnd
    (some lane.origin)
  queue := .node ⟨10001, 1, laneEnd, false⟩ .empty .empty
  clock := 2

/-- The tree after two rounds along the lane. -/
def laneArrived : SearchTree := expand lane laneEnd 10001 { laneTurned with queue := .empty }

theorem grows_laneTurned : Grows lane (initial lane) laneTurned := by
  refine .single ?_
  simp [settle, initial, Queue.push, Queue.merge, Queue.pop?, laneTurned, lane, laneEnd,
    Query.origin, expand, Heading.steps, extend, arrive, Query.isOpen, Query.inside, Query.width,
    Query.height, Query.isOccupied, Vertex.move, Heading.reverse, Grid.empty, State.next, record,
    enqueue, costOfTurn, turnCost]

theorem expands_laneTurned : laneTurned.Expands laneEnd := by
  simp [Expands, laneTurned, Queue.pop?]

theorem grows_laneArrived : Grows lane laneTurned laneArrived := by
  refine .single ?_
  simp [settle, Queue.merge, Queue.pop?, laneTurned, laneArrived]

theorem settle_laneArrived : laneArrived.settle lane = some (.arrived laneEnd 10001) := by
  simp [laneArrived, laneTurned, settle, Queue.push, Queue.merge, Queue.pop?, lane, laneEnd,
    Query.origin, expand, Heading.steps, extend, arrive, Query.isOpen, Query.inside, Query.width,
    Query.height, Query.isOccupied, Vertex.move, Heading.reverse, Grid.empty, State.next, record,
    enqueue, costOfTurn, Entry.precedes]

theorem parents_spell_walks_lane :
    (Grows lane (initial lane) laneTurned ∧ Grows lane laneTurned laneArrived) ∧
    (laneTurned.Expands laneEnd ∧ laneArrived.best[laneEnd]? = laneTurned.best[laneEnd]? ∧
      laneArrived.parents[laneEnd]? = laneTurned.parents[laneEnd]?) ∧
    laneArrived.settle lane = some (.arrived laneEnd 10001) ∧
    ∃ steps, lane.IsWalk steps ∧ lane.cost steps = 10001 ∧
      ∀ walk, Unwinds laneArrived.parents [] (some laneEnd) walk ↔
        walk = lane.start.trace steps := by
  obtain ⟨-, -, hkept, -, -⟩ := parents_spell_walks lane grows_laneTurned grows_laneArrived
  obtain ⟨-, -, -, hwalk, -⟩ :=
    parents_spell_walks lane (grows_laneTurned.trans grows_laneArrived) .refl
  exact ⟨⟨grows_laneTurned, grows_laneArrived⟩,
    ⟨expands_laneTurned, hkept laneEnd expands_laneTurned⟩, settle_laneArrived,
    hwalk laneEnd 10001 settle_laneArrived⟩

end SearchTree
end FlowGrid.Lattice
