import FlowGrid.Proofs.Lattice.Invariant

/-! The route that the search finds. As long as it has not arrived, every walk that answers
the query leaves an entry in the queue that is no dearer than the walk, so the first
arrival to come up belongs to a cheapest walk, and an empty queue means that there is
none. -/

namespace FlowGrid.Lattice.Query

variable {q : Query}

/-- Whatever is left of a walk from a labelled state, some entry of the queue is no dearer. -/
theorem Invariant.exists_entry_le {s : Search} (hi : q.Invariant (fun _ _ => False) s)
    {steps : List Heading} {t : State} {l : Label} (hl : s.labels[t]? = some l)
    (hu : ∀ h ∈ steps, h ∈ Heading.steps) (hf : ∀ v ∈ t.vertex.visits steps, q.Free v)
    (hg : t.vertex.after steps = q.goal) (hw : t.heading.Forward (steps ++ [q.goalHeading])) :
    ∃ e ∈ s.queue.entries,
      e.cost ≤ l.cost + steps.length + turnCost * t.heading.turns (steps ++ [q.goalHeading]) := by
  induction steps generalizing t l with
  | nil =>
    rcases hi.known t l hl with hf | ⟨e, he, _, _, hc⟩ | hs
    · exact hf.elim
    · exact ⟨e, he, by omega⟩
    · obtain ⟨e, he, _, hc⟩ := hs.arrival ⟨hg, Heading.ne_reverse_comm.mp hw.1⟩
      rw [costOfTurn_eq] at hc
      exact ⟨e, he, hc⟩
  | cons h steps ih =>
    rcases hi.known t l hl with hf | ⟨e, he, _, _, hc⟩ | hs
    · exact hf.elim
    · exact ⟨e, he, by omega⟩
    · have ha : q.Allows t h := ⟨hw.1, hf _ (.head _)⟩
      obtain ⟨l', hl', hc'⟩ := hs.steps h (hu h (.head _)) ha
      obtain ⟨e, he, hc⟩ := ih hl' (fun k hk => hu k (.tail _ hk)) (fun v hv => hf v (.tail _ hv))
        hg hw.2
      refine ⟨e, he, ?_⟩
      have ht : (h :: steps ++ [q.goalHeading]) = [h] ++ (steps ++ [q.goalHeading]) := rfl
      rw [ht, Heading.turns_append, Nat.mul_add, ← costOfTurn_eq, List.length_cons]
      simp only [State.next, List.getLastD_cons, List.getLastD_nil] at hc ⊢
      omega

/-- As long as the search goes on, it is at no point dearer than a walk. -/
theorem Invariant.exists_entry_le_cost {s : Search} (hi : q.Invariant (fun _ _ => False) s)
    {steps : List Heading} (hw : q.IsWalk steps) : ∃ e ∈ s.queue.entries, e.cost ≤ q.cost steps := by
  obtain ⟨l, hl, hz⟩ := hi.start
  obtain ⟨e, he, hc⟩ := hi.exists_entry_le hl hw.unit hw.free hw.arrives hw.forward
  refine ⟨e, he, ?_⟩
  simp only [] at hc
  rw [cost, turns]
  omega

/-- The vertices are those of a walk that answers the query, and no other is cheaper. -/
def IsBest (q : Query) (walk : List Vertex) : Prop :=
  ∃ steps, walk = q.start.trace steps ∧ q.IsWalk steps ∧
    ∀ other, q.IsWalk other → q.cost steps ≤ q.cost other

theorem Invariant.blocked {s : Search} (hi : q.Invariant (fun _ _ => False) s)
    (hb : q.settle s = .blocked) (steps : List Heading) : ¬ q.IsWalk steps := by
  intro hw
  obtain ⟨e, he, _⟩ := hi.exists_entry_le_cost hw
  unfold Query.settle at hb
  split at hb
  · rename_i hp
    rw [(Queue.pop?_eq_none_iff _).mp hp] at he
    cases he
  · split at hb
    · cases hb
    · split at hb
      · cases hb
      · split at hb <;> cases hb

theorem Invariant.arrived {s : Search} {walk : List Vertex}
    (hi : q.Invariant (fun _ _ => False) s) (ha : q.settle s = .arrived walk) :
    q.IsBest walk := by
  unfold Query.settle at ha
  split at ha
  · cases ha
  rename_i e rest hp
  have he : e ∈ s.queue.entries := (Queue.mem_entries_of_pop? hp e).mpr (.inl rfl)
  split at ha
  · cases ha
  rename_i label hlabel
  split at ha
  · rename_i hea
    cases ha
    obtain ⟨hacc, l, hl, hle⟩ := hi.arrivals e he hea
    cases hlabel.symm.trans hl
    obtain ⟨steps, hs, hc, ht⟩ := hi.spells e.state label hlabel
    refine ⟨steps, by rw [ht, List.reverse_reverse], hs.isWalk hacc, ?_⟩
    intro other ho
    obtain ⟨x, hx, hxc⟩ := hi.exists_entry_le_cost ho
    have := Queue.cost_le_of_pop? hi.ordered hp hx
    rw [hs.cost_eq]
    omega
  · split at ha <;> cases ha

/-- From where the invariant holds on, the search ends with a best walk, or there is none. -/
theorem Invariant.run {s : Search} (hi : q.Invariant (fun _ _ => False) s) :
    match q.run s with
    | some walk => q.IsBest walk
    | none => ∀ steps, ¬ q.IsWalk steps := by
  fun_induction Query.run q s with
  | case1 s hb => exact hi.blocked hb
  | case2 s walk ha => exact hi.arrived ha
  | case3 s next hn ih => exact ih (hi.settle hn)

theorem isBest_of_route {walk : List Vertex} (h : q.route = .ok walk) : q.IsBest walk := by
  have hr := q.invariant_initial.run
  unfold route route? at h
  split at h
  · rename_i w hw
    rw [hw] at hr
    cases h
    exact hr
  · cases h

theorem not_isWalk_of_route {f : Fault} (h : q.route = .error f) (steps : List Heading) :
    ¬ q.IsWalk steps := by
  have hr := q.invariant_initial.run
  unfold route route? at h
  split at h
  · cases h
  · rename_i hw
    rw [hw] at hr
    exact hr steps

/-- A query that some walk answers has a route. -/
theorem exists_route_of_isWalk {steps : List Heading} (hw : q.IsWalk steps) :
    ∃ walk, q.route = .ok walk := by
  cases h : q.route with
  | ok walk => exact ⟨walk, rfl⟩
  | error f => exact absurd hw (not_isWalk_of_route h steps)

theorem route_eq_error {f : Fault} (h : q.route = .error f) : f = .noRoute q.start q.goal := by
  unfold route at h
  split at h
  · cases h
  · cases h
    rfl

/-- The search ends with a cheapest of all walks that answer the query, and with the fault that
there is no route exactly when there is no such walk. -/
theorem route_cheapest (q : Query) :
    match q.route with
    | .ok walk => ∃ steps, walk = q.start.trace steps ∧ q.IsWalk steps ∧
        ∀ other, q.IsWalk other → q.cost steps ≤ q.cost other
    | .error f => f = .noRoute q.start q.goal ∧ ∀ steps, ¬ q.IsWalk steps := by
  split
  · rename_i walk h
    exact isBest_of_route h
  · rename_i f h
    exact ⟨route_eq_error h, not_isWalk_of_route h⟩

end FlowGrid.Lattice.Query
