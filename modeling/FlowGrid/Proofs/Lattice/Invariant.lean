import FlowGrid.Proofs.Lattice.Heap
import FlowGrid.Proofs.Lattice.Walk

/-! What the rounds of a search keep. Every label spells a walk to its state at its cost.
Every labelled state either waits in the queue at its cost, or all that follows from it
is known: its neighbours are labelled at most at the cost of one more step, and if it can
leave the goal as required, its arrival is in the queue. A later, cheaper label only puts
its state back among those that wait. -/

namespace FlowGrid.Lattice

def State.next (t : State) (h : Heading) : State := ⟨t.vertex.move h, h⟩

namespace Query

/-! ### Walks to a state -/

/-- The steps are those of a walk from the start to a state, wherever it is to go from there. -/
structure LeadsTo (q : Query) (steps : List Heading) (t : State) : Prop where
  unit : ∀ h ∈ steps, h ∈ Heading.steps
  free : ∀ v ∈ q.start.visits steps, q.Free v
  vertex : q.start.after steps = t.vertex
  heading : steps.getLastD q.startHeading = t.heading
  forward : q.startHeading.Forward steps

/-- The cost of a walk to a state, without the last turn at the goal. -/
def costTo (q : Query) (steps : List Heading) : Nat :=
  steps.length + turnCost * q.startHeading.turns steps

/-- A walk can go on from the state with the given step. -/
def Allows (q : Query) (t : State) (h : Heading) : Prop :=
  h ≠ t.heading.reverse ∧ q.Free (t.vertex.move h)

/-- A walk can end in the state. -/
def Accepts (q : Query) (t : State) : Prop :=
  t.vertex = q.goal ∧ t.heading ≠ q.goalHeading.reverse

variable {q : Query} {t : State} {steps : List Heading} {h : Heading}

theorem costOfTurn_eq (before after : Heading) :
    costOfTurn before after = turnCost * before.turns [after] := by
  simp only [costOfTurn, Heading.turns]
  split <;> simp

theorem LeadsTo.nil (q : Query) : q.LeadsTo [] ⟨q.start, q.startHeading⟩ where
  unit _ hh := nomatch hh
  free _ hv := nomatch hv
  vertex := rfl
  heading := rfl
  forward := trivial

theorem LeadsTo.concat (hl : q.LeadsTo steps t) (hh : h ∈ Heading.steps) (ha : q.Allows t h) :
    q.LeadsTo (steps ++ [h]) (t.next h) where
  unit k hk := by
    rcases List.mem_append.mp hk with hk | hk
    · exact hl.unit k hk
    · rw [List.mem_singleton.mp hk]
      exact hh
  free v hv := by
    rw [Vertex.visits_append, hl.vertex] at hv
    rcases List.mem_append.mp hv with hv | hv
    · exact hl.free v hv
    · rw [List.mem_singleton.mp hv]
      exact ha.2
  vertex := by rw [Vertex.after_append, hl.vertex]; rfl
  heading := by rw [List.getLastD_concat]; rfl
  forward := by
    rw [Heading.forward_append, hl.heading]
    exact ⟨hl.forward, ha.1, trivial⟩

theorem LeadsTo.costTo_concat (hl : q.LeadsTo steps t) (h : Heading) :
    q.costTo (steps ++ [h]) = q.costTo steps + 1 + costOfTurn t.heading h := by
  rw [costTo, costTo, Heading.turns_append, hl.heading, costOfTurn_eq, Nat.mul_add,
    List.length_append, List.length_singleton]
  omega

theorem LeadsTo.isWalk (hl : q.LeadsTo steps t) (ha : q.Accepts t) : q.IsWalk steps where
  unit := hl.unit
  free := hl.free
  arrives := hl.vertex.trans ha.1
  forward := by
    rw [Heading.forward_append, hl.heading]
    exact ⟨hl.forward, Heading.ne_reverse_comm.mp ha.2, trivial⟩

theorem LeadsTo.cost_eq (hl : q.LeadsTo steps t) :
    q.cost steps = q.costTo steps + costOfTurn t.heading q.goalHeading := by
  rw [cost, costTo, turns, Heading.turns_append, hl.heading, costOfTurn_eq, Nat.mul_add]
  omega

/-- The trail of the label is a walk to the state, the last vertex first, at its cost. -/
def Spells (q : Query) (t : State) (l : Label) : Prop :=
  ∃ steps, q.LeadsTo steps t ∧ l.cost = q.costTo steps ∧ l.trail = (q.start.trace steps).reverse

theorem Spells.next {l : Label} (hl : q.Spells t l) (hh : h ∈ Heading.steps)
    (ha : q.Allows t h) :
    q.Spells (t.next h)
      ⟨l.cost + 1 + costOfTurn t.heading h, t.vertex.move h :: l.trail⟩ := by
  obtain ⟨steps, hs, hc, ht⟩ := hl
  refine ⟨steps ++ [h], hs.concat hh ha, ?_, ?_⟩
  · rw [hs.costTo_concat, hc]
  · rw [Vertex.trace_concat, List.reverse_append, ht, hs.vertex]
    rfl

end Query

/-! ### Later searches -/

namespace Search

/-- Nothing that `s` knows has been lost: no label is dearer and no entry is gone. -/
structure Grows (s s' : Search) : Prop where
  labels : ∀ (t : State) l, s.labels[t]? = some l → ∃ l', s'.labels[t]? = some l' ∧ l'.cost ≤ l.cost
  queue : ∀ e ∈ s.queue.entries, e ∈ s'.queue.entries

theorem Grows.refl (s : Search) : s.Grows s :=
  ⟨fun _ l hl => ⟨l, hl, Nat.le_refl _⟩, fun _ he => he⟩

theorem Grows.trans {a b c : Search} (hab : a.Grows b) (hbc : b.Grows c) : a.Grows c where
  labels t l hl := by
    obtain ⟨m, hm, hml⟩ := hab.labels t l hl
    obtain ⟨n, hn, hnm⟩ := hbc.labels t m hm
    exact ⟨n, hn, Nat.le_trans hnm hml⟩
  queue e he := hbc.queue e (hab.queue e he)

theorem mem_entries_enqueue (s : Search) (cost : Nat) (t : State) (arrived : Bool) (e : Entry) :
    e ∈ (s.enqueue cost t arrived).queue.entries ↔
      e = ⟨cost, s.clock, t, arrived⟩ ∨ e ∈ s.queue.entries := Queue.mem_entries_push _ _ _

theorem grows_enqueue (s : Search) (cost : Nat) (t : State) (arrived : Bool) :
    s.Grows (s.enqueue cost t arrived) where
  labels _ l hl := ⟨l, hl, Nat.le_refl _⟩
  queue e he := (mem_entries_enqueue s cost t arrived e).mpr (.inr he)

/-- A walk is noted and its state queued, unless the state has a label that is no dearer. -/
theorem record_cases (s : Search) (t : State) (label : Label) :
    (∃ old, s.labels[t]? = some old ∧ old.cost ≤ label.cost ∧ s.record t label = s) ∨
    ((∀ old, s.labels[t]? = some old → label.cost < old.cost) ∧
      s.record t label = { s with labels := s.labels.insert t label }.enqueue label.cost t false) := by
  unfold record
  split
  · rename_i old ho
    split
    · rename_i hlt
      refine .inr ⟨?_, rfl⟩
      intro old' ho'
      cases ho.symm.trans ho'
      exact hlt
    · rename_i hlt
      exact .inl ⟨old, ho, Nat.le_of_not_lt hlt, rfl⟩
  · rename_i hn
    refine .inr ⟨?_, rfl⟩
    intro old ho
    cases hn.symm.trans ho

theorem getElem?_insert_label (labels : Std.HashMap State Label) (t u : State) (label : Label) :
    (labels.insert t label)[u]? = if t = u then some label else labels[u]? := by
  simp only [Std.HashMap.getElem?_insert, beq_iff_eq]

theorem grows_record (s : Search) (t : State) (label : Label) : s.Grows (s.record t label) := by
  rcases s.record_cases t label with ⟨old, _, _, he⟩ | ⟨hlt, he⟩
  · rw [he]
    exact .refl s
  · rw [he]
    have hq := (s.grows_enqueue label.cost t false).queue
    refine ⟨?_, hq⟩
    intro u l hl
    simp only [enqueue, getElem?_insert_label]
    by_cases hu : t = u
    · subst hu
      exact ⟨label, if_pos rfl, Nat.le_of_lt (hlt l hl)⟩
    · exact ⟨l, by rw [if_neg hu, hl], Nat.le_refl _⟩

/-- After a walk to a state has been noted, the state has a label that is no dearer. -/
theorem exists_label_record (s : Search) (t : State) (label : Label) :
    ∃ l, (s.record t label).labels[t]? = some l ∧ l.cost ≤ label.cost := by
  rcases s.record_cases t label with ⟨old, ho, hle, he⟩ | ⟨_, he⟩
  · exact ⟨old, by rw [he, ho], hle⟩
  · refine ⟨label, ?_, Nat.le_refl _⟩
    rw [he]
    simp only [enqueue, getElem?_insert_label, if_true]

end Search

/-! ### The invariant -/

namespace Query

variable {q : Query}

/-- An entry of the queue will bring up the state at a cost of at most `cost`. -/
def Waits (s : Search) (t : State) (cost : Nat) : Prop :=
  ∃ e ∈ s.queue.entries, e.state = t ∧ e.arrived = false ∧ e.cost ≤ cost

/-- All that follows from reaching the state at `cost` is known. -/
structure IsSettled (q : Query) (s : Search) (t : State) (cost : Nat) : Prop where
  steps : ∀ h ∈ Heading.steps, q.Allows t h →
    ∃ l, s.labels[t.next h]? = some l ∧ l.cost ≤ cost + 1 + costOfTurn t.heading h
  arrival : q.Accepts t → ∃ e ∈ s.queue.entries, e.arrived = true ∧
    e.cost ≤ cost + costOfTurn t.heading q.goalHeading

/-- The invariant of the search. The states and costs of `exempt` need neither wait nor be
settled: during a round this is the state that is being settled. -/
structure Invariant (q : Query) (exempt : State → Nat → Prop) (s : Search) : Prop where
  ordered : s.queue.Ordered
  spells : ∀ t l, s.labels[t]? = some l → q.Spells t l
  start : ∃ l, s.labels[(⟨q.start, q.startHeading⟩ : State)]? = some l ∧ l.cost = 0
  arrivals : ∀ e ∈ s.queue.entries, e.arrived = true → q.Accepts e.state ∧
    ∃ l, s.labels[e.state]? = some l ∧ l.cost + costOfTurn e.state.heading q.goalHeading ≤ e.cost
  known : ∀ t l, s.labels[t]? = some l →
    exempt t l.cost ∨ Waits s t l.cost ∨ q.IsSettled s t l.cost

theorem Waits.mono {s s' : Search} {t : State} {cost : Nat} (hg : s.Grows s')
    (hw : Waits s t cost) : Waits s' t cost := by
  obtain ⟨e, he, hw⟩ := hw
  exact ⟨e, hg.queue e he, hw⟩

theorem IsSettled.mono {s s' : Search} {t : State} {cost : Nat} (hg : s.Grows s')
    (hs : q.IsSettled s t cost) : q.IsSettled s' t cost where
  steps h hh ha := by
    obtain ⟨l, hl, hle⟩ := hs.steps h hh ha
    obtain ⟨l', hl', hle'⟩ := hg.labels _ l hl
    exact ⟨l', hl', Nat.le_trans hle' hle⟩
  arrival ha := by
    obtain ⟨e, he, ha, hc⟩ := hs.arrival ha
    exact ⟨e, hg.queue e he, ha, hc⟩

theorem Invariant.weaken {exempt exempt' : State → Nat → Prop} {s : Search}
    (hi : q.Invariant exempt s)
    (h : ∀ t l, s.labels[t]? = some l → exempt t l.cost →
      exempt' t l.cost ∨ Waits s t l.cost ∨ q.IsSettled s t l.cost) : q.Invariant exempt' s := by
  refine { hi with known := ?_ }
  intro t l hl
  rcases hi.known t l hl with he | hk
  · exact h t l hl he
  · exact .inr hk

/-! ### One round -/

/-- Taking an entry out of the queue exempts its state. -/
theorem Invariant.pop {s : Search} {e : Entry} {rest : Queue}
    (hi : q.Invariant (fun _ _ => False) s) (hp : s.queue.pop? = some (e, rest))
    (ha : e.arrived = false) :
    q.Invariant (fun t cost => t = e.state ∧ e.cost ≤ cost) { s with queue := rest } := by
  have hmem := Queue.mem_entries_of_pop? hp
  refine ⟨Queue.ordered_of_pop? hi.ordered hp, hi.spells, hi.start, ?_, ?_⟩
  · intro x hx
    exact hi.arrivals x ((hmem x).mpr (.inr hx))
  · intro t l hl
    rcases hi.known t l hl with hf | ⟨x, hx, hxt, hxa, hxc⟩ | hs
    · exact hf.elim
    · rcases (hmem x).mp hx with rfl | hx
      · exact .inl ⟨hxt.symm, hxc⟩
      · exact .inr (.inl ⟨x, hx, hxt, hxa, hxc⟩)
    · refine .inr (.inr ⟨hs.steps, ?_⟩)
      intro hg
      obtain ⟨x, hx, hxa, hxc⟩ := hs.arrival hg
      rcases (hmem x).mp hx with rfl | hx
      · rw [ha] at hxa
        cases hxa
      · exact ⟨x, hx, hxa, hxc⟩

theorem grows_arrive (t : State) (label : Label) (s : Search) : s.Grows (q.arrive t label s) := by
  unfold arrive
  split
  · exact Search.grows_enqueue s _ t true
  · exact .refl s

theorem Invariant.arrive {exempt : State → Nat → Prop} {s : Search} {t : State} {label : Label}
    (hi : q.Invariant exempt s) (hl : s.labels[t]? = some label) :
    q.Invariant exempt (q.arrive t label s) := by
  have hg := grows_arrive (q := q) t label s
  unfold Query.arrive at hg ⊢
  split at hg
  · rename_i ha
    rw [if_pos ha]
    refine ⟨Queue.ordered_push hi.ordered _, hi.spells, hi.start, ?_, ?_⟩
    · intro e he hea
      rcases (Search.mem_entries_enqueue _ _ _ _ e).mp he with rfl | he
      · exact ⟨ha, label, hl, Nat.le_refl _⟩
      · exact hi.arrivals e he hea
    · intro u l hl
      exact (hi.known u l hl).imp_right (Or.imp (Waits.mono hg) (IsSettled.mono hg))
  · rename_i ha
    rw [if_neg ha]
    exact hi

theorem exists_entry_arrive {t : State} (label : Label) (s : Search) (ha : q.Accepts t) :
    ∃ e ∈ (q.arrive t label s).queue.entries, e.arrived = true ∧
      e.cost ≤ label.cost + costOfTurn t.heading q.goalHeading := by
  have he : q.arrive t label s =
      s.enqueue (label.cost + costOfTurn t.heading q.goalHeading) t true := if_pos ha
  rw [he]
  exact ⟨_, (Search.mem_entries_enqueue _ _ _ _ _).mpr (.inl rfl), rfl, Nat.le_refl _⟩

theorem Invariant.record {exempt : State → Nat → Prop} {s : Search} {t : State} {label : Label}
    (hi : q.Invariant exempt s) (hl : q.Spells t label) : q.Invariant exempt (s.record t label) := by
  have hg := s.grows_record t label
  rcases s.record_cases t label with ⟨_, _, _, he⟩ | ⟨hlt, he⟩
  · rw [he]
    exact hi
  rw [he] at hg ⊢
  refine ⟨Queue.ordered_push hi.ordered _, ?_, ?_, ?_, ?_⟩
  · intro u l hu
    simp only [Search.enqueue, Search.getElem?_insert_label] at hu
    split at hu
    · rename_i htu
      cases hu
      exact htu ▸ hl
    · exact hi.spells u l hu
  · obtain ⟨l, hs, hz⟩ := hi.start
    obtain ⟨l', hs', hle⟩ := hg.labels _ l hs
    exact ⟨l', hs', by omega⟩
  · intro e he hea
    rcases (Search.mem_entries_enqueue _ _ _ _ e).mp he with rfl | he
    · cases hea
    · obtain ⟨hacc, l, hs, hle⟩ := hi.arrivals e he hea
      obtain ⟨l', hs', hle'⟩ := hg.labels _ l hs
      exact ⟨hacc, l', hs', by omega⟩
  · intro u l hu
    simp only [Search.enqueue, Search.getElem?_insert_label] at hu
    split at hu
    · -- the state of the new label waits, whatever it did before
      rename_i htu
      cases hu
      exact .inr (.inl ⟨_, (Search.mem_entries_enqueue _ _ _ _ _).mpr (.inl rfl), htu, rfl,
        Nat.le_refl _⟩)
    · exact (hi.known u l hu).imp_right (Or.imp (Waits.mono hg) (IsSettled.mono hg))

theorem grows_extend (t : State) (label : Label) (s : Search) (h : Heading) :
    s.Grows (q.extend t label s h) := by
  unfold extend
  simp only []
  split
  · exact s.grows_record _ _
  · exact .refl s

theorem Invariant.extend {exempt : State → Nat → Prop} {s : Search} {t : State} {label : Label}
    {h : Heading} (hi : q.Invariant exempt s) (hl : q.Spells t label) (hh : h ∈ Heading.steps) :
    q.Invariant exempt (q.extend t label s h) := by
  unfold Query.extend
  simp only []
  split
  · rename_i ha
    exact hi.record (hl.next hh ⟨ha.1, (q.isOpen_iff _).mp ha.2⟩)
  · exact hi

theorem exists_label_extend {t : State} (label : Label) (s : Search) {h : Heading}
    (ha : q.Allows t h) :
    ∃ l, (q.extend t label s h).labels[t.next h]? = some l ∧
      l.cost ≤ label.cost + 1 + costOfTurn t.heading h := by
  unfold Query.extend
  simp only []
  rw [if_pos ⟨ha.1, (q.isOpen_iff _).mpr ha.2⟩]
  exact s.exists_label_record _ _

theorem grows_foldl_extend (t : State) (label : Label) (hs : List Heading) (s : Search) :
    s.Grows (hs.foldl (q.extend t label) s) := by
  induction hs generalizing s with
  | nil => exact .refl s
  | cons h hs ih => exact (grows_extend t label s h).trans (ih _)

theorem Invariant.foldl_extend {exempt : State → Nat → Prop} {s : Search} {t : State}
    {label : Label} {hs : List Heading} (hi : q.Invariant exempt s) (hl : q.Spells t label)
    (hh : ∀ h ∈ hs, h ∈ Heading.steps) : q.Invariant exempt (hs.foldl (q.extend t label) s) := by
  induction hs generalizing s with
  | nil => exact hi
  | cons h hs ih => exact ih (hi.extend hl (hh h (.head _))) (fun k hk => hh k (.tail _ hk))

theorem exists_label_foldl_extend {t : State} {label : Label} {hs : List Heading} {h : Heading}
    (s : Search) (hh : h ∈ hs) (ha : q.Allows t h) :
    ∃ l, (hs.foldl (q.extend t label) s).labels[t.next h]? = some l ∧
      l.cost ≤ label.cost + 1 + costOfTurn t.heading h := by
  induction hs generalizing s with
  | nil => cases hh
  | cons k hs ih =>
    rcases List.mem_cons.mp hh with rfl | hh
    · obtain ⟨l, hl, hle⟩ := exists_label_extend label s ha
      obtain ⟨l', hl', hle'⟩ := (grows_foldl_extend t label hs _).labels _ l hl
      exact ⟨l', hl', Nat.le_trans hle' hle⟩
    · exact ih _ hh

/-- Once a state has been settled, it need not be exempt any more. -/
theorem Invariant.expand {s : Search} {t : State} {label : Label}
    (hi : q.Invariant (fun u cost => u = t ∧ cost = label.cost) s)
    (hl : s.labels[t]? = some label) :
    q.Invariant (fun _ _ => False)
      (Heading.steps.foldl (q.extend t label) (q.arrive t label s)) := by
  have hfold := grows_foldl_extend (q := q) t label Heading.steps (q.arrive t label s)
  apply ((hi.arrive hl).foldl_extend (hi.spells t label hl) (fun h hh => hh)).weaken
  rintro u l hu ⟨rfl, hc⟩
  refine .inr (.inr ⟨?_, ?_⟩)
  · intro h hh ha
    rw [hc]
    exact exists_label_foldl_extend _ hh ha
  · intro ha
    obtain ⟨x, hx, hxa, hxc⟩ := exists_entry_arrive label s ha
    exact ⟨x, hfold.queue x hx, hxa, by omega⟩

/-- A round that goes on keeps the invariant. -/
theorem Invariant.settle {s next : Search} (hi : q.Invariant (fun _ _ => False) s)
    (hn : q.settle s = .continues next) : q.Invariant (fun _ _ => False) next := by
  unfold Query.settle at hn
  split at hn
  · cases hn
  rename_i e rest hp
  have he : e ∈ s.queue.entries := (Queue.mem_entries_of_pop? hp e).mpr (.inl rfl)
  split at hn
  · rename_i hnone
    cases hn
    cases hea : e.arrived with
    | true =>
      obtain ⟨_, l, hl, _⟩ := hi.arrivals e he hea
      cases hnone.symm.trans hl
    | false =>
      apply (hi.pop hp hea).weaken
      rintro t l hl ⟨rfl, _⟩
      cases hnone.symm.trans hl
  · rename_i label hlabel
    split at hn
    · cases hn
    rename_i hea
    have hpop := hi.pop hp (Bool.eq_false_iff.mpr hea)
    split at hn
    · -- an older entry of a state that has become cheaper
      rename_i hlt
      cases hn
      apply hpop.weaken
      rintro t l hl ⟨rfl, hle⟩
      cases hlabel.symm.trans hl
      omega
    · cases hn
      have hexempt : q.Invariant (fun t cost => t = e.state ∧ cost = label.cost)
          { s with queue := rest } := by
        apply hpop.weaken
        rintro t l hl ⟨rfl, _⟩
        cases hlabel.symm.trans hl
        exact .inl ⟨rfl, rfl⟩
      exact hexempt.expand hlabel

theorem invariant_initial (q : Query) : q.Invariant (fun _ _ => False) q.initial := by
  have hlabel (t : State) (l : Label) (hl : q.initial.labels[t]? = some l) :
      t = ⟨q.start, q.startHeading⟩ ∧ l = ⟨0, [q.start]⟩ := by
    simp only [initial, Search.getElem?_insert_label, Std.HashMap.getElem?_empty] at hl
    split at hl
    · rename_i ht
      cases hl
      exact ⟨ht.symm, rfl⟩
    · cases hl
  have hentry (e : Entry) : e ∈ q.initial.queue.entries ↔
      e = ⟨0, 0, ⟨q.start, q.startHeading⟩, false⟩ := by
    simp only [initial, Queue.mem_entries_push, Queue.entries, List.not_mem_nil, or_false]
  have hordered : Queue.empty.Ordered := trivial
  refine ⟨Queue.ordered_push hordered _, ?_, ?_, ?_, ?_⟩
  · intro t l hl
    obtain ⟨rfl, rfl⟩ := hlabel t l hl
    exact ⟨[], .nil q, rfl, rfl⟩
  · refine ⟨⟨0, [q.start]⟩, ?_, rfl⟩
    simp only [initial, Search.getElem?_insert_label, if_true]
  · intro e he hea
    rw [(hentry e).mp he] at hea
    cases hea
  · intro t l hl
    obtain ⟨rfl, rfl⟩ := hlabel t l hl
    exact .inr (.inl ⟨_, (hentry _).mpr rfl, rfl, rfl, Nat.le_refl _⟩)

end Query
end FlowGrid.Lattice
