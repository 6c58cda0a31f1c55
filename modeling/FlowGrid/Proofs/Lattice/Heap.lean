import FlowGrid.Lattice.Queue

/-! The queue as a bag of entries. Merging joins the bags, and where no branch of a heap
holds an entry that precedes its root, the entry that comes out first is preceded by no
other. -/

namespace FlowGrid.Lattice

theorem Entry.precedes_iff (a b : Entry) :
    a.precedes b = true ↔ a.cost < b.cost ∨ a.cost = b.cost ∧ a.order < b.order := by
  simp only [precedes, Bool.or_eq_true, Bool.and_eq_true, decide_eq_true_eq]

namespace Queue

def entries : Queue → List Entry
  | .empty => []
  | .node top left right => top :: (left.entries ++ right.entries)

/-- No entry precedes one that stands above it. -/
def Ordered : Queue → Prop
  | .empty => True
  | .node top left right =>
    (∀ e ∈ left.entries ++ right.entries, ¬ e.precedes top = true) ∧ left.Ordered ∧ right.Ordered

theorem entries_merge_perm (p q : Queue) : (merge p q).entries.Perm (p.entries ++ q.entries) := by
  fun_induction merge p q with
  | case1 => exact .refl _
  | case2 => simp only [entries, List.append_nil, List.Perm.refl]
  | case3 a left right b left' right' _ ih =>
    rw [List.perm_iff_count] at ih ⊢
    intro e
    have hi := ih e
    simp only [entries, List.count_cons, List.count_append, List.cons_append] at hi ⊢
    omega
  | case4 a left right b left' right' _ ih =>
    rw [List.perm_iff_count] at ih ⊢
    intro e
    have hi := ih e
    simp only [entries, List.count_cons, List.count_append, List.cons_append] at hi ⊢
    omega

theorem mem_entries_merge (p q : Queue) (e : Entry) :
    e ∈ (merge p q).entries ↔ e ∈ p.entries ∨ e ∈ q.entries := by
  rw [(entries_merge_perm p q).mem_iff, List.mem_append]

theorem mem_entries_push (q : Queue) (a e : Entry) :
    e ∈ (q.push a).entries ↔ e = a ∨ e ∈ q.entries := by
  simp only [push, mem_entries_merge, entries, List.append_nil, List.mem_singleton]

theorem ordered_merge {p q : Queue} (hp : p.Ordered) (hq : q.Ordered) : (merge p q).Ordered := by
  fun_induction merge p q with
  | case1 => exact hq
  | case2 => exact hp
  | case3 a left right b left' right' hab ih =>
    refine ⟨?_, ih hp hq.2.2, hq.2.1⟩
    intro e he
    simp only [List.mem_append, mem_entries_merge, entries, List.mem_cons] at he
    have ha : ∀ e ∈ left.entries ++ right.entries, ¬ e.precedes a = true := hp.1
    have hb : ∀ e ∈ left'.entries ++ right'.entries, ¬ e.precedes b = true := hq.1
    simp only [List.mem_append, Entry.precedes_iff] at ha hb hab ⊢
    rcases he with ((rfl | he) | he) | he
    · omega
    · have := ha e he
      omega
    · exact hb e (.inr he)
    · exact hb e (.inl he)
  | case4 a left right b left' right' hab ih =>
    refine ⟨?_, ih hp.2.2 hq, hp.2.1⟩
    intro e he
    simp only [List.mem_append, mem_entries_merge, entries, List.mem_cons] at he
    have ha : ∀ e ∈ left.entries ++ right.entries, ¬ e.precedes a = true := hp.1
    have hb : ∀ e ∈ left'.entries ++ right'.entries, ¬ e.precedes b = true := hq.1
    simp only [List.mem_append, Entry.precedes_iff] at ha hb hab ⊢
    rcases he with (he | rfl | he) | he
    · exact ha e (.inr he)
    · exact hab
    · have := hb e he
      omega
    · exact ha e (.inl he)

theorem ordered_push {q : Queue} (hq : q.Ordered) (e : Entry) : (q.push e).Ordered := by
  apply ordered_merge _ hq
  refine ⟨?_, trivial, trivial⟩
  intro e' he
  cases he

theorem pop?_eq_none_iff (q : Queue) : q.pop? = none ↔ q.entries = [] := by
  cases q with
  | empty => simp only [pop?, entries]
  | node top left right => simp only [pop?, entries, reduceCtorEq]

theorem mem_entries_of_pop? {q rest : Queue} {e : Entry} (h : q.pop? = some (e, rest))
    (x : Entry) : x ∈ q.entries ↔ x = e ∨ x ∈ rest.entries := by
  cases q with
  | empty => cases h
  | node top left right =>
    cases h
    simp only [entries, mem_entries_merge, List.mem_cons, List.mem_append]

theorem ordered_of_pop? {q rest : Queue} {e : Entry} (hq : q.Ordered)
    (h : q.pop? = some (e, rest)) : rest.Ordered := by
  cases q with
  | empty => cases h
  | node top left right =>
    cases h
    exact ordered_merge hq.2.1 hq.2.2

/-- The entry that comes out is the cheapest. -/
theorem cost_le_of_pop? {q rest : Queue} {e : Entry} (hq : q.Ordered)
    (h : q.pop? = some (e, rest)) {x : Entry} (hx : x ∈ q.entries) : e.cost ≤ x.cost := by
  cases q with
  | empty => cases h
  | node top left right =>
    cases h
    rcases List.mem_cons.mp hx with rfl | hx
    · exact Nat.le_refl _
    · have := hq.1 x hx
      rw [Entry.precedes_iff] at this
      omega

end Queue
end FlowGrid.Lattice
