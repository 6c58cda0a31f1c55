import Mathlib.Data.List.Forall2

/-! Computations that may fail. One that runs in stages succeeds exactly when every stage
does, and one over a list when it does so for every entry. -/

namespace FlowGrid.Result

variable {α β ε ε' : Type}

theorem bind_eq_ok_iff {x : Except ε α} {f : α → Except ε β} {b : β} :
    x >>= f = .ok b ↔ ∃ a, x = .ok a ∧ f a = .ok b := by
  constructor
  · intro h
    cases x with
    | error e => cases h
    | ok a => exact ⟨a, rfl, h⟩
  · rintro ⟨a, rfl, h⟩
    exact h

theorem bind_eq_error_iff {x : Except ε α} {f : α → Except ε β} {e : ε} :
    x >>= f = .error e ↔ x = .error e ∨ ∃ a, x = .ok a ∧ f a = .error e := by
  constructor
  · intro h
    cases x with
    | error e' =>
      cases h
      exact .inl rfl
    | ok a => exact .inr ⟨a, rfl, h⟩
  · rintro (rfl | ⟨a, rfl, h⟩)
    · rfl
    · exact h

theorem mapError_eq_ok_iff {x : Except ε α} {f : ε → ε'} {a : α} :
    x.mapError f = .ok a ↔ x = .ok a := by
  cases x with
  | error e => constructor <;> exact nofun
  | ok b => exact ⟨fun h => by cases h; rfl, fun h => by cases h; rfl⟩

theorem mapError_eq_error {x : Except ε α} {e : ε} (f : ε → ε') (h : x = .error e) :
    x.mapError f = .error (f e) := by
  rw [h]
  rfl

theorem map_eq_ok_iff {x : Except ε α} {f : α → β} {b : β} :
    x.map f = .ok b ↔ ∃ a, x = .ok a ∧ f a = b := by
  cases x with
  | error e => simp [Except.map]
  | ok a => simp [Except.map]

theorem map_eq_error_iff {x : Except ε α} {f : α → β} {e : ε} :
    x.map f = .error e ↔ x = .error e := by
  cases x with
  | error e' => simp [Except.map]
  | ok a => simp [Except.map]

theorem mapM_eq_ok_iff {f : α → Except ε β} {l : List α} {bs : List β} :
    l.mapM f = .ok bs ↔ l.map f = bs.map .ok := by
  induction l generalizing bs with
  | nil =>
    rw [List.mapM_nil, List.map_nil]
    constructor
    · intro h
      cases h
      rfl
    · intro h
      rw [List.map_eq_nil_iff.mp h.symm]
      rfl
  | cons a l ih =>
    simp only [List.mapM_cons, bind_eq_ok_iff, ih, List.map_cons]
    constructor
    · rintro ⟨b, hb, bs, hbs, h⟩
      cases h
      rw [hb, hbs, List.map_cons]
    · intro h
      obtain ⟨b, bs, rfl, hb, hbs⟩ := List.map_eq_cons_iff.mp h.symm
      exact ⟨b, hb.symm, bs, hbs.symm, rfl⟩

/-- The result at an index comes from the entry at that index. -/
theorem exists_of_mapM {f : α → Except ε β} {l : List α} {bs : List β} (h : l.mapM f = .ok bs)
    {i : Nat} {b : β} (hb : bs[i]? = some b) : ∃ a, l[i]? = some a ∧ f a = .ok b := by
  have hi : (l.map f)[i]? = (bs.map .ok)[i]? := by rw [mapM_eq_ok_iff.mp h]
  rwa [List.getElem?_map, List.getElem?_map, hb, Option.map_some, Option.map_eq_some_iff] at hi

theorem exists_result_of_mapM {f : α → Except ε β} {l : List α} {bs : List β}
    (h : l.mapM f = .ok bs) {i : Nat} {a : α} (ha : l[i]? = some a) :
    ∃ b, bs[i]? = some b ∧ f a = .ok b := by
  have hi : (l.map f)[i]? = (bs.map .ok)[i]? := by rw [mapM_eq_ok_iff.mp h]
  rw [List.getElem?_map, List.getElem?_map, ha, Option.map_some, eq_comm,
    Option.map_eq_some_iff] at hi
  obtain ⟨b, hb, hf⟩ := hi
  exact ⟨b, hb, hf.symm⟩

theorem exists_mapM {f : α → Except ε β} {l : List α} (h : ∀ a ∈ l, ∃ b, f a = .ok b) :
    ∃ bs, l.mapM f = .ok bs := by
  induction l with
  | nil => exact ⟨[], rfl⟩
  | cons a l ih =>
    obtain ⟨b, hb⟩ := h a (.head _)
    obtain ⟨bs, hbs⟩ := ih fun c hc => h c (.tail _ hc)
    exact ⟨b :: bs, by rw [List.mapM_cons, hb, hbs]; rfl⟩

/-- Results and entries correspond one by one. -/
theorem forall₂_of_mapM {f : α → Except ε β} {l : List α} {bs : List β}
    (h : l.mapM f = .ok bs) : List.Forall₂ (fun a b => f a = .ok b) l bs := by
  rw [mapM_eq_ok_iff] at h
  induction l generalizing bs with
  | nil =>
    rw [List.map_eq_nil_iff.mp h.symm]
    exact .nil
  | cons a l ih =>
    obtain ⟨b, bs, rfl, hb, hbs⟩ := List.map_eq_cons_iff.mp h.symm
    exact .cons hb.symm (ih hbs.symm)

/-- One over a list fails where the first entry does. -/
theorem exists_of_mapM_eq_error {f : α → Except ε β} {l : List α} {e : ε}
    (h : l.mapM f = .error e) : ∃ before a after, l = before ++ a :: after ∧
      (∀ b ∈ before, ∃ r, f b = .ok r) ∧ f a = .error e := by
  induction l with
  | nil => cases h
  | cons a l ih =>
    rw [List.mapM_cons] at h
    cases ha : f a with
    | error e' =>
      rw [ha] at h
      cases h
      exact ⟨[], a, l, rfl, fun b hb => absurd hb List.not_mem_nil, ha⟩
    | ok r =>
      cases hl : l.mapM f with
      | ok rs =>
        rw [ha, hl] at h
        cases h
      | error e' =>
        rw [ha, hl] at h
        cases h
        obtain ⟨before, b, after, rfl, hbefore, hb⟩ := ih hl
        refine ⟨a :: before, b, after, rfl, fun c hc => ?_, hb⟩
        rcases List.mem_cons.mp hc with rfl | hc
        · exact ⟨r, ha⟩
        · exact hbefore c hc

/-! ### First errors -/

/-- Fails with the first of some errors. -/
def firstOf : List ε → Except ε Unit
  | [] => .ok ()
  | e :: _ => .error e

theorem firstOf_append (l more : List ε) :
    firstOf (l ++ more) = firstOf l >>= fun _ => firstOf more := by
  cases l <;> rfl

theorem firstOf_eq_ok_iff {l : List ε} : firstOf l = .ok () ↔ l = [] := by
  cases l <;> simp [firstOf]

theorem firstOf_eq_error_iff {l : List ε} {e : ε} : firstOf l = .error e ↔ l.head? = some e := by
  cases l <;> simp [firstOf]

/-! ### Computations in another form -/

section Both

variable {α' β' : Type} {f : ε → ε'} {g : α → α'} {g' : β → β'}

/-- The computation with its value and its error in another form. -/
def both (f : ε → ε') (g : α → α') : Except ε α → Except ε' α'
  | .ok a => .ok (g a)
  | .error e => .error (f e)

theorem both_bind {x : Except ε α} {y : Except ε' α'} {k : α → Except ε β}
    {k' : α' → Except ε' β'} (hx : y = both f g x) (hk : ∀ a, k' (g a) = both f g' (k a)) :
    y >>= k' = both f g' (x >>= k) := by
  subst hx
  cases x with
  | error e => rfl
  | ok a => exact hk a

theorem both_mapM {k : α → Except ε β} {k' : α' → Except ε' β'}
    (hk : ∀ a, k' (g a) = both f g' (k a)) (l : List α) :
    (l.map g).mapM k' = both f (List.map g') (l.mapM k) := by
  induction l with
  | nil => rfl
  | cons a l ih =>
    rw [List.map_cons, List.mapM_cons, List.mapM_cons]
    exact both_bind (hk a) fun b => both_bind ih fun bs => rfl

/-- A list whose entries stay as they are, and so do the results. -/
theorem both_mapM_id {k : α → Except ε β} {k' : α → Except ε' β}
    (hk : ∀ a, k' a = both f id (k a)) (l : List α) : l.mapM k' = both f id (l.mapM k) := by
  have h := both_mapM (g := id) hk l
  rwa [List.map_id, List.map_id_fun] at h

theorem both_mapError {ε₁ ε₁' : Type} {i : ε → ε₁} {i' : ε' → ε₁'} {j : ε₁ → ε₁'}
    {x : Except ε α} {y : Except ε' α'} (hx : y = both f g x) (hi : ∀ e, i' (f e) = j (i e)) :
    y.mapError i' = both j g (x.mapError i) := by
  subst hx
  cases x with
  | error e => exact congrArg Except.error (hi e)
  | ok a => rfl

end Both

/-! ### What a computation yields -/

/-- A value that is `good`, or an error that is `bad`. -/
def Yields (good : α → Prop) (bad : ε → Prop) : Except ε α → Prop
  | .ok a => good a
  | .error e => bad e

namespace Yields

variable {good : α → Prop} {good' : β → Prop} {bad : ε → Prop} {x : Except ε α}

theorem mono {more : α → Prop} {worse : ε → Prop} (h : Yields good bad x)
    (hgood : ∀ a, good a → more a) (hbad : ∀ e, bad e → worse e) : Yields more worse x := by
  cases x with
  | error e => exact hbad e h
  | ok a => exact hgood a h

/-- What is yielded together with the computation that yields it. -/
theorem with_eq (h : Yields good bad x) : Yields (fun a => x = .ok a ∧ good a) bad x := by
  cases x with
  | error e => exact h
  | ok a => exact ⟨rfl, h⟩

theorem bind {f : α → Except ε β} (h : Yields good bad x)
    (hf : ∀ a, good a → Yields good' bad (f a)) : Yields good' bad (x >>= f) := by
  cases x with
  | error e => exact h
  | ok a => exact hf a h

theorem map {f : α → β} (h : Yields good bad x) (hf : ∀ a, good a → good' (f a)) :
    Yields good' bad (x.map f) := by
  cases x with
  | error e => exact h
  | ok a => exact hf a h

theorem mapError {bad' : ε' → Prop} {f : ε → ε'} (h : Yields good bad x)
    (hf : ∀ e, bad e → bad' (f e)) : Yields good bad' (x.mapError f) := by
  cases x with
  | error e => exact hf e h
  | ok a => exact h

theorem mapM {r : α → β → Prop} {f : α → Except ε β} {l : List α}
    (h : ∀ a ∈ l, Yields (r a) bad (f a)) : Yields (List.Forall₂ r l) bad (l.mapM f) := by
  induction l with
  | nil => exact .nil
  | cons a l ih =>
    rw [List.forall_mem_cons] at h
    rw [List.mapM_cons]
    exact h.1.bind fun b hb => (ih h.2).bind fun bs hbs => .cons hb hbs

end Yields
end FlowGrid.Result
