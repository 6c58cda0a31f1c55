/-! Lists whose entries are told apart by a key. Main statements: a list has no repeated
entry exactly when its keys are distinct, and a merged list has the keys of the base
first, then the new ones. -/

namespace FlowGrid.Keyed

variable {α κ : Type} [DecidableEq κ]

/-- The first entry whose key is in `seen` or belongs to an earlier entry. -/
def repeatedAfter? (key : α → κ) (seen : List κ) : List α → Option α
  | [] => none
  | a :: rest => if key a ∈ seen then some a else repeatedAfter? key (key a :: seen) rest

/-- The first entry whose key belongs to an earlier entry. -/
def repeated? (key : α → κ) (entries : List α) : Option α := repeatedAfter? key [] entries

theorem repeatedAfter?_eq_none_iff (key : α → κ) (seen : List κ) (entries : List α) :
    repeatedAfter? key seen entries = none ↔
      (entries.map key).Nodup ∧ ∀ a ∈ entries, key a ∉ seen := by
  induction entries generalizing seen with
  | nil => simp [repeatedAfter?]
  | cons a rest ih =>
    by_cases h : key a ∈ seen
    · simp [repeatedAfter?, h]
    · simp only [repeatedAfter?, h, if_false, ih, List.map_cons, List.nodup_cons, List.mem_cons,
        List.mem_map, not_or, not_exists, not_and]
      constructor
      · rintro ⟨hn, hr⟩
        refine ⟨⟨fun b hb he => (hr b hb).1 he, hn⟩, ?_⟩
        rintro b (rfl | hb)
        · exact h
        · exact (hr b hb).2
      · rintro ⟨⟨ha, hn⟩, hr⟩
        exact ⟨hn, fun b hb => ⟨fun he => ha b hb he, hr b (.inr hb)⟩⟩

theorem repeated?_eq_none_iff (key : α → κ) (entries : List α) :
    repeated? key entries = none ↔ (entries.map key).Nodup := by
  simp [repeated?, repeatedAfter?_eq_none_iff]

/-- The entries of `base`, each replaced by the entry of `own` that has its key, and then
the entries of `own` whose key is new. -/
def merge (key : α → κ) (base own : List α) : List α :=
  base.map (fun b => (own.find? fun a => key a = key b).getD b) ++
    own.filter fun a => key a ∉ base.map key

theorem map_key_merge (key : α → κ) (base own : List α) :
    (merge key base own).map key =
      base.map key ++ (own.map key).filter fun k => k ∉ base.map key := by
  have h (b : α) : key ((own.find? fun a => key a = key b).getD b) = key b := by
    cases hf : own.find? fun a => key a = key b with
    | none => rfl
    | some a => simpa using List.find?_some hf
  simp only [merge, List.map_append, List.map_map, List.filter_map]
  congr 1
  exact List.map_congr_left fun b _ => h b

end FlowGrid.Keyed
