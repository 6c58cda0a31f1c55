import FlowGrid.Proofs.Document.Cells
import Mathlib.Data.List.Nodup

/-! What a draft says. Its text, its shape and its links are those of its cell, or else those
defined for its identifier; its classes are all names of both, each at its first appearance.
There is one draft for every cell that holds a node, in reading order, and every keyword that
the document uses for a shape or for arrowheads is one of the allowed ones. -/

namespace FlowGrid

/-! ### Merged settings -/

namespace Keyed

variable {α β κ : Type} [DecidableEq κ] {key : α → κ} {f : α → Option β} {k : κ}

theorem findSome?_eq_bind_find? (hf : ∀ a, (f a).isSome ↔ key a = k) (entries : List α) :
    entries.findSome? f = (entries.find? fun a => key a = k).bind f := by
  induction entries with
  | nil => rfl
  | cons a entries ih =>
    rw [List.findSome?_cons, List.find?_cons, ih]
    cases ha : f a with
    | none =>
      have hne : ¬ key a = k := by rw [← hf, ha]; simp
      rw [decide_eq_false hne]
    | some b =>
      have heq : key a = k := by rw [← hf, ha]; simp
      rw [decide_eq_true heq, Option.bind_some, ha]

theorem key_getD_find? (key : α → κ) (own : List α) (b : α) :
    key ((own.find? fun a => key a = key b).getD b) = key b := by
  cases hf : own.find? fun a => key a = key b with
  | none => rfl
  | some a => simpa using List.find?_some hf

theorem mem_of_mem_merge {base own : List α} {a : α} (h : a ∈ merge key base own) :
    a ∈ base ∨ a ∈ own := by
  rcases List.mem_append.mp h with h | h
  · obtain ⟨b, hb, rfl⟩ := List.mem_map.mp h
    cases hf : own.find? fun a => key a = key b with
    | none => exact .inl hb
    | some a => exact .inr (List.mem_of_find?_eq_some hf)
  · exact .inr (List.mem_filter.mp h).1

/-- A merged list has the entry of a key that the own list has, or else that of the base. -/
theorem findSome?_merge (hf : ∀ a, (f a).isSome ↔ key a = k) (base own : List α) :
    (merge key base own).findSome? f = (own.findSome? f).or (base.findSome? f) := by
  have hsome {entries : List α} {a : α} (h : entries.find? (fun a => key a = k) = some a) :
      (f a).isSome := (hf a).mpr (by simpa using List.find?_some h)
  simp only [findSome?_eq_bind_find? hf, merge, List.find?_append, List.find?_map,
    List.find?_filter, Function.comp_def, key_getD_find?]
  cases hb : base.find? fun a => key a = k with
  | some b =>
    obtain rfl : key b = k := by simpa using List.find?_some hb
    cases ho : own.find? fun a => key a = key b with
    | some a =>
      obtain ⟨v, hv⟩ := Option.isSome_iff_exists.mp (hsome ho)
      simp [ho, hv]
    | none => simp [ho]
  | none =>
    have hnew (a : α) : decide (key a ∉ base.map key) = true ∧ decide (key a = k) = true ↔
        key a = k := by
      simp only [decide_eq_true_eq, and_iff_right_iff_imp]
      rintro rfl
      simpa using hb
    simp only [hnew, Option.map_none, Option.none_or, Option.bind_none, Option.or_none]

end Keyed

namespace Draft

variable {σ β : Type}

/-- The settings list the value, or no value of its kind. -/
def Lists (pick : σ → Option β) (settings : List (Located σ)) : Option β → Prop
  | some value => ∃ s ∈ settings, pick s.value = some value
  | none => ∀ s ∈ settings, pick s.value = none

/-- The value that a cell lists itself, or else what its base lists. -/
inductive Chooses (pick : σ → Option β) (base own : List (Located σ)) : Option β → Prop
  | own {value : β} (h : Lists pick own (some value)) : Chooses pick base own (some value)
  | base {value : Option β} (h : Lists pick own none) (hb : Lists pick base value) :
    Chooses pick base own value

theorem lists_pick? (pick : σ → Option β) (settings : List (Located σ)) :
    Lists pick settings (pick? pick settings) := by
  cases h : pick? pick settings with
  | none => exact List.findSome?_eq_none_iff.mp h
  | some value => exact List.exists_of_findSome?_eq_some h

theorem pick?_mergeSettings {pick : NodeSetting → Option β} {key : String}
    (hpick : ∀ s, (pick s).isSome ↔ s.key = key) (base own : List (Located NodeSetting)) :
    pick? pick (mergeSettings base own) = (pick? pick own).or (pick? pick base) :=
  Keyed.findSome?_merge (f := fun s : Located NodeSetting => pick s.value)
    (fun s => hpick s.value) base own

theorem chooses_pick?_mergeSettings {pick : NodeSetting → Option β} {key : String}
    (hpick : ∀ s, (pick s).isSome ↔ s.key = key) (base own : List (Located NodeSetting)) :
    Chooses pick base own (pick? pick (mergeSettings base own)) := by
  have hown := lists_pick? pick own
  rw [pick?_mergeSettings hpick]
  cases h : pick? pick own with
  | some value =>
    rw [h] at hown
    exact .own hown
  | none =>
    rw [h] at hown
    exact .base hown (lists_pick? pick base)

end Draft

/-! ### Checked settings -/

/-- The settings repeat no key. -/
def KeysDistinct {σ : Type} (key : σ → String) (settings : List (Located σ)) : Prop :=
  (settings.map fun s => key s.value).Nodup

/-- A link that passes its checks. -/
structure LinkSpec.IsValid (spec : LinkSpec) : Prop where
  keys : KeysDistinct LinkSetting.key spec.settings
  arrowheads : ∀ s ∈ spec.settings, ∀ keyword, s.value = .arrowheads keyword →
    ∃ a ∈ Arrowheads.all, a.name = keyword

/-- Settings of a cell or a definition that pass their checks. -/
structure NodeSetting.AreValid (settings : List (Located NodeSetting)) : Prop where
  keys : KeysDistinct NodeSetting.key settings
  shape : ∀ s ∈ settings, ∀ keyword, s.value = .shape keyword →
    ∃ shape ∈ Shape.all, shape.name = keyword
  links : ∀ s ∈ settings, ∀ specs, s.value = .connect specs → ∀ spec ∈ specs, spec.IsValid

theorem LinkSetting.arrowheads?_eq_some_iff {s : LinkSetting} {keyword : String} :
    s.arrowheads? = some keyword ↔ s = .arrowheads keyword := by
  cases s <;> simp [arrowheads?]

theorem NodeSetting.shape?_eq_some_iff {s : NodeSetting} {keyword : String} :
    s.shape? = some keyword ↔ s = .shape keyword := by
  cases s <;> simp [shape?]

theorem NodeSetting.connect?_eq_some_iff {s : NodeSetting} {specs : List LinkSpec} :
    s.connect? = some specs ↔ s = .connect specs := by
  cases s <;> simp [connect?]

namespace Draft

variable {σ β : Type} {key : σ → String} {settings : List (Located σ)}

theorem keysDistinct_of_checkKeys (h : checkKeys key settings = .ok ()) :
    KeysDistinct key settings := by
  unfold checkKeys at h
  split at h
  · cases h
  · rename_i hnone
    exact (Keyed.repeated?_eq_none_iff _ _).mp hnone

theorem checkKeys_eq_ok_iff : checkKeys key settings = .ok () ↔ KeysDistinct key settings := by
  refine ⟨keysDistinct_of_checkKeys, fun h => ?_⟩
  rw [checkKeys, (Keyed.repeated?_eq_none_iff _ _).mpr h]

/-- Of settings without repeated keys the one of a kind is found with its place. -/
theorem locate?_eq_some {f : σ → Option β} {k : String}
    (hpick : ∀ s, (f s).isSome ↔ key s = k) (hkeys : KeysDistinct key settings)
    {s : Located σ} (hs : s ∈ settings) {v : β} (hv : f s.value = some v) :
    locate? f settings = some ⟨v, s.position⟩ := by
  induction settings with
  | nil => cases hs
  | cons t settings ih =>
    obtain ⟨hfirst, hkeys⟩ := List.nodup_cons.mp hkeys
    rw [locate?, List.findSome?_cons]
    rcases List.mem_cons.mp hs with rfl | hs
    · rw [hv]
      rfl
    -- a setting of the same kind further up has the same key
    · have hkey : key s.value = k := (hpick s.value).mp (by rw [hv]; rfl)
      have hnone : f t.value = none := by
        rw [← Option.not_isSome_iff_eq_none, hpick]
        exact fun ht => hfirst (List.mem_map.mpr ⟨s, hs, hkey.trans ht.symm⟩)
      rw [hnone]
      exact ih hkeys hs

theorem pick?_eq_map_locate? (pick : σ → Option β) (settings : List (Located σ)) :
    pick? pick settings = (locate? pick settings).map Located.value := by
  induction settings with
  | nil => rfl
  | cons s settings ih =>
    rw [pick?, locate?, List.findSome?_cons, List.findSome?_cons, ← pick?, ← locate?, ih]
    cases pick s.value <;> rfl

theorem mem_of_checkKeyword {key : String} {allowed : List String}
    {keyword : Option (Located String)} (h : checkKeyword key allowed keyword = .ok ())
    {k : Located String} (hk : keyword = some k) : k.value ∈ allowed := by
  rw [hk, checkKeyword] at h
  split at h
  · assumption
  · cases h

theorem isValid_of_checkLink {spec : LinkSpec} (h : checkLink spec = .ok ()) : spec.IsValid := by
  obtain ⟨_, hkeys, h⟩ := Result.bind_eq_ok_iff.mp h
  have hkeys := keysDistinct_of_checkKeys hkeys
  refine ⟨hkeys, fun s hs keyword hv => ?_⟩
  have hlocate := locate?_eq_some (f := LinkSetting.arrowheads?) (k := "arrowheads")
    (by rintro (_ | _ | _) <;> simp [LinkSetting.arrowheads?, LinkSetting.key]) hkeys hs
    (v := keyword) (by rw [hv]; rfl)
  simpa using mem_of_checkKeyword h hlocate

theorem isValid_of_checkLinks {specs : List LinkSpec} (h : checkLinks specs = .ok ()) :
    ∀ spec ∈ specs, spec.IsValid := by
  induction specs with
  | nil => exact fun spec hspec => absurd hspec List.not_mem_nil
  | cons spec specs ih =>
    obtain ⟨_, hspec, h⟩ := Result.bind_eq_ok_iff.mp h
    exact List.forall_mem_cons.mpr ⟨isValid_of_checkLink hspec, ih h⟩

theorem isSome_shape?_iff (s : NodeSetting) : s.shape?.isSome ↔ s.key = "shape" := by
  cases s <;> simp [NodeSetting.shape?, NodeSetting.key]

theorem isSome_connect?_iff (s : NodeSetting) : s.connect?.isSome ↔ s.key = "connect" := by
  cases s <;> simp [NodeSetting.connect?, NodeSetting.key]

theorem isSome_text?_iff (s : NodeSetting) : s.text?.isSome ↔ s.key = "text" := by
  cases s <;> simp [NodeSetting.text?, NodeSetting.key]

theorem isSome_classes?_iff (s : NodeSetting) : s.classes?.isSome ↔ s.key = "class" := by
  cases s <;> simp [NodeSetting.classes?, NodeSetting.key]

theorem areValid_of_checkNode {settings : List (Located NodeSetting)}
    (h : checkNode settings = .ok ()) : NodeSetting.AreValid settings := by
  obtain ⟨_, hkeys, h⟩ := Result.bind_eq_ok_iff.mp h
  obtain ⟨_, hshape, hlinks⟩ := Result.bind_eq_ok_iff.mp h
  have hkeys := keysDistinct_of_checkKeys hkeys
  refine ⟨hkeys, fun s hs keyword hv => ?_, fun s hs specs hv => ?_⟩
  · have hlocate := locate?_eq_some isSome_shape?_iff hkeys hs (v := keyword) (by rw [hv]; rfl)
    simpa using mem_of_checkKeyword hshape hlocate
  · have hlocate := locate?_eq_some isSome_connect?_iff hkeys hs (v := specs) (by rw [hv]; rfl)
    rw [pick?_eq_map_locate?, hlocate] at hlinks
    exact isValid_of_checkLinks hlinks

end Draft

/-! ### Class names -/

namespace Text

/-- The parts of a text between its blanks, without the empty ones. -/
def parts (s : String) : List String :=
  ((s.toList.splitOnP isBlank).filter (!·.isEmpty)).map String.ofList

theorem wordsAfter_eq (word cs : List Char) :
    wordsAfter word cs = (List.splitOnPPrepend isBlank cs word).filter (!·.isEmpty) := by
  induction cs generalizing word with
  | nil => cases word <;> simp [wordsAfter, List.splitOnPPrepend]
  | cons c cs ih =>
    cases hc : isBlank c <;> cases word <;>
      simp [wordsAfter, List.splitOnPPrepend, hc, ih]

theorem words_eq_parts (s : String) : words s = parts s := by
  rw [words, parts, wordsAfter_eq]
  rfl

end Text

/-- The list `distinct` has every entry of `l` once, in the order of first appearance. -/
structure KeepsFirst {α : Type} [DecidableEq α] (l distinct : List α) : Prop where
  nodup : distinct.Nodup
  mem (a : α) : a ∈ distinct ↔ a ∈ l
  ordered : distinct.Pairwise fun a b => l.idxOf a < l.idxOf b

section Distinct

variable {α : Type} [DecidableEq α]

/-- Entries that a filter keeps appear in the order that they had. -/
theorem idxOf_lt_of_filter {p : α → Bool} {a b : α} (ha : p a = true) (hb : p b = true)
    {l : List α} (h : (l.filter p).idxOf a < (l.filter p).idxOf b) : l.idxOf a < l.idxOf b := by
  induction l with
  | nil => simp at h
  | cons c l ih =>
    by_cases hc : p c = true
    · rw [List.filter_cons_of_pos hc] at h
      by_cases hcb : c = b
      · rw [hcb, List.idxOf_cons_self] at h
        omega
      · rw [List.idxOf_cons_ne _ hcb] at h ⊢
        by_cases hca : c = a
        · rw [hca, List.idxOf_cons_self]
          omega
        · rw [List.idxOf_cons_ne _ hca] at h ⊢
          exact Nat.succ_lt_succ (ih (Nat.lt_of_succ_lt_succ h))
    · rw [List.filter_cons_of_neg hc] at h
      have hne {x : α} (hx : p x = true) : c ≠ x := by
        rintro rfl
        exact hc hx
      rw [List.idxOf_cons_ne _ (hne ha), List.idxOf_cons_ne _ (hne hb)]
      exact Nat.succ_lt_succ (ih h)

/-- The head of a list appears first, and the rest as in the list without the head. -/
theorem KeepsFirst.cons {a : α} {l distinct : List α}
    (h : KeepsFirst (l.filter fun b => !b == a) distinct) : KeepsFirst (a :: l) (a :: distinct) := by
  have hmem (b : α) : b ∈ distinct ↔ b ∈ l ∧ b ≠ a := by simp [h.mem]
  have hne {b : α} (hb : b ∈ distinct) : a ≠ b := fun hab => ((hmem b).mp hb).2 hab.symm
  refine ⟨List.nodup_cons.mpr ⟨fun ha => hne ha rfl, h.nodup⟩, fun b => ?_, ?_⟩
  · by_cases hb : b = a <;> simp [hmem, hb]
  · refine List.pairwise_cons.mpr ⟨fun b hb => ?_, h.ordered.imp_of_mem fun hb hc hlt => ?_⟩
    · rw [List.idxOf_cons_self, List.idxOf_cons_ne _ (hne hb)]
      omega
    · rw [List.idxOf_cons_ne _ (hne hb), List.idxOf_cons_ne _ (hne hc)]
      refine Nat.succ_lt_succ (idxOf_lt_of_filter ?_ ?_ hlt)
      · simpa using (hne hb).symm
      · simpa using (hne hc).symm

theorem keepsFirst_eraseDups (l : List α) : KeepsFirst l l.eraseDups := by
  cases l with
  | nil => exact ⟨.nil, fun a => by simp, .nil⟩
  | cons a l =>
    rw [List.eraseDups_cons]
    exact (keepsFirst_eraseDups (l.filter fun b => !b == a)).cons
termination_by l.length
decreasing_by
  have := List.length_filter_le (fun b => !b == a) l
  simp only [List.length_cons]
  omega

end Distinct

/-! ### Drafts -/

/-- The draft of a link takes over what its specification lists. -/
structure LinkDraft.Follows (link : LinkDraft) (spec : LinkSpec) : Prop where
  sourceSide : link.sourceSide = spec.sourceSide
  targetSide : link.targetSide = spec.targetSide
  destination : link.destination = spec.destination
  position : link.position = spec.position
  text : Draft.Lists LinkSetting.text? spec.settings link.text
  classes : ∃ names, Draft.Lists LinkSetting.classes? spec.settings names ∧
    KeepsFirst ((names.map Text.parts).getD []) link.classes
  /-- Its arrowheads are those of the keyword, and one at the end if there is no keyword. -/
  arrowheads : ∃ keyword, Draft.Lists LinkSetting.arrowheads? spec.settings keyword ∧
    link.arrowheads.name = keyword.getD "end"

/-- The draft of a cell whose own settings go over the settings `base`. -/
structure Draft.Merges (base : List (Located NodeSetting)) (cell : Occurrence) (draft : Draft) :
    Prop where
  identifier : draft.identifier = cell.identifier
  label : draft.label = cell.label
  position : draft.position = cell.position
  text : Chooses NodeSetting.text? base cell.settings draft.text
  /-- Its shape is the one of the keyword, and a rectangle if there is no keyword. -/
  shape : ∃ keyword, Chooses NodeSetting.shape? base cell.settings keyword ∧
    draft.shape ∈ Shape.all ∧ draft.shape.name = keyword.getD "rect"
  /-- Class names add up. -/
  classes : ∃ defined own, Lists NodeSetting.classes? base defined ∧
    Lists NodeSetting.classes? cell.settings own ∧
    KeepsFirst ((defined.map Text.parts).getD [] ++ (own.map Text.parts).getD []) draft.classes
  links : ∃ specs, Chooses NodeSetting.connect? base cell.settings specs ∧
    List.Forall₂ LinkDraft.Follows draft.links (specs.getD [])

theorem Arrowheads.named?_name (a : Arrowheads) : named? a.name = some a := by
  cases a <;> decide

theorem Shape.named_name : ∀ shape ∈ all, named shape.name = shape := by
  decide

theorem LinkDraft.follows_ofLink {spec : LinkSpec} (h : spec.IsValid) :
    (Draft.ofLink spec).Follows spec where
  sourceSide := rfl
  targetSide := rfl
  destination := rfl
  position := rfl
  text := Draft.lists_pick? _ _
  classes := by
    refine ⟨_, Draft.lists_pick? _ _, ?_⟩
    cases hc : Draft.pick? LinkSetting.classes? spec.settings with
    | none =>
      rw [Draft.ofLink, hc]
      exact keepsFirst_eraseDups []
    | some names =>
      rw [Draft.ofLink, hc, Option.map_some, Option.getD_some, ← Text.words_eq_parts]
      exact keepsFirst_eraseDups _
  arrowheads := by
    have hlists := Draft.lists_pick? LinkSetting.arrowheads? spec.settings
    refine ⟨_, hlists, ?_⟩
    cases ha : Draft.pick? LinkSetting.arrowheads? spec.settings with
    | none =>
      rw [Draft.ofLink, ha]
      rfl
    | some keyword =>
      rw [ha] at hlists
      obtain ⟨s, hs, hv⟩ := hlists
      have hvalue := LinkSetting.arrowheads?_eq_some_iff.mp hv
      obtain ⟨a, -, rfl⟩ := h.arrowheads s hs keyword hvalue
      rw [Draft.ofLink, ha, Option.bind_some, Arrowheads.named?_name]
      rfl

/-- A value that is chosen stands in a setting of the cell or of its base. -/
theorem Draft.Chooses.exists_setting {σ β : Type} {pick : σ → Option β}
    {base own : List (Located σ)} {value : β} (h : Chooses pick base own (some value)) :
    ∃ s, (s ∈ base ∨ s ∈ own) ∧ pick s.value = some value := by
  cases h with
  | own h =>
    obtain ⟨s, hs, hv⟩ := h
    exact ⟨s, .inr hs, hv⟩
  | base _ h =>
    obtain ⟨s, hs, hv⟩ := h
    exact ⟨s, .inl hs, hv⟩

section Chosen

variable {base own : List (Located NodeSetting)} (hbase : NodeSetting.AreValid base)
  (hown : NodeSetting.AreValid own)

include hbase hown

/-- A keyword that is chosen for the shape is one of the allowed ones. -/
theorem Draft.Chooses.shape_mem {keyword : String}
    (h : Chooses NodeSetting.shape? base own (some keyword)) :
    ∃ shape ∈ Shape.all, shape.name = keyword := by
  obtain ⟨s, hs, hv⟩ := h.exists_setting
  have hvalue := NodeSetting.shape?_eq_some_iff.mp hv
  exact hs.elim (hbase.shape s · keyword hvalue) (hown.shape s · keyword hvalue)

/-- The links that are chosen have passed their checks. -/
theorem Draft.Chooses.isValid {specs : List LinkSpec}
    (h : Chooses NodeSetting.connect? base own (some specs)) : ∀ spec ∈ specs, spec.IsValid := by
  obtain ⟨s, hs, hv⟩ := h.exists_setting
  have hvalue := NodeSetting.connect?_eq_some_iff.mp hv
  exact hs.elim (hbase.links s · specs hvalue) (hown.links s · specs hvalue)

end Chosen

theorem Draft.classWords_eq (settings : List (Located NodeSetting)) :
    classWords settings =
      ((pick? NodeSetting.classes? settings).map Text.parts).getD [] := by
  rw [classWords, funext Text.words_eq_parts]

/-- A cell is drafted with its own settings over valid ones. -/
theorem Draft.merges_ofOccurrence {base : List (Located NodeSetting)} {cell : Occurrence}
    (hbase : NodeSetting.AreValid base) (hown : NodeSetting.AreValid cell.settings)
    (row col : Nat) : (Draft.ofOccurrence base row col cell).Merges base cell where
  identifier := rfl
  label := rfl
  position := rfl
  text := chooses_pick?_mergeSettings isSome_text?_iff base cell.settings
  shape := by
    have h := chooses_pick?_mergeSettings isSome_shape?_iff base cell.settings
    refine ⟨_, h, ?_⟩
    cases hs : pick? NodeSetting.shape? (mergeSettings base cell.settings) with
    | none =>
      simp only [ofOccurrence, hs]
      decide
    | some keyword =>
      rw [hs] at h
      obtain ⟨shape, hshape, rfl⟩ := h.shape_mem hbase hown
      simp only [ofOccurrence, hs, Option.map_some, Option.getD_some, Shape.named_name shape hshape]
      exact ⟨hshape, trivial⟩
  classes := by
    refine ⟨_, _, lists_pick? _ base, lists_pick? _ cell.settings, ?_⟩
    rw [← classWords_eq, ← classWords_eq]
    exact keepsFirst_eraseDups _
  links := by
    have h := chooses_pick?_mergeSettings isSome_connect?_iff base cell.settings
    refine ⟨_, h, ?_⟩
    cases hs : pick? NodeSetting.connect? (mergeSettings base cell.settings) with
    | none =>
      simp only [ofOccurrence, hs]
      exact .nil
    | some specs =>
      rw [hs] at h
      have hvalid := h.isValid hbase hown
      simp only [ofOccurrence, hs, Option.getD_some]
      rw [List.forall₂_map_left_iff, List.forall₂_same]
      exact fun spec hspec => LinkDraft.follows_ofLink (hvalid spec hspec)

/-! ### Documents -/

theorem Draft.areValid_of_checkDefinitions {seen : List String} {definitions : List Definition}
    (h : checkDefinitions seen definitions = .ok ()) :
    (∀ definition ∈ definitions, NodeSetting.AreValid definition.settings) ∧
      (∀ definition ∈ definitions, definition.identifier ∉ seen) ∧
      (definitions.map Definition.identifier).Nodup := by
  induction definitions generalizing seen with
  | nil => exact ⟨by simp, by simp, .nil⟩
  | cons definition definitions ih =>
    rw [checkDefinitions] at h
    by_cases hseen : definition.identifier ∈ seen
    · rw [if_pos hseen] at h
      cases h
    · rw [if_neg hseen] at h
      obtain ⟨_, hnode, h⟩ := Result.bind_eq_ok_iff.mp h
      obtain ⟨hvalid, hnew, hnodup⟩ := ih h
      refine ⟨List.forall_mem_cons.mpr ⟨areValid_of_checkNode hnode, hvalid⟩,
        List.forall_mem_cons.mpr ⟨hseen, fun d hd => ?_⟩, ?_⟩
      · exact fun hmem => hnew d hd (.tail _ hmem)
      · refine List.nodup_cons.mpr ⟨fun hmem => ?_, hnodup⟩
        obtain ⟨d, hd, heq⟩ := List.mem_map.mp hmem
        exact hnew d hd (heq ▸ .head _)

theorem Draft.areValid_defined {definitions : List Definition}
    (h : ∀ d ∈ definitions, NodeSetting.AreValid d.settings) (identifier : String) :
    NodeSetting.AreValid (defined definitions identifier) := by
  rw [defined]
  cases hf : definitions.find? fun d => d.identifier = identifier with
  | none => exact ⟨.nil, by simp, by simp⟩
  | some d => exact h d (List.mem_of_find?_eq_some hf)

namespace Document

/-- The settings that the document defines for an identifier: those of its definition, and
none without one. -/
structure Provides (d : Document) (identifier : String) (base : List (Located NodeSetting)) :
    Prop where
  defined : ∀ definition ∈ d.definitions, definition.identifier = identifier →
    base = definition.settings
  undefined : (∀ definition ∈ d.definitions, definition.identifier ≠ identifier) → base = []

theorem provides_defined {d : Document}
    (h : (d.definitions.map Definition.identifier).Nodup) (identifier : String) :
    d.Provides identifier (Draft.defined d.definitions identifier) := by
  constructor
  · rintro definition hmem rfl
    rw [Draft.defined]
    cases hf : d.definitions.find? fun e => e.identifier = definition.identifier with
    | none => simpa using List.find?_eq_none.mp hf definition hmem
    | some other =>
      have heq : other.identifier = definition.identifier := by simpa using List.find?_some hf
      have := List.inj_on_of_nodup_map h (List.mem_of_find?_eq_some hf) hmem heq
      rw [this]
      rfl
  · intro hne
    have hnone : d.definitions.find? (fun e => e.identifier = identifier) = none := by
      simpa using hne
    rw [Draft.defined, hnone]
    rfl

theorem areValid_of_draftCells {definitions : List Definition}
    {cells : List (Nat × Nat × Occurrence)} {drafts : List Draft}
    (h : draftCells definitions cells = .ok drafts) :
    ∀ c ∈ cells, NodeSetting.AreValid c.2.2.settings := by
  induction cells generalizing drafts with
  | nil => simp
  | cons cell cells ih =>
    obtain ⟨_, hcheck, h⟩ := Result.bind_eq_ok_iff.mp h
    obtain ⟨rest, hrest, -⟩ := Result.bind_eq_ok_iff.mp h
    exact List.forall_mem_cons.mpr ⟨Draft.areValid_of_checkNode hcheck, ih hrest⟩

/-- How the drafts of a document follow from it. -/
structure Drafting (d : Document) (drafts : List Draft) : Prop where
  /-- They stand in reading order, no two in one cell. -/
  ordered : (drafts.map fun draft => (draft.row, draft.col)).Pairwise Before
  /-- Each is that of a cell, whose settings go over those defined for its identifier. -/
  cells : ∀ draft ∈ drafts, ∃ cells cell base, d.rows[draft.row]? = some cells ∧
    cells[draft.col]? = some (some cell) ∧ d.Provides cell.identifier base ∧
    draft.Merges base cell
  /-- Each cell that holds a node has one. -/
  complete : ∀ row col cells cell, d.rows[row]? = some cells → cells[col]? = some (some cell) →
    ∃ draft ∈ drafts, draft.row = row ∧ draft.col = col
  /-- All settings have passed their checks, also those that are not used. -/
  definitions : ∀ definition ∈ d.definitions, NodeSetting.AreValid definition.settings
  settings : ∀ cells ∈ d.rows, ∀ cell, some cell ∈ cells → NodeSetting.AreValid cell.settings

/-- The drafts of a document say, cell by cell, what the document says. -/
theorem drafts_follow {d : Document} {drafts : List Draft} (h : d.drafts = .ok drafts) :
    d.Drafting drafts := by
  have hplaces := places_of_drafts h
  obtain ⟨_, hdefinitions, hcells⟩ := Result.bind_eq_ok_iff.mp h
  obtain ⟨hdefined, -, hnodup⟩ := Draft.areValid_of_checkDefinitions hdefinitions
  have hown := areValid_of_draftCells hcells
  have hbase := Draft.areValid_defined hdefined
  refine ⟨?_, fun draft hdraft => ?_, fun row col cells cell hr hc => ?_, hdefined,
    fun cells hmem cell hcell => ?_⟩
  · rw [hplaces]
    exact d.pairwise_places
  · rw [draftCells_eq_ok hcells] at hdraft
    obtain ⟨⟨row, col, cell⟩, hmem, rfl⟩ := List.mem_map.mp hdraft
    obtain ⟨cells, hr, hc⟩ := mem_occurrences.mp hmem
    exact ⟨cells, cell, _, hr, hc, provides_defined hnodup cell.identifier,
      Draft.merges_ofOccurrence (hbase _) (hown _ hmem) row col⟩
  · have hmem : (row, col) ∈ d.places :=
      List.mem_map.mpr ⟨_, mem_occurrences.mpr ⟨cells, hr, hc⟩, rfl⟩
    rw [← hplaces] at hmem
    obtain ⟨draft, hdraft, heq⟩ := List.mem_map.mp hmem
    cases heq
    exact ⟨draft, hdraft, rfl, rfl⟩
  · obtain ⟨row, hr⟩ := List.mem_iff_getElem?.mp hmem
    obtain ⟨col, hc⟩ := List.mem_iff_getElem?.mp hcell
    exact hown _ (mem_occurrences.mpr ⟨cells, hr, hc⟩)

/-- Cells in rows of different lengths that share a definition, which one of them overrides. -/
def sharedDefinition : Document where
  rows :=
    [[some ⟨"a", some "x", [], .start⟩],
      [none, some ⟨"a", none, [⟨.classes "u v", .start⟩, ⟨.connect [], .start⟩], .start⟩],
      []]
  definitions :=
    [⟨"a", [⟨.text "t", .start⟩, ⟨.classes "v w", .start⟩, ⟨.shape "circle", .start⟩,
      ⟨.connect [⟨.east, .west, .self, [⟨.arrowheads "both", .start⟩], .start⟩], .start⟩], .start⟩,
      ⟨"b", [], .start⟩]

/-- The drafts of cells that share a definition. -/
theorem drafts_follow_shared :
    ∃ drafts, sharedDefinition.drafts = .ok drafts ∧ sharedDefinition.Drafting drafts := by
  have h : ∃ drafts, sharedDefinition.drafts = .ok drafts := ⟨_, rfl⟩
  obtain ⟨drafts, h⟩ := h
  exact ⟨drafts, h, drafts_follow h⟩

end Document
end FlowGrid
