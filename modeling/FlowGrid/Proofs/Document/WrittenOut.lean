import FlowGrid.Chart
import FlowGrid.Proofs.Document.Mistakes

/-! Definitions are a shorthand. A document in which every cell lists its settings merged over
those defined for it, with the class names of both, has the same drafts without any
definition, and so the same chart. -/

namespace FlowGrid

/-! ### Class names -/

namespace Text

theorem wordsAfter_append_blank {c : Char} (hc : isBlank c = true) (word cs ds : List Char) :
    wordsAfter word (cs ++ c :: ds) = wordsAfter word cs ++ wordsAfter [] ds := by
  induction cs generalizing word with
  | nil => cases word <;> simp [wordsAfter, hc]
  | cons b cs ih => cases hb : isBlank b <;> cases word <;> simp [wordsAfter, hb, ih]

theorem words_append_blank (s t : String) : words (s ++ " " ++ t) = words s ++ words t := by
  have hlist : (s ++ " " ++ t).toList = s.toList ++ ' ' :: t.toList := by simp
  rw [words, hlist, wordsAfter_append_blank (by decide), List.map_append, words, words]

end Text

/-! ### Settings -/

/-- A setting with other class names, if it gives any and others are given. -/
def NodeSetting.withClasses (names : Option String) : NodeSetting → NodeSetting
  | .classes own => .classes (names.getD own)
  | s => s

theorem NodeSetting.key_withClasses (names : Option String) (s : NodeSetting) :
    (s.withClasses names).key = s.key := by
  cases s <;> rfl

theorem NodeSetting.text?_withClasses (names : Option String) (s : NodeSetting) :
    (s.withClasses names).text? = s.text? := by
  cases s <;> rfl

theorem NodeSetting.shape?_withClasses (names : Option String) (s : NodeSetting) :
    (s.withClasses names).shape? = s.shape? := by
  cases s <;> rfl

theorem NodeSetting.connect?_withClasses (names : Option String) (s : NodeSetting) :
    (s.withClasses names).connect? = s.connect? := by
  cases s <;> rfl

theorem NodeSetting.classes?_withClasses (names : Option String) (s : NodeSetting) :
    (s.withClasses names).classes? = s.classes?.map names.getD := by
  cases s <;> rfl

namespace Draft

/-- The class names of both lists of settings in one text, if both give some. -/
def joinedClasses (base own : List (Located NodeSetting)) : Option String := do
  let defined ← pick? NodeSetting.classes? base
  let further ← pick? NodeSetting.classes? own
  pure (defined ++ " " ++ further)

/-- The settings `own` merged over the settings `base`, with the class names of both. -/
def writeOut (base own : List (Located NodeSetting)) : List (Located NodeSetting) :=
  (mergeSettings base own).map fun s =>
    ⟨s.value.withClasses (joinedClasses base own), s.position⟩

variable {base own : List (Located NodeSetting)}

theorem areValid_mergeSettings (hbase : NodeSetting.AreValid base)
    (hown : NodeSetting.AreValid own) : NodeSetting.AreValid (mergeSettings base own) := by
  have hmem {s : Located NodeSetting} (hs : s ∈ mergeSettings base own) := Keyed.mem_of_mem_merge hs
  refine ⟨?_, fun s hs => ?_, fun s hs => ?_⟩
  · rw [KeysDistinct, mergeSettings, Keyed.map_key_merge]
    refine List.nodup_append.mpr ⟨hbase.keys, hown.keys.filter _, ?_⟩
    -- the keys of `own` that are left are new
    rintro k hk _ hl rfl
    exact of_decide_eq_true (List.mem_filter.mp hl).2 hk
  · exact (hmem hs).elim (hbase.shape s) (hown.shape s)
  · exact (hmem hs).elim (hbase.links s) (hown.links s)

theorem areValid_writeOut (hbase : NodeSetting.AreValid base)
    (hown : NodeSetting.AreValid own) : NodeSetting.AreValid (writeOut base own) := by
  have h := areValid_mergeSettings hbase hown
  refine ⟨?_, fun t ht keyword hv => ?_, fun t ht specs hv => ?_⟩
  · rw [KeysDistinct, writeOut, List.map_map]
    simp only [Function.comp_def, NodeSetting.key_withClasses]
    exact h.keys
  · obtain ⟨s, hs, rfl⟩ := List.mem_map.mp ht
    rw [← NodeSetting.shape?_eq_some_iff, NodeSetting.shape?_withClasses,
      NodeSetting.shape?_eq_some_iff] at hv
    exact h.shape s hs keyword hv
  · obtain ⟨s, hs, rfl⟩ := List.mem_map.mp ht
    rw [← NodeSetting.connect?_eq_some_iff, NodeSetting.connect?_withClasses,
      NodeSetting.connect?_eq_some_iff] at hv
    exact h.links s hs specs hv

theorem pick?_writeOut {β : Type} {pick : NodeSetting → Option β}
    (hpick : ∀ names s, pick (NodeSetting.withClasses names s) = pick s) :
    pick? pick (writeOut base own) = pick? pick (mergeSettings base own) := by
  rw [pick?, writeOut, List.findSome?_map]
  exact congrArg (List.findSome? · _) (funext fun s => hpick _ s.value)

/-- Class names that stand in one text are those that both lists give. -/
theorem classWords_writeOut :
    classWords (writeOut base own) = classWords base ++ classWords own := by
  have hpick : pick? NodeSetting.classes? (writeOut base own) =
      (pick? NodeSetting.classes? (mergeSettings base own)).map (joinedClasses base own).getD := by
    rw [pick?, writeOut, List.findSome?_map, pick?, List.map_findSome?]
    exact congrArg (List.findSome? · _)
      (funext fun s => NodeSetting.classes?_withClasses _ s.value)
  rw [classWords, hpick, pick?_mergeSettings isSome_classes?_iff, joinedClasses, classWords,
    classWords]
  cases pick? NodeSetting.classes? base <;> cases pick? NodeSetting.classes? own <;>
    simp [Text.words_append_blank]

end Draft

/-! ### Documents -/

/-- The cell with the settings that are defined for it. -/
def Occurrence.writtenOut (definitions : List Definition) (cell : Occurrence) : Occurrence :=
  { cell with
    settings := Draft.writeOut (Draft.defined definitions cell.identifier) cell.settings }

/-- The document with the settings of the definitions in the cells. -/
def Document.writtenOut (d : Document) : Document where
  rows := d.rows.map (List.map (Option.map (Occurrence.writtenOut d.definitions)))
  definitions := []

/-- A cell whose settings are written out is drafted alike on its own. -/
theorem Draft.ofOccurrence_writtenOut (definitions : List Definition) (row col : Nat)
    (cell : Occurrence) : ofOccurrence [] row col (cell.writtenOut definitions) =
      ofOccurrence (defined definitions cell.identifier) row col cell := by
  have hmerge (settings : List (Located NodeSetting)) : mergeSettings [] settings = settings := by
    simp [mergeSettings, Keyed.merge]
  simp only [ofOccurrence, Occurrence.writtenOut, hmerge, classWords_writeOut,
    pick?_writeOut NodeSetting.text?_withClasses, pick?_writeOut NodeSetting.shape?_withClasses,
    pick?_writeOut NodeSetting.connect?_withClasses]
  rfl

namespace Document

variable {d : Document}

theorem IsFlawless.writtenOut (h : d.IsFlawless) : d.writtenOut.IsFlawless where
  identifiers := .nil
  definitions := by simp [Document.writtenOut]
  cells := by
    intro cells hcells cell hcell
    obtain ⟨cells, hmem, rfl⟩ := List.mem_map.mp hcells
    obtain ⟨c, hc, heq⟩ := List.mem_map.mp hcell
    obtain ⟨cell, rfl, rfl⟩ := Option.map_eq_some_iff.mp heq
    exact Draft.areValid_writeOut (Draft.areValid_defined h.definitions _)
      (h.cells cells hmem cell hc)

theorem drafts_of_isFlawless (h : d.IsFlawless) :
    d.drafts = .ok (d.occurrences.map fun (row, col, cell) =>
      .ofOccurrence (Draft.defined d.definitions cell.identifier) row col cell) := by
  rw [drafts_eq, mistakes_eq_nil_iff.mpr h]
  rfl

/-- Written out, a document has the same drafts and the same chart. -/
theorem drafts_writtenOut {drafts : List Draft} (h : d.drafts = .ok drafts) :
    d.writtenOut.drafts = .ok drafts ∧
      ∀ {α : Type} [Scalar α] (m : Metrics α),
        Chart.ofDocument m d.writtenOut = Chart.ofDocument m d := by
  have hflawless := exists_drafts_iff.mp ⟨drafts, h⟩
  have hdrafts : d.writtenOut.drafts = .ok drafts := by
    rw [← h, drafts_of_isFlawless hflawless.writtenOut, drafts_of_isFlawless hflawless,
      occurrences_map (d := d) rfl, List.map_map]
    exact congrArg Except.ok (List.map_congr_left fun c _ =>
      Draft.ofOccurrence_writtenOut d.definitions c.1 c.2.1 c.2.2)
  refine ⟨hdrafts, fun m => ?_⟩
  have hrows : d.writtenOut.rows.length = d.rows.length := List.length_map _
  have hgrid (drafts : List Draft) : d.writtenOut.grid drafts = d.grid drafts := by
    rw [grid, grid, columnCount_map (d := d) rfl, hrows]
  unfold Chart.ofDocument
  simp only [hdrafts, h, hgrid]

/-- The drafts of cells that share a definition, which one of them overrides. -/
theorem drafts_writtenOut_shared :
    ∃ drafts, sharedDefinition.drafts = .ok drafts ∧
      sharedDefinition.writtenOut.drafts = .ok drafts ∧
      ∀ {α : Type} [Scalar α] (m : Metrics α),
        Chart.ofDocument m sharedDefinition.writtenOut = Chart.ofDocument m sharedDefinition := by
  have h : ∃ drafts, sharedDefinition.drafts = .ok drafts := ⟨_, rfl⟩
  obtain ⟨drafts, h⟩ := h
  exact ⟨drafts, h, drafts_writtenOut h⟩

end Document
end FlowGrid
