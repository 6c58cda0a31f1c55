import FlowGrid.Proofs.Chart.Nodes
import FlowGrid.Proofs.Document.Drafting

/-! The names in a chart. Whatever a text spells, the shapes of the compiled nodes are among the
allowed ones, and class names are words: none is empty and none holds a blank. -/

namespace FlowGrid

/-- A text of one character or more, none of them a blank. -/
structure IsWord (s : String) : Prop where
  ne_empty : s ≠ ""
  unbroken : ∀ c ∈ s.toList, isBlank c = false

namespace Text

/-- The words that go on with a word without blanks have none either. -/
theorem unbroken_of_mem_wordsAfter {word cs w : List Char} (hword : ∀ c ∈ word, isBlank c = false)
    (h : w ∈ wordsAfter word cs) : w ≠ [] ∧ ∀ c ∈ w, isBlank c = false := by
  have hreverse (hne : ¬ word.isEmpty = true) :
      word.reverse ≠ [] ∧ ∀ c ∈ word.reverse, isBlank c = false := by
    simpa using And.intro (mt List.isEmpty_iff.mpr hne) hword
  have hnil : ∀ c ∈ ([] : List Char), isBlank c = false := fun _ hc => absurd hc List.not_mem_nil
  induction cs generalizing word with
  | nil =>
    rw [wordsAfter] at h
    split at h
    · cases h
    · rename_i hne
      rw [List.mem_singleton.mp h]
      exact hreverse hne
  | cons c cs ih =>
    rw [wordsAfter] at h
    split at h
    · split at h
      · exact ih hnil h (by simp)
      · rename_i hne
        rcases List.mem_cons.mp h with rfl | h
        · exact hreverse hne
        · exact ih hnil h (by simp)
    · rename_i hc
      have hcons : ∀ d ∈ c :: word, isBlank d = false :=
        List.forall_mem_cons.mpr ⟨by simpa using hc, hword⟩
      exact ih hcons h fun _ => ⟨by simp, fun d hd => hcons d (List.mem_reverse.mp hd)⟩

theorem isWord_of_mem_words {s word : String} (h : word ∈ words s) : IsWord word := by
  obtain ⟨w, hw, rfl⟩ := List.mem_map.mp h
  obtain ⟨hne, hunbroken⟩ := unbroken_of_mem_wordsAfter (by simp) hw
  exact ⟨by simpa using hne, by simpa using hunbroken⟩

end Text

/-! ### Drafts -/

theorem isWord_of_mem_classNames {value name : String} (h : name ∈ classNames value) :
    IsWord name := Text.isWord_of_mem_words (List.mem_eraseDups.mp h)

namespace Draft

theorem isWord_of_mem_classWords {settings : List (Located NodeSetting)} {name : String}
    (h : name ∈ classWords settings) : IsWord name := by
  unfold classWords at h
  cases hpick : pick? NodeSetting.classes? settings with
  | none => simp [hpick] at h
  | some value =>
    rw [hpick] at h
    exact Text.isWord_of_mem_words h

theorem isWord_of_mem_ofLink {spec : LinkSpec} {name : String}
    (h : name ∈ (ofLink spec).classes) : IsWord name := by
  dsimp only [ofLink] at h
  cases hpick : pick? LinkSetting.classes? spec.settings with
  | none => simp [hpick] at h
  | some value =>
    rw [hpick] at h
    exact isWord_of_mem_classNames h

/-- The names of a draft are fit to be drawn. -/
structure IsNamed (d : Draft) : Prop where
  shape : d.shape ∈ Shape.all
  classes : ∀ name ∈ d.classes, IsWord name
  links : ∀ link ∈ d.links, ∀ name ∈ link.classes, IsWord name

theorem isNamed_ofOccurrence {base : List (Located NodeSetting)} {cell : Occurrence}
    (hbase : NodeSetting.AreValid base) (hown : NodeSetting.AreValid cell.settings)
    (row col : Nat) : (ofOccurrence base row col cell).IsNamed where
  shape := by
    obtain ⟨_, _, hshape, _⟩ := (merges_ofOccurrence hbase hown row col).shape
    exact hshape
  classes := by
    intro name hname
    rcases List.mem_append.mp (List.mem_eraseDups.mp hname) with h | h <;>
      exact isWord_of_mem_classWords h
  links := by
    intro link hlink name hname
    obtain ⟨spec, _, rfl⟩ := List.mem_map.mp hlink
    exact isWord_of_mem_ofLink hname

end Draft

namespace Document

/-- What a document defines for an identifier has passed its checks. -/
theorem areValid_defined {definitions : List Definition}
    (h : Draft.checkDefinitions [] definitions = .ok ()) (identifier : String) :
    NodeSetting.AreValid (Draft.defined definitions identifier) := by
  rw [Draft.defined]
  cases hf : definitions.find? fun e => e.identifier = identifier with
  | none => exact ⟨.nil, by simp, by simp⟩
  | some definition =>
    exact (Draft.areValid_of_checkDefinitions h).1 definition (List.mem_of_find?_eq_some hf)

theorem isNamed_of_drafts {d : Document} {drafts : List Draft} (h : d.drafts = .ok drafts) :
    ∀ draft ∈ drafts, draft.IsNamed := by
  obtain ⟨_, hdefinitions, hcells⟩ := Result.bind_eq_ok_iff.mp h
  intro draft hdraft
  have hown := areValid_of_draftCells hcells
  rw [draftCells_eq_ok hcells] at hdraft
  obtain ⟨⟨row, col, cell⟩, hmem, rfl⟩ := List.mem_map.mp hdraft
  exact Draft.isNamed_ofOccurrence (areValid_defined hdefinitions _) (hown _ hmem) row col

end Document

/-! ### Charts -/

/-- The names of a node are fit to be drawn. -/
structure Node.IsNamed (node : Node) : Prop where
  shape : node.shape ∈ Shape.all
  classes : ∀ name ∈ node.classes, IsWord name
  links : ∀ link ∈ node.links, ∀ name ∈ link.classes, IsWord name

theorem Node.isNamed_of_ofDraft {labels : List (String × Nat)} {grid : Grid Nat} {i : Nat}
    {d : Draft} {node : Node} (hd : d.IsNamed) (h : Node.ofDraft labels grid i d = .ok node) :
    node.IsNamed := by
  obtain ⟨links, hlinks, h⟩ := Result.bind_eq_ok_iff.mp h
  cases h
  refine ⟨hd.shape, hd.classes, fun link hlink => ?_⟩
  obtain ⟨k, hk⟩ := List.mem_iff_getElem?.mp hlink
  obtain ⟨draft, hdraft, hresolved⟩ := Result.exists_of_mapM hlinks hk
  obtain ⟨target, _, h⟩ := Result.bind_eq_ok_iff.mp hresolved
  cases h
  exact hd.links draft (List.mem_of_getElem? hdraft)

namespace Chart

variable {α : Type} [Scalar α] {m : Metrics α} {chart : Chart α}

theorem isNamed_of_compile {text : String} (h : compile m text = .ok chart) :
    ∀ p ∈ chart.placements, p.node.IsNamed := by
  obtain ⟨document, _, h⟩ := Result.bind_eq_ok_iff.mp h
  obtain ⟨drafts, hd, h⟩ := Result.bind_eq_ok_iff.mp h
  obtain ⟨grid, _, h⟩ := Result.bind_eq_ok_iff.mp h
  obtain ⟨nodes, hn, h⟩ := Result.bind_eq_ok_iff.mp h
  intro p hp
  obtain ⟨i, hi⟩ := List.mem_iff_getElem?.mp hp
  obtain ⟨labels, _, hmap⟩ := Result.bind_eq_ok_iff.mp (Result.mapError_eq_ok_iff.mp hn)
  obtain ⟨⟨draft, j⟩, hj, hnode⟩ := Result.exists_of_mapM hmap (placement_eq h hi).1
  refine Node.isNamed_of_ofDraft ?_ hnode
  have hdraft := List.mem_of_getElem? hj
  exact Document.isNamed_of_drafts (Result.mapError_eq_ok_iff.mp hd) draft
    (List.fst_mem_of_mem_zipIdx hdraft)

/-- The routes of a node are those of its links, in order. -/
theorem links_of_compile {text : String} (h : compile m text = .ok chart) :
    ∀ p ∈ chart.placements, p.routes.map Route.link = p.node.links := by
  obtain ⟨grid, nodes, _, hn⟩ := exists_seating_of_compile h
  exact links_of_ofNodes hn

end Chart
end FlowGrid
