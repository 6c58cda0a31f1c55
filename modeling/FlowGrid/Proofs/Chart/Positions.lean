import FlowGrid.Proofs.Chart.Renaming

/-! Positions in a source text. Only diagnostics tell them: a document has the chart that it has
without its positions, so texts that are laid out in different ways have the same chart if they
spell the same cells and definitions. -/

namespace FlowGrid

/-! ### Without positions -/

/-- The value in another form, as if it began the text. -/
def Located.moved {σ : Type} (f : σ → σ) (s : Located σ) : Located σ := ⟨f s.value, .start⟩

def LinkSpec.unlocated (spec : LinkSpec) : LinkSpec :=
  { spec with settings := spec.settings.map (.moved id), position := .start }

def NodeSetting.unlocated : NodeSetting → NodeSetting
  | .connect specs => .connect (specs.map LinkSpec.unlocated)
  | s => s

def Occurrence.unlocated (cell : Occurrence) : Occurrence :=
  { cell with settings := cell.settings.map (.moved NodeSetting.unlocated), position := .start }

def Definition.unlocated (d : Definition) : Definition :=
  { d with settings := d.settings.map (.moved NodeSetting.unlocated), position := .start }

/-- The document with all positions at the start of the text. -/
def Document.unlocated (d : Document) : Document where
  rows := d.rows.map (List.map (Option.map Occurrence.unlocated))
  definitions := d.definitions.map Definition.unlocated

/-! ### As a rewriting -/

/-- All names as they are and all positions at the start of the text. -/
def Rewriting.toStart : Rewriting := { Renaming.refl with position := fun _ => .start }

theorem LinkSpec.unlocated_eq : unlocated = rewritten .toStart := by
  funext spec
  obtain ⟨sourceSide, targetSide, destination, settings, position⟩ := spec
  cases destination <;> rfl

theorem NodeSetting.unlocated_eq : unlocated = rewritten .toStart := by
  funext s
  cases s with
  | connect specs => rw [unlocated, rewritten, LinkSpec.unlocated_eq]
  | _ => rfl

theorem Occurrence.unlocated_eq : unlocated = rewritten .toStart := by
  funext cell
  obtain ⟨identifier, label, settings, position⟩ := cell
  rw [unlocated, rewritten, NodeSetting.unlocated_eq]
  cases label <;> rfl

theorem Definition.unlocated_eq : unlocated = rewritten .toStart := by
  funext d
  rw [unlocated, rewritten, NodeSetting.unlocated_eq]
  rfl

theorem Document.unlocated_eq (d : Document) : d.unlocated = d.rewritten .toStart := by
  rw [unlocated, rewritten, Occurrence.unlocated_eq, Definition.unlocated_eq]

/-! ### Charts -/

theorem Chart.renamed_refl {α : Type} (chart : Chart α) : chart.renamed .refl = chart := by
  have hnode (node : Node) : node.renamed .refl = node := by
    obtain ⟨index, identifier, row, col, label, text, classes, shape, links⟩ := node
    cases label <;> rfl
  have hplacement (p : Placement α) : p.renamed .refl = p := by rw [Placement.renamed, hnode]
  rw [renamed, funext hplacement]
  exact congrArg (Chart.mk chart.width chart.height) (List.map_id _)

/-- A document has the chart that it has without its positions. -/
theorem Chart.ofDocument_unlocated {α : Type} [Scalar α] {m : Metrics α} {d : Document}
    {chart : Chart α} : ofDocument m d.unlocated = .ok chart ↔ ofDocument m d = .ok chart := by
  rw [Document.unlocated_eq, ofDocument_rewritten]
  cases ofDocument m d with
  | error fault => constructor <;> exact nofun
  | ok chart' =>
    have hsame : chart'.renamed Rewriting.toStart.toRenaming = chart' := chart'.renamed_refl
    rw [Result.both, hsame]

end FlowGrid
