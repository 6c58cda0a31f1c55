import FlowGrid.Proofs.Document.Drafting
import Mathlib.Data.List.ReduceOption

/-! The mistakes in the settings of a document, listed in the order in which they are looked for:
those of the definitions first, then those of the cells. A document is drafted exactly when the
list is empty, and otherwise its first entry is reported. Links are drafted from settings that
were checked before, so that a second check on the way finds nothing. -/

namespace FlowGrid

/-! ### Lists of mistakes -/

/-- What is found at each entry, given the entries before it; `before` are those before all. -/
def findings {α β : Type} (find : List α → α → List β) (before : List α) : List α → List β
  | [] => []
  | a :: rest => find before a ++ findings find (before ++ [a]) rest

section Settings

variable {σ β : Type}

/-- The settings whose key an earlier one has. -/
def keyMistakes (key : σ → String) (settings : List (Located σ)) : List Diagnostic :=
  findings (fun before s =>
    if key s.value ∈ before.map (fun t => key t.value) then
      [⟨.duplicateKey (key s.value), s.position⟩]
    else []) [] settings

/-- What is found at the settings of a kind. -/
def findingsAt (pick : σ → Option β) (find : Located β → List Diagnostic)
    (settings : List (Located σ)) : List Diagnostic :=
  settings.flatMap fun s => ((pick s.value).map fun b => find ⟨b, s.position⟩).getD []

/-- The settings of a kind whose keyword is not among the allowed ones. -/
def keywordMistakes (key : String) (allowed : List String) (pick : σ → Option String) :
    List (Located σ) → List Diagnostic :=
  findingsAt pick fun k =>
    if k.value ∈ allowed then [] else [⟨.unknownKeyword key k.value allowed, k.position⟩]

end Settings

def LinkSpec.mistakes (spec : LinkSpec) : List Diagnostic :=
  keyMistakes LinkSetting.key spec.settings ++
    keywordMistakes "arrowheads" (Arrowheads.all.map Arrowheads.name) LinkSetting.arrowheads?
      spec.settings

/-- The mistakes in the settings of a cell or a definition: repeated keys, then unknown shapes,
then the mistakes of its links. -/
def NodeSetting.mistakes (settings : List (Located NodeSetting)) : List Diagnostic :=
  keyMistakes key settings ++
    (keywordMistakes "shape" (Shape.all.map Shape.name) shape? settings ++
      findingsAt connect? (fun specs => specs.value.flatMap LinkSpec.mistakes) settings)

/-- The mistakes of a definition, given those before it. -/
def Definition.mistakes (before : List Definition) (d : Definition) : List Diagnostic :=
  (if d.identifier ∈ before.map identifier then [⟨.redefined d.identifier, d.position⟩] else []) ++
    NodeSetting.mistakes d.settings

/-- The cells that hold a node, row by row. -/
def Document.nodeCells (d : Document) : List Occurrence := d.rows.flatten.reduceOption

def Document.mistakes (d : Document) : List Diagnostic :=
  findings Definition.mistakes [] d.definitions ++
    d.nodeCells.flatMap fun cell => NodeSetting.mistakes cell.settings

/-! ### Checks -/

theorem findings_repeated {α : Type} (key : α → String) (find : α → Diagnostic)
    {seen : List String} {before : List α} (hseen : ∀ k, k ∈ seen ↔ k ∈ before.map key)
    (entries : List α) :
    (findings (fun before a => if key a ∈ before.map key then [find a] else []) before
      entries).head? = (Keyed.repeatedAfter? key seen entries).map find := by
  induction entries generalizing seen before with
  | nil => rfl
  | cons a entries ih =>
    by_cases h : key a ∈ seen
    · simp only [findings, Keyed.repeatedAfter?, if_pos h, if_pos ((hseen _).mp h)]
      rfl
    · simp only [findings, Keyed.repeatedAfter?, if_neg h, if_neg (mt (hseen _).mpr h)]
      exact ih fun k => by simp [hseen, or_comm]

namespace Draft

section Settings

variable {σ β : Type} {key : σ → String} {settings : List (Located σ)}

theorem checkKeys_eq (key : σ → String) (settings : List (Located σ)) :
    checkKeys key settings = Result.firstOf (keyMistakes key settings) := by
  have hnone (k : String) : k ∈ [] ↔ k ∈ List.map (fun s : Located σ => key s.value) [] := .rfl
  have hhead := findings_repeated (fun s : Located σ => key s.value)
    (fun s => ⟨.duplicateKey (key s.value), s.position⟩) hnone settings
  rw [checkKeys, Keyed.repeated?]
  cases h : Keyed.repeatedAfter? (fun s : Located σ => key s.value) [] settings with
  | none =>
    rw [h, Option.map_none, List.head?_eq_none_iff] at hhead
    exact (Result.firstOf_eq_ok_iff.mpr hhead).symm
  | some s =>
    rw [h, Option.map_some] at hhead
    exact (Result.firstOf_eq_error_iff.mpr hhead).symm

/-- Of settings without repeated keys at most one is of a kind. -/
theorem findingsAt_eq {pick : σ → Option β} {k : String}
    (hpick : ∀ s, (pick s).isSome ↔ key s = k) (hkeys : KeysDistinct key settings)
    (find : Located β → List Diagnostic) :
    findingsAt pick find settings = ((locate? pick settings).map find).getD [] := by
  induction settings with
  | nil => rfl
  | cons s settings ih =>
    obtain ⟨hfirst, hrest⟩ := List.nodup_cons.mp hkeys
    rw [findingsAt, List.flatMap_cons, ← findingsAt, locate?, List.findSome?_cons]
    cases hs : pick s.value with
    | none => exact ih hrest
    | some b =>
      have hnone (t : Located σ) (ht : t ∈ settings) : pick t.value = none := by
        rw [← Option.not_isSome_iff_eq_none, hpick]
        have hkey : key s.value = k := (hpick s.value).mp (by rw [hs]; rfl)
        exact fun h => hfirst (List.mem_map.mpr ⟨t, ht, h.trans hkey.symm⟩)
      have hnil : findingsAt pick find settings = [] :=
        List.flatMap_eq_nil_iff.mpr fun t ht => by rw [hnone t ht]; rfl
      rw [hnil, List.append_nil]
      rfl

theorem checkKeyword_eq {pick : σ → Option String} {k : String}
    (hpick : ∀ s, (pick s).isSome ↔ key s = k) (hkeys : KeysDistinct key settings)
    (name : String) (allowed : List String) :
    checkKeyword name allowed (locate? pick settings) =
      Result.firstOf (keywordMistakes name allowed pick settings) := by
  rw [keywordMistakes, findingsAt_eq hpick hkeys]
  cases locate? pick settings with
  | none => rfl
  | some keyword =>
    simp only [checkKeyword, Option.map_some, Option.getD_some]
    split_ifs <;> rfl

end Settings

/-- What is checked after the keys may count on keys that differ. -/
theorem checkKeys_then {σ : Type} {key : σ → String} {settings : List (Located σ)}
    {check : Except Diagnostic Unit} {more : List Diagnostic}
    (h : KeysDistinct key settings → check = Result.firstOf more) :
    (checkKeys key settings >>= fun _ => check) =
      Result.firstOf (keyMistakes key settings ++ more) := by
  rw [Result.firstOf_append, ← checkKeys_eq]
  cases hkeys : checkKeys key settings with
  | error e => rfl
  | ok u => exact h (keysDistinct_of_checkKeys hkeys)

theorem isSome_arrowheads?_iff (s : LinkSetting) : s.arrowheads?.isSome ↔ s.key = "arrowheads" := by
  cases s <;> simp [LinkSetting.arrowheads?, LinkSetting.key]

theorem checkLink_eq (spec : LinkSpec) : checkLink spec = Result.firstOf spec.mistakes :=
  checkKeys_then fun hkeys => checkKeyword_eq isSome_arrowheads?_iff hkeys _ _

theorem checkLinks_eq (specs : List LinkSpec) :
    checkLinks specs = Result.firstOf (specs.flatMap LinkSpec.mistakes) := by
  induction specs with
  | nil => rfl
  | cons spec specs ih =>
    rw [checkLinks, checkLink_eq, ih, List.flatMap_cons, Result.firstOf_append]

theorem checkNode_eq (settings : List (Located NodeSetting)) :
    checkNode settings = Result.firstOf (NodeSetting.mistakes settings) := by
  refine checkKeys_then fun hkeys => ?_
  rw [Result.firstOf_append, checkKeyword_eq isSome_shape?_iff hkeys, checkLinks_eq,
    findingsAt_eq isSome_connect?_iff hkeys, pick?_eq_map_locate?]
  cases locate? NodeSetting.connect? settings <;> rfl

theorem checkDefinitions_eq {seen : List String} {before : List Definition}
    (hseen : ∀ k, k ∈ seen ↔ k ∈ before.map Definition.identifier)
    (definitions : List Definition) : checkDefinitions seen definitions =
      Result.firstOf (findings Definition.mistakes before definitions) := by
  induction definitions generalizing seen before with
  | nil => rfl
  | cons d definitions ih =>
    have hseen' (k : String) :
        k ∈ d.identifier :: seen ↔ k ∈ (before ++ [d]).map Definition.identifier := by
      simp [hseen, or_comm]
    have hrest := ih hseen'
    rw [checkDefinitions, checkNode_eq, hrest, findings, Definition.mistakes,
      Result.firstOf_append, Result.firstOf_append]
    by_cases h : d.identifier ∈ seen
    · simp only [if_pos h, if_pos ((hseen _).mp h)]
      rfl
    · simp only [if_neg h, if_neg (mt (hseen _).mpr h)]
      rfl

end Draft

namespace Document

theorem occurrences_eq_nodeCells (d : Document) : d.occurrences.map (·.2.2) = d.nodeCells := by
  have hrow (row : Nat) (cells : List Cell) :
      (occurrencesOfRow row cells).map (·.2.2) = cells.reduceOption := by
    have hcells := congrArg List.reduceOption (cells.zipIdx_map_fst 0)
    rw [← hcells, List.reduceOption, List.filterMap_map, occurrencesOfRow, List.map_filterMap]
    refine congrArg (List.filterMap · _) (funext fun p => ?_)
    cases hp : p.1 <;> simp [hp]
  calc d.occurrences.map (·.2.2)
      = d.rows.zipIdx.flatMap fun p => p.1.reduceOption := by
        rw [occurrences, List.map_flatMap]
        exact congrArg (List.flatMap · _) (funext fun p => hrow p.2 p.1)
    _ = ((d.rows.zipIdx.map Prod.fst).map List.reduceOption).flatten := by
        rw [List.map_map, List.flatMap_def, Function.comp_def]
    _ = d.nodeCells := by
        rw [List.zipIdx_map_fst, nodeCells, List.reduceOption, List.filterMap_flatten]

theorem draftCells_eq (definitions : List Definition) (cells : List (Nat × Nat × Occurrence)) :
    draftCells definitions cells =
      (Result.firstOf ((cells.map (·.2.2)).flatMap fun cell =>
        NodeSetting.mistakes cell.settings)).map fun _ =>
          cells.map fun (row, col, cell) =>
            .ofOccurrence (Draft.defined definitions cell.identifier) row col cell := by
  induction cells with
  | nil => rfl
  | cons c cells ih =>
    obtain ⟨row, col, cell⟩ := c
    simp only [draftCells, ih, Draft.checkNode_eq, List.map_cons, List.flatMap_cons,
      Result.firstOf_append]
    cases Result.firstOf (NodeSetting.mistakes cell.settings) with
    | error e => rfl
    | ok u =>
      cases Result.firstOf ((cells.map (·.2.2)).flatMap fun cell =>
        NodeSetting.mistakes cell.settings) <;> rfl

theorem drafts_eq (d : Document) : d.drafts = (Result.firstOf d.mistakes).map fun _ =>
    d.occurrences.map fun (row, col, cell) =>
      .ofOccurrence (Draft.defined d.definitions cell.identifier) row col cell := by
  have hnone (k : String) : k ∈ [] ↔ k ∈ List.map Definition.identifier [] := .rfl
  rw [drafts, draftCells_eq, occurrences_eq_nodeCells, mistakes, Result.firstOf_append,
    Draft.checkDefinitions_eq hnone]
  cases Result.firstOf (findings Definition.mistakes [] d.definitions) <;> rfl

end Document

/-! ### Documents without mistakes -/

theorem keyMistakes_eq_nil_iff {σ : Type} {key : σ → String} {settings : List (Located σ)} :
    keyMistakes key settings = [] ↔ KeysDistinct key settings := by
  rw [← Result.firstOf_eq_ok_iff, ← Draft.checkKeys_eq, Draft.checkKeys_eq_ok_iff]

theorem keywordMistakes_eq_nil_iff {σ : Type} {key : String} {allowed : List String}
    {pick : σ → Option String} {settings : List (Located σ)} :
    keywordMistakes key allowed pick settings = [] ↔
      ∀ s ∈ settings, ∀ keyword, pick s.value = some keyword → keyword ∈ allowed := by
  rw [keywordMistakes, findingsAt, List.flatMap_eq_nil_iff]
  refine forall₂_congr fun s _ => ?_
  cases pick s.value <;> simp

theorem LinkSpec.mistakes_eq_nil_iff {spec : LinkSpec} : spec.mistakes = [] ↔ spec.IsValid := by
  simp only [mistakes, List.append_eq_nil_iff, keyMistakes_eq_nil_iff, keywordMistakes_eq_nil_iff,
    LinkSetting.arrowheads?_eq_some_iff, List.mem_map]
  constructor
  · rintro ⟨hkeys, harrowheads⟩
    exact ⟨hkeys, harrowheads⟩
  · exact fun h => ⟨h.keys, h.arrowheads⟩

theorem NodeSetting.mistakes_eq_nil_iff {settings : List (Located NodeSetting)} :
    mistakes settings = [] ↔ AreValid settings := by
  have hlinks (s : Located NodeSetting) :
      ((s.value.connect?.map fun specs => specs.flatMap LinkSpec.mistakes).getD [] = []) ↔
        ∀ specs, s.value = .connect specs → ∀ spec ∈ specs, spec.IsValid := by
    cases s.value <;> simp [connect?, List.flatMap_eq_nil_iff, LinkSpec.mistakes_eq_nil_iff]
  simp only [mistakes, List.append_eq_nil_iff, keyMistakes_eq_nil_iff, keywordMistakes_eq_nil_iff,
    findingsAt, List.flatMap_eq_nil_iff, shape?_eq_some_iff, List.mem_map, hlinks]
  constructor
  · rintro ⟨hkeys, hshape, hlinks⟩
    exact ⟨hkeys, hshape, hlinks⟩
  · exact fun h => ⟨h.keys, h.shape, h.links⟩

theorem findings_definitions_eq_nil_iff (before : List Definition) {definitions : List Definition}
    (h : (before.map Definition.identifier).Nodup) :
    findings Definition.mistakes before definitions = [] ↔
      ((before ++ definitions).map Definition.identifier).Nodup ∧
        ∀ d ∈ definitions, NodeSetting.AreValid d.settings := by
  induction definitions generalizing before with
  | nil => simp [findings, h]
  | cons d definitions ih =>
    rw [findings, Definition.mistakes]
    by_cases hd : d.identifier ∈ before.map Definition.identifier
    · simp only [if_pos hd]
      refine iff_of_false (by simp) fun ⟨hnodup, _⟩ => ?_
      rw [List.map_append, List.map_cons, List.nodup_append] at hnodup
      exact hnodup.2.2 _ hd _ (.head _) rfl
    · have hbefore : ((before ++ [d]).map Definition.identifier).Nodup := by
        rw [List.map_append, List.map_singleton, ← List.concat_eq_append]
        exact h.concat hd
      simp only [if_neg hd, List.nil_append, List.append_eq_nil_iff, ih _ hbefore,
        List.append_assoc, List.singleton_append, NodeSetting.mistakes_eq_nil_iff,
        List.forall_mem_cons]
      exact and_left_comm

/-- All definitions are of different identifiers, and no settings are mistaken, whether or not
they are used. -/
structure Document.IsFlawless (d : Document) : Prop where
  identifiers : (d.definitions.map Definition.identifier).Nodup
  definitions : ∀ definition ∈ d.definitions, NodeSetting.AreValid definition.settings
  cells : ∀ cells ∈ d.rows, ∀ cell, some cell ∈ cells → NodeSetting.AreValid cell.settings

theorem Document.mistakes_eq_nil_iff {d : Document} : d.mistakes = [] ↔ d.IsFlawless := by
  have hcells : (d.nodeCells.flatMap fun cell => NodeSetting.mistakes cell.settings) = [] ↔
      ∀ cells ∈ d.rows, ∀ cell, some cell ∈ cells → NodeSetting.AreValid cell.settings := by
    simp only [List.flatMap_eq_nil_iff, nodeCells, List.reduceOption_mem_iff, List.mem_flatten,
      NodeSetting.mistakes_eq_nil_iff]
    exact ⟨fun h cells hc cell hcell => h cell ⟨cells, hc, hcell⟩,
      fun h cell ⟨cells, hc, hcell⟩ => h cells hc cell hcell⟩
  rw [mistakes, List.append_eq_nil_iff, findings_definitions_eq_nil_iff [] .nil, hcells]
  exact ⟨fun ⟨⟨hnodup, hdefinitions⟩, hcells⟩ => ⟨hnodup, hdefinitions, hcells⟩,
    fun h => ⟨⟨h.identifiers, h.definitions⟩, h.cells⟩⟩

/-! ### Links checked again -/

/-- Drafts a link after one more check of its keys. -/
def Draft.recheckedLink (spec : LinkSpec) : Except Diagnostic LinkDraft := do
  checkKeys LinkSetting.key spec.settings
  pure (ofLink spec)

/-- Drafts the node of a cell with all its links checked once more. -/
def Draft.rechecked (base : List (Located NodeSetting)) (row col : Nat) (cell : Occurrence) :
    Except Diagnostic Draft := do
  let specs := (pick? NodeSetting.connect? (mergeSettings base cell.settings)).getD []
  let links ← specs.mapM recheckedLink
  pure { ofOccurrence base row col cell with links }

/-- Checks a cell and drafts its node, one cell after the other. -/
def Document.recheckedCells (definitions : List Definition) :
    List (Nat × Nat × Occurrence) → Except Diagnostic (List Draft)
  | [] => .ok []
  | (row, col, cell) :: rest => do
    Draft.checkNode cell.settings
    let draft ← Draft.rechecked (Draft.defined definitions cell.identifier) row col cell
    let drafts ← recheckedCells definitions rest
    pure (draft :: drafts)

def Document.recheckedDrafts (d : Document) : Except Diagnostic (List Draft) := do
  Draft.checkDefinitions [] d.definitions
  recheckedCells d.definitions d.occurrences

/-- A link that passed its checks passes the second one. -/
theorem Draft.rechecked_eq {base : List (Located NodeSetting)} {cell : Occurrence}
    (hbase : NodeSetting.AreValid base) (hown : NodeSetting.AreValid cell.settings)
    (row col : Nat) : rechecked base row col cell = .ok (ofOccurrence base row col cell) := by
  have hlinks (specs : List LinkSpec) (h : ∀ spec ∈ specs, spec.IsValid) :
      specs.mapM recheckedLink = .ok (specs.map ofLink) := by
    rw [Result.mapM_eq_ok_iff, List.map_map]
    refine List.map_congr_left fun spec hspec => ?_
    rw [recheckedLink, checkKeys_eq_ok_iff.mpr (h spec hspec).keys]
    rfl
  have hchosen := chooses_pick?_mergeSettings isSome_connect?_iff base cell.settings
  rw [rechecked, hlinks]
  · rfl
  · cases hs : pick? NodeSetting.connect? (mergeSettings base cell.settings) with
    | none => exact List.forall_mem_nil _
    | some specs =>
      rw [hs] at hchosen
      exact hchosen.isValid hbase hown

theorem Document.recheckedCells_eq {definitions : List Definition}
    (h : ∀ d ∈ definitions, NodeSetting.AreValid d.settings)
    (cells : List (Nat × Nat × Occurrence)) :
    recheckedCells definitions cells = draftCells definitions cells := by
  induction cells with
  | nil => rfl
  | cons c cells ih =>
    obtain ⟨row, col, cell⟩ := c
    rw [recheckedCells, draftCells, ih]
    cases hcheck : Draft.checkNode cell.settings with
    | error e => rfl
    | ok u =>
      rw [Draft.rechecked_eq (Draft.areValid_defined h _) (Draft.areValid_of_checkNode hcheck)]
      rfl

namespace Document

theorem recheckedDrafts_eq (d : Document) : d.recheckedDrafts = d.drafts := by
  rw [recheckedDrafts, drafts]
  cases hdefinitions : Draft.checkDefinitions [] d.definitions with
  | error e => rfl
  | ok u => exact recheckedCells_eq (Draft.areValid_of_checkDefinitions hdefinitions).1 _

theorem exists_drafts_iff {d : Document} : (∃ drafts, d.drafts = .ok drafts) ↔ d.IsFlawless := by
  rw [← mistakes_eq_nil_iff, ← Result.firstOf_eq_ok_iff, drafts_eq]
  cases Result.firstOf d.mistakes <;> simp [Except.map]

/-- A document is drafted exactly when it is flawless, and otherwise the first of its mistakes is
reported. No second check of the links reports anything else. -/
theorem drafts_or_first_mistake (d : Document) :
    ((∃ drafts, d.drafts = .ok drafts) ↔ d.IsFlawless) ∧
    (∀ fault, d.drafts = .error fault ↔ d.mistakes.head? = some fault) ∧
    d.recheckedDrafts = d.drafts := by
  refine ⟨exists_drafts_iff, fun fault => ?_, d.recheckedDrafts_eq⟩
  rw [← Result.firstOf_eq_error_iff, drafts_eq]
  cases Result.firstOf d.mistakes <;> simp [Except.map]

end Document
end FlowGrid
