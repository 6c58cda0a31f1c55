import FlowGrid.Proofs.Chart.Nodes
import Mathlib.Data.List.Induction

/-! Where links lead. The labels of the drafts are collected first, so a label that is carried
twice stops everything else. Then the links are looked up one after the other, and the first
one that leads nowhere is reported. A text without such mistakes has each link at the one
draft that its destination names. -/

namespace FlowGrid

/-! ### The grid by place -/

namespace Document

variable {d : Document} {drafts : List Draft} {grid : Grid Nat}

/-- The cell of a row and a column holds a node. -/
def IsOccupied (d : Document) (row col : Int) : Prop :=
  ∃ (r c : Nat) (cells : List Cell) (cell : Occurrence), row = r ∧ col = c ∧
    d.rows[r]? = some cells ∧ cells[c]? = some (some cell)

/-- The occupied cells are the places of a document. -/
theorem isOccupied_iff_mem_places {d : Document} {row col : Int} :
    d.IsOccupied row col ↔ ∃ p ∈ d.places, position p = (row, col) := by
  simp only [places, List.mem_map, Prod.exists, position, Prod.mk.injEq, mem_occurrences]
  constructor
  · rintro ⟨r, c, cells, cell, rfl, rfl, hr, hc⟩
    exact ⟨r, c, ⟨r, c, cell, ⟨cells, hr, hc⟩, rfl, rfl⟩, rfl, rfl⟩
  · rintro ⟨_, _, ⟨r, c, cell, ⟨cells, hr, hc⟩, rfl, rfl⟩, rfl, rfl⟩
    exact ⟨r, c, cells, cell, rfl, rfl, hr, hc⟩

/-- The occupied cells are those of the drafts. -/
theorem isOccupied_iff (hd : d.drafts = .ok drafts) {row col : Int} :
    d.IsOccupied row col ↔ ∃ draft ∈ drafts, (draft.row : Int) = row ∧ (draft.col : Int) = col := by
  rw [isOccupied_iff_mem_places, ← places_of_drafts hd]
  simp only [List.mem_map, exists_exists_and_eq_and, position, Prod.mk.injEq]

/-- A cell of the grid holds the index of the draft at its place. -/
theorem get?_grid (hd : d.drafts = .ok drafts) (hg : d.grid drafts = .ok grid) {row col : Int}
    {j : Nat} : grid.get? row col = some j ↔
      ∃ draft, drafts[j]? = some draft ∧ (draft.row : Int) = row ∧ (draft.col : Int) = col := by
  rw [Document.grid, Grid.ofPositions] at hg
  have hnodup : (drafts.map fun draft => ((draft.row : Int), (draft.col : Int))).Nodup := by
    rw [positions_of_drafts hd]
    exact List.pairwise_map.mpr (d.nodup_places.imp fun hne h => hne (position_injective h))
  have hget {i : Nat} {draft : Draft} (hi : drafts[i]? = some draft) :
      grid.get? draft.row draft.col = some i := by
    have h := Grid.get?_of_placeFrom hg hnodup (by rw [List.getElem?_map, hi]; rfl)
    rwa [Nat.zero_add] at h
  constructor
  · intro h
    by_cases hmem : (row, col) ∈ drafts.map fun draft => ((draft.row : Int), (draft.col : Int))
    · obtain ⟨draft, hdraft, heq⟩ := List.mem_map.mp hmem
      cases heq
      obtain ⟨i, hi⟩ := List.mem_iff_getElem?.mp hdraft
      rw [hget hi] at h
      cases h
      exact ⟨draft, hi, rfl, rfl⟩
    · rw [Grid.get?_of_placeFrom_of_notMem hg hmem, Grid.get?_empty] at h
      cases h
  · rintro ⟨draft, hj, rfl, rfl⟩
    exact hget hj

end Document

/-! ### Labels -/

/-- The labels that drafts carry, in order. -/
def labelNames (drafts : List Draft) : List String := drafts.filterMap (·.label)

theorem isSome_lookup_iff {labels : List (String × Nat)} {name : String} :
    (labels.lookup name).isSome ↔ name ∈ labels.map Prod.fst := by
  simp

/-- The labels of drafts, the first of which has the given index, with the indices. -/
def labelEntries (index : Nat) (drafts : List Draft) : List (String × Nat) :=
  (drafts.zipIdx index).filterMap fun (d, i) => d.label.map (·, i)

theorem labelEntries_cons (index : Nat) (d : Draft) (drafts : List Draft) :
    labelEntries index (d :: drafts) =
      (d.label.map (·, index)).toList ++ labelEntries (index + 1) drafts := by
  rw [labelEntries, List.zipIdx_cons, List.filterMap_cons]
  dsimp only
  cases d.label <;> rfl

theorem labelNames_cons (d : Draft) (drafts : List Draft) :
    labelNames (d :: drafts) = d.label.toList ++ labelNames drafts := by
  rw [labelNames, List.filterMap_cons]
  cases d.label <;> rfl

theorem map_fst_labelEntries (index : Nat) (drafts : List Draft) :
    (labelEntries index drafts).map Prod.fst = labelNames drafts := by
  induction drafts generalizing index with
  | nil => rfl
  | cons d drafts ih =>
    rw [labelEntries_cons, labelNames_cons, List.map_append, ih]
    cases d.label <;> rfl

theorem getElem?_of_mem_labelEntries {drafts : List Draft} {name : String} {j : Nat}
    (h : (name, j) ∈ labelEntries 0 drafts) :
    ∃ draft, drafts[j]? = some draft ∧ draft.label = some name := by
  obtain ⟨⟨draft, i⟩, hi, hname⟩ := List.mem_filterMap.mp h
  obtain ⟨_, hlabel, heq⟩ := Option.map_eq_some_iff.mp hname
  cases heq
  exact ⟨draft, List.mem_zipIdx_iff_getElem?.mp hi, hlabel⟩

/-- Drafts whose labels are new are passed. -/
theorem labelsFrom_append (known : List (String × Nat)) (index : Nat) (before rest : List Draft)
    (h : (known.map Prod.fst ++ labelNames before).Nodup) :
    labelsFrom known index (before ++ rest) =
      labelsFrom (known ++ labelEntries index before) (index + before.length) rest := by
  induction before generalizing known index with
  | nil => simp [labelEntries]
  | cons d before ih =>
    rw [labelNames_cons] at h
    rw [List.cons_append, labelsFrom, labelEntries_cons]
    cases hd : d.label with
    | none =>
      rw [hd] at h
      dsimp only
      rw [ih known (index + 1) h]
      simp [Nat.add_assoc, Nat.add_comm 1]
    | some name =>
      rw [hd] at h
      have hnew : name ∉ known.map Prod.fst := by
        intro hmem
        rw [List.nodup_append] at h
        exact h.2.2 name hmem name (by simp) rfl
      dsimp only
      rw [if_neg (mt isSome_lookup_iff.mp hnew), ih]
      · simp [Nat.add_assoc, Nat.add_comm 1]
      · simpa using h

/-- Distinct labels are all collected. -/
theorem labelIndex_eq_ok {drafts : List Draft} (h : (labelNames drafts).Nodup) :
    labelIndex drafts = .ok (labelEntries 0 drafts) := by
  have := labelsFrom_append [] 0 drafts [] h
  rwa [List.append_nil] at this

/-- The draft is the first one whose label an earlier one carries. -/
structure RepeatsLabel (before : List Draft) (draft : Draft) (name : String) : Prop where
  label : draft.label = some name
  taken : name ∈ labelNames before
  first : (labelNames before).Nodup

theorem labelIndex_eq_error {before after : List Draft} {draft : Draft} {name : String}
    (h : RepeatsLabel before draft name) :
    labelIndex (before ++ draft :: after) = .error ⟨.duplicateLabel name, draft.position⟩ := by
  rw [labelIndex, labelsFrom_append [] 0 before _ h.first, labelsFrom, h.label]
  dsimp only
  rw [if_pos]
  rw [isSome_lookup_iff, List.nil_append, map_fst_labelEntries]
  exact h.taken

theorem exists_repeatsLabel {drafts : List Draft} (h : ¬ (labelNames drafts).Nodup) :
    ∃ before draft after name, drafts = before ++ draft :: after ∧
      RepeatsLabel before draft name := by
  -- from the end: the last draft is the one unless the drafts before it repeat a label
  induction drafts using List.reverseRecOn with
  | nil => exact absurd List.nodup_nil h
  | append_singleton drafts draft ih =>
    by_cases hn : (labelNames drafts).Nodup
    · have hsplit : labelNames (drafts ++ [draft]) = labelNames drafts ++ draft.label.toList := by
        rw [labelNames, List.filterMap_append, ← labelNames, ← labelNames, labelNames_cons]
        exact congrArg _ (List.append_nil _)
      rw [hsplit, List.nodup_append] at h
      cases hlabel : draft.label with
      | none => simp [hlabel, hn] at h
      | some name =>
        have htaken : name ∈ labelNames drafts := by simpa [hlabel, hn] using h
        exact ⟨drafts, draft, [], name, rfl, hlabel, htaken, hn⟩
    · obtain ⟨before, draft', after, name, rfl, hr⟩ := ih hn
      exact ⟨before, draft', after ++ [draft], name, by simp, hr⟩

/-- A label names one draft. -/
theorem index_eq_of_label {drafts : List Draft} (h : (labelNames drafts).Nodup) {i j : Nat}
    {a b : Draft} {name : String} (hi : drafts[i]? = some a) (hj : drafts[j]? = some b)
    (ha : a.label = some name) (hb : b.label = some name) : i = j := by
  have hpair := List.pairwise_iff_getElem.mp (List.pairwise_filterMap.mp h)
  obtain ⟨hi', rfl⟩ := List.getElem?_eq_some_iff.mp hi
  obtain ⟨hj', rfl⟩ := List.getElem?_eq_some_iff.mp hj
  rcases Nat.lt_trichotomy i j with hlt | heq | hlt
  · exact absurd rfl (hpair i j hi' hj' hlt name ha name hb)
  · exact heq
  · exact absurd rfl (hpair j i hj' hi' hlt name hb name ha)

/-! ### Destinations -/

namespace Destination

/-- A link of the draft at `i` leads to the draft at `j`: the one that carries its label, the
one in the cell beyond its side, or the draft at `i` itself. -/
def LeadsTo (drafts : List Draft) (i : Nat) (source : Draft) (j : Nat) : Destination → Prop
  | .self => j = i
  | .label name => ∃ target, drafts[j]? = some target ∧ target.label = some name
  | .toward side => ∃ target, drafts[j]? = some target ∧
      (target.row : Int) = source.row + side.dy ∧ (target.col : Int) = source.col + side.dx

/-- If a link asks for a label, some draft carries it, and if it asks for a side, the cell
beyond that side of its source holds a node. -/
def IsFound (d : Document) (drafts : List Draft) (source : Draft) : Destination → Prop
  | .self => True
  | .label name => ∃ target ∈ drafts, target.label = some name
  | .toward side => d.IsOccupied (source.row + side.dy) (source.col + side.dx)

end Destination

/-- What is reported of a link that leads nowhere. -/
inductive LinkDraft.Reports (link : LinkDraft) (source : Draft) : Diagnostic → Prop
  | label {name : String} (h : link.destination = .label name) :
    Reports link source ⟨.unresolvedLabel name, link.position⟩
  | toward {side : Side} (h : link.destination = .toward side) :
    Reports link source ⟨.noNeighbor side source.row source.col, link.position⟩

/-- The link starts at the draft at `i` and ends at the one draft that its destination names. -/
structure Link.Resolves (drafts : List Draft) (i : Nat) (source : Draft) (link : LinkDraft)
    (resolved : Link) : Prop where
  starts : resolved.source = i
  ends (j : Nat) : link.destination.LeadsTo drafts i source j ↔ j = resolved.target

section Destinations

variable {d : Document} {drafts : List Draft} {grid : Grid Nat} {i : Nat} {source : Draft}
  {link : LinkDraft}

theorem leadsTo_of_targetIndex (hd : d.drafts = .ok drafts) (hg : d.grid drafts = .ok grid)
    {j : Nat} (h : targetIndex (labelEntries 0 drafts) grid i source link = .ok j) :
    link.destination.LeadsTo drafts i source j := by
  unfold targetIndex at h
  cases hdest : link.destination with
  | self =>
    rw [hdest] at h
    cases h
    rfl
  | label name =>
    rw [hdest] at h
    dsimp only at h
    split at h
    · rename_i k hlookup
      cases h
      obtain ⟨before, after, heq, -⟩ := List.lookup_eq_some_iff.mp hlookup
      have hmem : (name, j) ∈ labelEntries 0 drafts := by simp [heq]
      exact getElem?_of_mem_labelEntries hmem
    · cases h
  | toward side =>
    rw [hdest] at h
    dsimp only at h
    split at h
    · rename_i k hneighbor
      cases h
      exact (Document.get?_grid hd hg).mp hneighbor
    · cases h

theorem Destination.LeadsTo.isFound (hd : d.drafts = .ok drafts) {dest : Destination} {j : Nat}
    (h : dest.LeadsTo drafts i source j) : dest.IsFound d drafts source := by
  cases dest with
  | self => trivial
  | label name =>
    obtain ⟨target, htarget, hlabel⟩ := h
    exact ⟨target, List.mem_of_getElem? htarget, hlabel⟩
  | toward side =>
    obtain ⟨target, htarget, hplace⟩ := h
    exact (Document.isOccupied_iff hd).mpr ⟨target, List.mem_of_getElem? htarget, hplace⟩

theorem Destination.LeadsTo.exists_draft {dest : Destination} {j : Nat}
    (h : dest.LeadsTo drafts i source j) (hi : drafts[i]? = some source) :
    ∃ target, drafts[j]? = some target := by
  cases dest with
  | self => exact ⟨source, h ▸ hi⟩
  | label name => exact h.imp fun _ htarget => htarget.1
  | toward side => exact h.imp fun _ htarget => htarget.1

/-- A link leads to one draft at most. -/
theorem Destination.LeadsTo.unique (hd : d.drafts = .ok drafts) (hg : d.grid drafts = .ok grid)
    (hlabels : (labelNames drafts).Nodup) {dest : Destination} {j k : Nat}
    (hj : dest.LeadsTo drafts i source j) (hk : dest.LeadsTo drafts i source k) : j = k := by
  cases dest with
  | self => exact Eq.trans hj (Eq.symm hk)
  | label name =>
    obtain ⟨a, ha, hname⟩ := hj
    obtain ⟨b, hb, hname'⟩ := hk
    exact index_eq_of_label hlabels ha hb hname hname'
  | toward side =>
    have hgj := (Document.get?_grid hd hg).mpr hj
    have hgk := (Document.get?_grid hd hg).mpr hk
    exact Option.some.inj (hgj.symm.trans hgk)

theorem not_isFound_of_targetIndex (hd : d.drafts = .ok drafts) (hg : d.grid drafts = .ok grid)
    {fault : Diagnostic}
    (h : targetIndex (labelEntries 0 drafts) grid i source link = .error fault) :
    link.Reports source fault ∧ ¬ link.destination.IsFound d drafts source := by
  unfold targetIndex at h
  cases hdest : link.destination with
  | self =>
    rw [hdest] at h
    cases h
  | label name =>
    rw [hdest] at h
    dsimp only at h
    split at h
    · cases h
    · rename_i hlookup
      cases h
      refine ⟨.label hdest, ?_⟩
      rintro ⟨target, htarget, hname⟩
      have hmem : name ∈ (labelEntries 0 drafts).map Prod.fst := by
        rw [map_fst_labelEntries]
        exact List.mem_filterMap.mpr ⟨target, htarget, hname⟩
      rw [← isSome_lookup_iff, hlookup] at hmem
      cases hmem
  | toward side =>
    rw [hdest] at h
    dsimp only at h
    split at h
    · cases h
    · rename_i hneighbor
      cases h
      refine ⟨.toward hdest, ?_⟩
      intro hoccupied
      obtain ⟨target, htarget, hplace⟩ := (Document.isOccupied_iff hd).mp hoccupied
      obtain ⟨j, hj⟩ := List.mem_iff_getElem?.mp htarget
      have := (Document.get?_grid hd hg).mpr ⟨target, hj, hplace⟩
      rw [Grid.neighbor?, this] at hneighbor
      cases hneighbor

/-! ### Nodes -/

theorem Link.leadsTo_of_ofDraft (hd : d.drafts = .ok drafts) (hg : d.grid drafts = .ok grid)
    {resolved : Link}
    (h : Link.ofDraft (labelEntries 0 drafts) grid i source link = .ok resolved) :
    resolved.source = i ∧ link.destination.LeadsTo drafts i source resolved.target := by
  obtain ⟨target, htarget, h⟩ := Result.bind_eq_ok_iff.mp h
  cases h
  exact ⟨rfl, leadsTo_of_targetIndex hd hg htarget⟩

theorem Link.not_isFound_of_ofDraft (hd : d.drafts = .ok drafts) (hg : d.grid drafts = .ok grid)
    {fault : Diagnostic}
    (h : Link.ofDraft (labelEntries 0 drafts) grid i source link = .error fault) :
    link.Reports source fault ∧ ¬ link.destination.IsFound d drafts source := by
  unfold Link.ofDraft at h
  cases htarget : targetIndex (labelEntries 0 drafts) grid i source link with
  | error fault' =>
    rw [htarget] at h
    cases h
    exact not_isFound_of_targetIndex hd hg htarget
  | ok target =>
    rw [htarget] at h
    cases h

/-- The links of a node are those of its draft, each at the draft where it leads. -/
theorem Node.leadsTo_of_ofDraft (hd : d.drafts = .ok drafts) (hg : d.grid drafts = .ok grid)
    {node : Node} (h : Node.ofDraft (labelEntries 0 drafts) grid i source = .ok node) :
    List.Forall₂ (fun link resolved => resolved.source = i ∧
      link.destination.LeadsTo drafts i source resolved.target) source.links node.links := by
  obtain ⟨links, hlinks, h⟩ := Result.bind_eq_ok_iff.mp h
  cases h
  exact (Result.forall₂_of_mapM hlinks).imp fun _ _ => Link.leadsTo_of_ofDraft hd hg

theorem Node.isFound_of_ofDraft (hd : d.drafts = .ok drafts) (hg : d.grid drafts = .ok grid)
    {node : Node} (h : Node.ofDraft (labelEntries 0 drafts) grid i source = .ok node) :
    ∀ link ∈ source.links, link.destination.IsFound d drafts source := by
  intro link hlink
  obtain ⟨links, hlinks, -⟩ := Result.bind_eq_ok_iff.mp h
  obtain ⟨k, hk⟩ := List.mem_iff_getElem?.mp hlink
  obtain ⟨resolved, -, hresolved⟩ := Result.exists_result_of_mapM hlinks hk
  exact (Link.leadsTo_of_ofDraft hd hg hresolved).2.isFound hd

/-- A node fails at the first of its links that leads nowhere. -/
theorem Node.not_isFound_of_ofDraft (hd : d.drafts = .ok drafts) (hg : d.grid drafts = .ok grid)
    {fault : Diagnostic} (h : Node.ofDraft (labelEntries 0 drafts) grid i source = .error fault) :
    ∃ done link todo, source.links = done ++ link :: todo ∧
      (∀ l ∈ done, l.destination.IsFound d drafts source) ∧
      ¬ link.destination.IsFound d drafts source ∧ link.Reports source fault := by
  unfold Node.ofDraft at h
  cases hlinks : source.links.mapM (Link.ofDraft (labelEntries 0 drafts) grid i source) with
  | ok links =>
    rw [hlinks] at h
    cases h
  | error fault' =>
    rw [hlinks] at h
    cases h
    obtain ⟨done, link, todo, hsplit, hdone, hlink⟩ := Result.exists_of_mapM_eq_error hlinks
    obtain ⟨hreports, hmissing⟩ := Link.not_isFound_of_ofDraft hd hg hlink
    refine ⟨done, link, todo, hsplit, fun l hl => ?_, hmissing, hreports⟩
    obtain ⟨resolved, hresolved⟩ := hdone l hl
    exact (Link.leadsTo_of_ofDraft hd hg hresolved).2.isFound hd

end Destinations

/-! ### All nodes -/

namespace Document

variable {d : Document} {drafts : List Draft} {grid : Grid Nat}

/-- The fault of drafts whose first mistake is a label that an earlier draft carries, or else
the first link that leads nowhere, in reading order. -/
inductive Faults (d : Document) (drafts : List Draft) : Diagnostic → Prop
  | label {before after : List Draft} {draft : Draft} {name : String}
    (split : drafts = before ++ draft :: after) (repeats : RepeatsLabel before draft name) :
    Faults d drafts ⟨.duplicateLabel name, draft.position⟩
  | link {before after : List Draft} {source : Draft} {done todo : List LinkDraft}
    {link : LinkDraft} {fault : Diagnostic} (labels : (labelNames drafts).Nodup)
    (split : drafts = before ++ source :: after) (links : source.links = done ++ link :: todo)
    (earlier : ∀ s ∈ before, ∀ l ∈ s.links, l.destination.IsFound d drafts s)
    (found : ∀ l ∈ done, l.destination.IsFound d drafts source)
    (missing : ¬ link.destination.IsFound d drafts source) (reports : link.Reports source fault) :
    Faults d drafts fault

theorem ofDrafts_eq_mapM (h : (labelNames drafts).Nodup) (grid : Grid Nat) :
    Node.ofDrafts drafts grid = drafts.zipIdx.mapM fun (draft, i) =>
      Node.ofDraft (labelEntries 0 drafts) grid i draft := by
  rw [Node.ofDrafts, labelIndex_eq_ok h]
  rfl

theorem faults_of_repeated (h : ¬ (labelNames drafts).Nodup) (grid : Grid Nat) :
    ∃ fault, Node.ofDrafts drafts grid = .error fault ∧ d.Faults drafts fault := by
  obtain ⟨before, draft, after, name, rfl, hr⟩ := exists_repeatsLabel h
  refine ⟨_, ?_, .label rfl hr⟩
  rw [Node.ofDrafts, labelIndex_eq_error hr]
  rfl

theorem faults_of_ofDrafts (hd : d.drafts = .ok drafts) (hg : d.grid drafts = .ok grid)
    {fault : Diagnostic} (h : Node.ofDrafts drafts grid = .error fault) :
    d.Faults drafts fault := by
  by_cases hlabels : (labelNames drafts).Nodup
  · rw [ofDrafts_eq_mapM hlabels] at h
    obtain ⟨before, ⟨source, i⟩, after, hsplit, hbefore, hsource⟩ :=
      Result.exists_of_mapM_eq_error h
    obtain ⟨done, link, todo, hlinks, hdone, hmissing, hreports⟩ :=
      Node.not_isFound_of_ofDraft hd hg hsource
    have hdrafts := congrArg (List.map Prod.fst) hsplit
    rw [List.zipIdx_map_fst, List.map_append, List.map_cons] at hdrafts
    refine .link hlabels hdrafts hlinks (fun s hs => ?_) hdone hmissing hreports
    obtain ⟨⟨s, j⟩, hmem, rfl⟩ := List.mem_map.mp hs
    obtain ⟨node, hnode⟩ := hbefore _ hmem
    exact Node.isFound_of_ofDraft hd hg hnode
  · obtain ⟨fault', hfault, hfaults⟩ := faults_of_repeated (d := d) hlabels grid
    rw [hfault] at h
    cases h
    exact hfaults

theorem nodup_of_ofDrafts {nodes : List Node} (h : Node.ofDrafts drafts grid = .ok nodes) :
    (labelNames drafts).Nodup := by
  by_cases hlabels : (labelNames drafts).Nodup
  · exact hlabels
  · obtain ⟨fault, hfault, -⟩ := faults_of_repeated (d := ⟨[], []⟩) hlabels grid
    rw [hfault] at h
    cases h

theorem leadsTo_of_ofDrafts (hd : d.drafts = .ok drafts) (hg : d.grid drafts = .ok grid)
    {nodes : List Node} (h : Node.ofDrafts drafts grid = .ok nodes) {i : Nat} {source : Draft}
    (hi : drafts[i]? = some source) : ∃ node, nodes[i]? = some node ∧
      (∀ link ∈ source.links, link.destination.IsFound d drafts source) ∧
      List.Forall₂ (Link.Resolves drafts i source) source.links node.links := by
  have hlabels := nodup_of_ofDrafts h
  rw [ofDrafts_eq_mapM hlabels] at h
  obtain ⟨node, hnode, heq⟩ := Result.exists_result_of_mapM h (i := i) (a := (source, i))
    (by rw [List.getElem?_zipIdx, hi, Nat.zero_add]; rfl)
  refine ⟨node, hnode, Node.isFound_of_ofDraft hd hg heq, ?_⟩
  refine (Node.leadsTo_of_ofDraft hd hg heq).imp ?_
  rintro link resolved ⟨hsource, hleads⟩
  exact ⟨hsource, fun j => ⟨fun hj => hj.unique hd hg hlabels hleads, fun hj => hj ▸ hleads⟩⟩

/-- A cell of the grid that holds an index is that of the node at the index. -/
theorem exists_node_of_get? (hd : d.drafts = .ok drafts) (hg : d.grid drafts = .ok grid)
    {nodes : List Node} (h : Node.ofDrafts drafts grid = .ok nodes) {row col : Int} {j : Nat}
    (hj : grid.get? row col = some j) :
    ∃ node, nodes[j]? = some node ∧ (node.row : Int) = row ∧ (node.col : Int) = col := by
  obtain ⟨draft, hdraft, rfl, rfl⟩ := (get?_grid hd hg).mp hj
  obtain ⟨node, hnode, -⟩ := leadsTo_of_ofDrafts hd hg h hdraft
  obtain ⟨draft', hdraft', -, hrow, hcol⟩ := Node.exists_draft_of_ofDrafts h hnode
  obtain rfl : draft = draft' := Option.some.inj (hdraft.symm.trans hdraft')
  exact ⟨node, hnode, by rw [hrow], by rw [hcol]⟩

/-- The occupied cells are those of the nodes. -/
theorem isOccupied_iff_node (hd : d.drafts = .ok drafts) (hg : d.grid drafts = .ok grid)
    {nodes : List Node} (h : Node.ofDrafts drafts grid = .ok nodes) {row col : Int} :
    d.IsOccupied row col ↔ ∃ node ∈ nodes, (node.row : Int) = row ∧ (node.col : Int) = col := by
  rw [isOccupied_iff hd]
  constructor
  · rintro ⟨draft, hmem, hplace⟩
    obtain ⟨j, hj⟩ := List.mem_iff_getElem?.mp hmem
    obtain ⟨node, hnode, hplace⟩ :=
      exists_node_of_get? hd hg h ((get?_grid hd hg).mpr ⟨draft, hj, hplace⟩)
    exact ⟨node, List.mem_of_getElem? hnode, hplace⟩
  · rintro ⟨node, hmem, rfl, rfl⟩
    obtain ⟨i, hi⟩ := List.mem_iff_getElem?.mp hmem
    obtain ⟨draft, hdraft, -, hrow, hcol⟩ := Node.exists_draft_of_ofDrafts h hi
    exact ⟨draft, List.mem_of_getElem? hdraft, by rw [hrow], by rw [hcol]⟩

theorem target_lt_of_ofDrafts (hd : d.drafts = .ok drafts) (hg : d.grid drafts = .ok grid)
    {nodes : List Node} (h : Node.ofDrafts drafts grid = .ok nodes) {node : Node}
    (hnode : node ∈ nodes) {link : Link} (hlink : link ∈ node.links) :
    link.target < nodes.length := by
  obtain ⟨i, hi⟩ := List.mem_iff_getElem?.mp hnode
  obtain ⟨source, hsource, -⟩ := Node.exists_draft_of_ofDrafts h hi
  obtain ⟨node', hi', -, hlinks⟩ := leadsTo_of_ofDrafts hd hg h hsource
  obtain rfl : node' = node := Option.some.inj (hi'.symm.trans hi)
  obtain ⟨k, hk, rfl⟩ := List.getElem_of_mem hlink
  have hleads := ((hlinks.get (hlinks.length_eq ▸ hk) hk).ends _).mpr rfl
  obtain ⟨target, htarget⟩ := hleads.exists_draft hsource
  obtain ⟨node, hj, -⟩ := leadsTo_of_ofDrafts hd hg h htarget
  exact (List.getElem?_eq_some_iff.mp hj).1

/-- How the drafts of a document become the nodes of its grid. -/
structure Resolution (d : Document) (drafts : List Draft) (grid : Grid Nat) : Prop where
  /-- They do so when no label is carried twice and every link finds its destination. -/
  succeeds_iff : (∃ nodes, Node.ofDrafts drafts grid = .ok nodes) ↔ (labelNames drafts).Nodup ∧
    ∀ source ∈ drafts, ∀ link ∈ source.links, link.destination.IsFound d drafts source
  /-- Each draft becomes one node. -/
  length {nodes : List Node} : Node.ofDrafts drafts grid = .ok nodes →
    nodes.length = drafts.length
  /-- Each link ends at the one draft that its destination names. -/
  links {nodes : List Node} : Node.ofDrafts drafts grid = .ok nodes →
    ∀ i source, drafts[i]? = some source → ∃ node, nodes[i]? = some node ∧
      List.Forall₂ (Link.Resolves drafts i source) source.links node.links
  /-- The first mistake is reported, and a repeated label before any link. -/
  fails {fault : Diagnostic} : Node.ofDrafts drafts grid = .error fault → d.Faults drafts fault

/-- The drafts of a document fill its grid, and their links are resolved in it. -/
theorem links_resolved (hd : d.drafts = .ok drafts) :
    ∃ grid, d.grid drafts = .ok grid ∧ d.Resolution drafts grid := by
  obtain ⟨grid, hg⟩ := exists_grid hd
  refine ⟨grid, hg, ⟨⟨?_, ?_⟩, ?_, ?_, faults_of_ofDrafts hd hg⟩⟩
  · rintro ⟨nodes, h⟩
    refine ⟨nodup_of_ofDrafts h, fun source hsource => ?_⟩
    obtain ⟨i, hi⟩ := List.mem_iff_getElem?.mp hsource
    obtain ⟨node, -, hfound, -⟩ := leadsTo_of_ofDrafts hd hg h hi
    exact hfound
  · rintro ⟨hlabels, hfound⟩
    cases h : Node.ofDrafts drafts grid with
    | ok nodes => exact ⟨nodes, rfl⟩
    | error fault =>
      rcases faults_of_ofDrafts hd hg h with ⟨rfl, repeats⟩ | ⟨_, rfl, links, _, _, missing, _⟩
      · have hindex := labelIndex_eq_ok hlabels
        rw [labelIndex_eq_error repeats] at hindex
        cases hindex
      · exact absurd (hfound _ (by simp) _ (by simp [links])) missing
  · intro nodes h
    have hmap := h
    rw [ofDrafts_eq_mapM (nodup_of_ofDrafts h), Result.mapM_eq_ok_iff] at hmap
    simpa using (congrArg List.length hmap).symm
  · intro nodes h i source hi
    obtain ⟨node, hnode, -, hlinks⟩ := leadsTo_of_ofDrafts hd hg h hi
    exact ⟨node, hnode, hlinks⟩

/-- A short row over a longer one, with a label, a look to the east and a loop. -/
def raggedLinks : Document where
  rows :=
    [[some ⟨"a", some "x", [], .start⟩],
      [none, some ⟨"b", none,
        [⟨.connect [⟨.north, .south, .label "x", [], .start⟩, ⟨.east, .west, .toward .east, [], .start⟩,
          ⟨.west, .west, .self, [], .start⟩], .start⟩], .start⟩,
        some ⟨"c", none, [], .start⟩]]
  definitions := []

/-- The links of a document whose rows differ in length. -/
theorem links_resolved_of_ragged :
    ∃ drafts, raggedLinks.drafts = .ok drafts ∧
      ∃ grid, raggedLinks.grid drafts = .ok grid ∧ raggedLinks.Resolution drafts grid :=
  ⟨_, rfl, links_resolved rfl⟩

end Document

end FlowGrid
