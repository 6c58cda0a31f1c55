import FlowGrid.Proofs.Document.Agreement
import Mathlib.Data.Bool.Basic

/-! Reading agrees with the grammar: a text is read as a document exactly when it spells that
document, and otherwise the reader reports that the text is malformed. -/

namespace FlowGrid.Document

variable {σ : Type}

/-! ### Settings -/

section Settings

variable {s : SettingForm σ} {g : SettingGrammar σ}

/-- A form reads the values that a grammar has for its settings. -/
structure SettingForm.Fits (s : SettingForm σ) (g : SettingGrammar σ) : Prop where
  text : s.ofText = g.ofText
  value {key : String} {read : Reader σ} (h : s.value? key = some read) :
    Reads read (fun ts a us => g.key a = key ∧ g.Value ts a us) AtBreak
  known (a : σ) : ∃ read, s.value? (g.key a) = some read

theorem isUnmarked_setting (g : SettingGrammar σ) (bareText : Bool) :
    IsUnmarked (g.Setting bareText) := by
  intro ts x us h
  cases h <;> exact ⟨List.cons_ne_nil _ _, fun c => by simp [first?]⟩

theorem reads_setting (h : s.Fits g) (bareText pairSeen : Bool) :
    Reads (s.setting bareText pairSeen)
      (fun ts x us => g.Setting bareText ts x us ∧ pairSeen ≤ x.2) AtBreak := by
  intro input ts hts
  unfold SettingForm.setting
  split_ifs with hstring hallowed hseen
  -- a bare text where none is allowed
  · refine .error (Tokens.isMalformed_unexpected _ _) ?_
    rintro x us ⟨hx, -⟩ -
    cases hx with
    | bare allowed => simp [allowed] at hallowed
    | pair => exact Tokens.not_startsString_of_word hts hstring
  -- a bare text after a pair
  · refine .error (.inr rfl) ?_
    rintro x us ⟨hx, hle⟩ -
    cases hx with
    | bare => exact absurd (hseen ▸ hle : true ≤ false) (by decide)
    | pair => exact Tokens.not_startsString_of_word hts hstring
  · refine .of_iff (.seq (reads_quote hts) fun text rest us hus => .pure hus) fun x us => ?_
    obtain rfl : pairSeen = false := by simpa using hseen
    obtain rfl : bareText = true := by simpa using hallowed
    constructor
    · rintro ⟨text, _, ⟨p, rfl⟩, rfl, rfl⟩
      rw [h.text, Tokens.position_eq hts]
      exact ⟨.bare rfl, le_rfl⟩
    · rintro ⟨hx, -⟩
      cases hx with
      | bare => exact ⟨_, _, ⟨_, rfl⟩, by rw [h.text, Tokens.position_eq hts], rfl⟩
      | pair => exact absurd hstring (Tokens.not_startsString_of_word hts)
  · refine .afterWord hts ?_ fun key p rest us heq hus => ?_
    · rintro x us ⟨hx, -⟩
      cases hx with
      | bare => exact absurd (Tokens.startsString_of_quote hts) hstring
      | pair => exact ⟨_, rfl⟩
    · subst heq
      rw [Tokens.position_eq hts]
      dsimp only
      cases hv : s.value? key with
      | none =>
        refine .error (Tokens.isMalformed_unexpected _ _) ?_
        rintro x vs ⟨hx, -⟩ -
        cases hx with
        | @pair _ _ a =>
          obtain ⟨read, hread⟩ := h.known a
          cases hv.symm.trans hread
      | some value =>
        refine .afterMark hus ?_ fun q colon ws heq hws => ?_
        · rintro x vs ⟨hx, -⟩ -
          cases hx
          rfl
        · subst heq
          refine .of_iff (.bind (h.value hv hws) (fun a last xs hxs => (.pure hxs : Agrees _ _
            (fun (x : Located σ × Bool) ys => x = (⟨a, p⟩, true) ∧ ys = xs) _)) ?_) fun x vs => ?_
          · rintro a ws x xs ⟨-, rfl⟩ hxs
            exact hxs
          · constructor
            · rintro ⟨a, _, ⟨rfl, ha⟩, rfl, rfl⟩
              exact ⟨.pair ha, Bool.le_true _⟩
            · rintro ⟨hx, -⟩
              cases hx with
              | pair ha => exact ⟨_, _, ⟨rfl, ha⟩, rfl, rfl⟩

theorem first?_settings {bareText : Bool} {ts us : List (Located Token)}
    {l : List (Located σ)} (h : g.Settings bareText ts l us) : first? ts = some (.mark '(') := by
  cases h <;> rfl

theorem chain_false_iff {l : List Bool} :
    (false :: l).IsChain (· ≤ ·) ↔ l.Pairwise (· ≤ ·) := by
  rw [List.isChain_iff_pairwise, List.pairwise_cons]
  exact and_iff_right fun b _ => Bool.false_le b

theorem itemAfter_setting_iff {bareText pairSeen : Bool} {ts us : List (Located Token)}
    {x : Located σ × Bool} : g.Setting bareText ts x us ∧ pairSeen ≤ x.2 ↔
      ItemAfter (g.Setting bareText) Prod.fst Prod.snd (· ≤ ·) pairSeen ts x us := by
  simp [ItemAfter]

theorem reads_settings (h : s.Fits g) (bareText : Bool) :
    Reads (s.list bareText) (g.Settings bareText) Anything := by
  intro input ts hts
  have hitem (pairSeen : Bool) : Reads (s.setting bareText pairSeen)
      (ItemAfter (g.Setting bareText) Prod.fst Prod.snd (· ≤ ·) pairSeen) AtBreak := by
    intro input ts hts
    exact .of_iff (reads_setting h bareText pairSeen hts) fun x us => itemAfter_setting_iff
  unfold SettingForm.list
  refine .afterMark hts (fun l us h _ => first?_settings h) fun p opened us heq hus => ?_
  subst heq
  cases hm : mark? ')' opened.val with
  | some closed =>
    refine .closed hm hus fun q vs heq => ?_
    subst heq
    refine ⟨.none, fun l ws h => ?_⟩
    cases h with
    | none => exact ⟨rfl, rfl⟩
    | some list =>
      exact absurd rfl ((isUnmarked_separated (isUnmarked_setting g bareText) list).2 ')')
  | none =>
    rw [mark?_eq_none_iff, hus] at hm
    refine .of_iff (.seq (agrees_items Prod.fst Prod.snd (· ≤ ·) hitem
      (isUnmarked_setting g bareText) (by simp) (by simp) (by decide) _ false hus)
      fun l last vs hvs => .pure hvs) fun l vs => ?_
    constructor
    · rintro ⟨_, _, ⟨found, hfound, hchain, rfl⟩, rfl, rfl⟩
      exact .some hfound (chain_false_iff.mp hchain)
    · intro h
      cases h with
      | none => exact absurd rfl hm
      | some hfound hordered =>
        exact ⟨_, _, ⟨_, hfound, chain_false_iff.mpr hordered, rfl⟩, rfl, rfl⟩

theorem AtBreak.ne_open {us : List (Located Token)} (h : AtBreak us) :
    first? us ≠ some (.mark '(') := by
  obtain ⟨c, hc, heq⟩ := h
  rw [heq]
  rintro ⟨⟩
  simp at hc

/-- Settings, if a parenthesis comes next. -/
theorem reads_settings? (h : s.Fits g) : Reads s.list? g.Settings? AtBreak := by
  intro input ts hts
  unfold SettingForm.list?
  split_ifs with hopen
  · refine .imp (.seq (reads_settings h true hts) fun l rest us hus => .pure hus) ?_ ?_
    · rintro l us ⟨_, _, h, rfl, rfl⟩
      exact .present h
    · intro l us h hus
      cases h with
      | absent => exact absurd (hts ▸ Tokens.startsMark_iff.mp hopen) hus.ne_open
      | present h => exact ⟨_, _, h, rfl, rfl⟩
  · refine .of_iff (.pure hts) fun l us => ?_
    constructor
    · rintro ⟨rfl, rfl⟩
      exact .absent
    · intro h
      cases h with
      | absent => exact ⟨rfl, rfl⟩
      | present h =>
        exact absurd (Tokens.startsMark_iff.mpr (hts ▸ first?_settings h)) hopen

theorem first?_settings? {ts us : List (Located Token)} {l : List (Located σ)}
    (h : g.Settings? ts l us) (hus : AtBreak us) :
    AtBreak ts ∨ first? ts = some (.mark '(') := by
  cases h with
  | absent => exact .inl hus
  | present h => exact .inr (first?_settings h)

end Settings

/-! ### Links -/

/-- No word comes next. -/
def NotWord (us : List (Located Token)) : Prop := ∀ name, first? us ≠ some (.word name)

theorem reads_destination : Reads destination Destination.Spelling NotWord := by
  intro input ts hts
  unfold destination
  cases hlabel : mark? '#' input with
  | some rest =>
    refine .of_mark hlabel hts fun p us heq hus => .of_iff (.seq (reads_word _ hus)
      fun name last vs hvs => .pure hvs) fun d vs => ?_
    subst heq
    constructor
    · rintro ⟨name, _, ⟨q, rfl⟩, rfl, rfl⟩
      exact .label
    · intro h
      cases h with
      | label => exact ⟨_, _, ⟨_, rfl⟩, rfl, rfl⟩
  | none =>
    rw [mark?_eq_none_iff, hts] at hlabel
    dsimp only
    cases hat : mark? '@' input with
    | some rest =>
      refine .of_mark hat hts fun p us heq hus => ?_
      subst heq
      change Agrees rest.val (if rest.val.startsWord then _ else _) _ _
      -- a word behind the sign is always read as a side
      split_ifs with hword
      · obtain ⟨name, hname⟩ := Tokens.startsWord_iff.mp hword
        refine .imp (.seq (reads_side hus) fun side last vs hvs => (.pure hvs : Agrees _ _
          (fun d xs => d = Destination.toward side ∧ xs = vs) _)) ?_ ?_
        · rintro d vs ⟨side, _, ⟨q, rfl⟩, rfl, rfl⟩
          exact .toward
        · intro d vs h hvs
          cases h with
          | toward => exact ⟨_, _, ⟨_, rfl⟩, rfl, rfl⟩
          | self => exact absurd (hus ▸ hname) (hvs name)
      · refine .of_iff (.pure hus) fun d vs => ?_
        constructor
        · rintro ⟨rfl, rfl⟩
          exact .self
        · intro h
          cases h with
          | toward => exact absurd (Tokens.startsWord_iff.mpr ⟨_, by rw [hus]; rfl⟩) hword
          | self => exact ⟨rfl, rfl⟩
    | none =>
      rw [mark?_eq_none_iff, hts] at hat
      refine .error (Tokens.isMalformed_unexpected _ _) fun d us h _ => ?_
      cases h with
      | label => exact hlabel rfl
      | toward => exact hat rfl
      | self => exact hat rfl

theorem reads_value {α : Type} {read : Reader α} {P : Phrase α} {F : List (Located Token) → Prop}
    (hread : Reads read P F) (hF : ∀ us, AtBreak us → F us) {f : α → σ} {g : SettingGrammar σ}
    {key : String} (h : g.HasValues key P f) :
    Reads (reading f read) (fun ts b us => g.key b = key ∧ g.Value ts b us) AtBreak :=
  fun hts => .mono (.of_iff (hread.reading f hts) fun b us => h _ b us) hF

/-- A setting of a link has a string or a word for its value. -/
theorem value?_linkSettings {key : String} {read : Reader LinkSetting}
    (h : linkSettings.value? key = some read) :
    (∃ f, LinkSetting.grammar.HasValues key Phrase.quote f ∧ read = reading f quote) ∨
      ∃ f wanted, LinkSetting.grammar.HasValues key Phrase.word f ∧
        read = reading f (word wanted) := by
  dsimp only [linkSettings] at h
  split_ifs at h with htext hclass harrowheads <;> cases h
  · refine .inl ⟨_, fun ts b us => ?_, rfl⟩
    cases b <;> simp [htext, LinkSetting.grammar, LinkSetting.key, LinkSetting.Spelling]
  · refine .inl ⟨_, fun ts b us => ?_, rfl⟩
    cases b <;> simp [hclass, LinkSetting.grammar, LinkSetting.key, LinkSetting.Spelling]
  · refine .inr ⟨_, _, fun ts b us => ?_, rfl⟩
    cases b <;> simp [harrowheads, LinkSetting.grammar, LinkSetting.key, LinkSetting.Spelling]

theorem fits_linkSettings : linkSettings.Fits LinkSetting.grammar where
  text := rfl
  value h := by
    obtain ⟨f, hf, rfl⟩ | ⟨f, wanted, hf, rfl⟩ := value?_linkSettings h
    · exact reads_value reads_quote (fun _ _ => trivial) hf
    · exact reads_value (reads_word wanted) (fun _ _ => trivial) hf
  known a := by cases a <;> exact ⟨_, rfl⟩

theorem notWord_of_settings? {g : SettingGrammar σ} {ts us : List (Located Token)}
    {l : List (Located σ)} (h : g.Settings? ts l us) (hus : AtBreak us) : NotWord ts := by
  intro name hname
  rcases first?_settings? h hus with ⟨c, -, hc⟩ | hc
  · cases hname.symm.trans hc
  · cases hname.symm.trans hc

theorem reads_linkSpec : Reads linkSpec LinkSpec.Spelling AtBreak := by
  intro input ts hts
  refine .of_iff (.seq (reads_side hts) fun source rest us hus => .mark hus fun colon vs hvs =>
    .seq (reads_side hvs) fun target afterSide ws hws => .bind (reads_destination hws)
      (fun leads afterLeads xs hxs => .bind (reads_settings? fits_linkSettings hxs)
        (fun settings last ys hys => .pure hys) ?_) ?_) fun spec us => ?_
  · rintro settings ys spec zs ⟨-, rfl⟩ hzs
    exact hzs
  · rintro leads xs spec zs ⟨settings, ys, hset, -, rfl⟩ hzs
    exact notWord_of_settings? hset hzs
  · constructor
    · rintro ⟨source, _, ⟨p, rfl⟩, q, _, rfl, target, _, ⟨r, rfl⟩, leads, _, hleads, settings, _,
        hset, rfl, rfl⟩
      rw [Tokens.position_eq hts]
      exact .intro hleads hset
    · intro h
      cases h with
      | intro hleads hset =>
        exact ⟨_, _, ⟨_, rfl⟩, _, _, rfl, _, _, ⟨_, rfl⟩, _, _, hleads, _, _, hset,
          by rw [Tokens.position_eq hts], rfl⟩

theorem isUnmarked_linkSpec : IsUnmarked LinkSpec.Spelling := by
  intro ts spec us h
  cases h
  exact ⟨List.cons_ne_nil _ _, fun c => by simp [first?]⟩

theorem reads_linkSpecs : Reads linkSpecs LinkSpec.ListSpelling AtBreak := by
  intro input ts hts
  unfold linkSpecs
  cases hm : mark? '{' input with
  | none =>
    rw [mark?_eq_none_iff, hts] at hm
    refine .of_iff (reads_linkSpec.reading _ hts) fun specs us => ?_
    constructor
    · rintro ⟨spec, h, rfl⟩
      exact .one h
    · intro h
      cases h with
      | one h => exact ⟨_, h, rfl⟩
      | none => exact absurd rfl hm
      | some => exact absurd rfl hm
  | some opened =>
    refine .of_mark hm hts fun p us heq hus => ?_
    subst heq
    dsimp only
    cases hm' : mark? '}' opened.val with
    | some closed =>
      refine .closed hm' hus fun q vs heq => ?_
      subst heq
      refine ⟨.none, fun specs ws h => ?_⟩
      cases h with
      | one h => cases h
      | none => exact ⟨rfl, rfl⟩
      | some h => exact absurd rfl ((isUnmarked_separated isUnmarked_linkSpec h).2 '}')
    | none =>
      rw [mark?_eq_none_iff, hus] at hm'
      refine .mono (.of_iff (.seq (reads_separated reads_linkSpec isUnmarked_linkSpec (by simp)
        (by simp) (by decide) _ hus) fun specs last vs hvs => (.pure hvs : Agrees _ _
          (fun l xs => l = specs ∧ xs = vs) Anything)) fun specs vs => ?_) fun _ _ => trivial
      constructor
      · rintro ⟨_, _, h, rfl, rfl⟩
        exact .some h
      · intro h
        cases h with
        | one h => cases h
        | none => exact absurd rfl hm'
        | some h => exact ⟨_, _, h, rfl, rfl⟩

/-! ### Cells and definitions -/

/-- A setting of a node has a string, a word or links for its value. -/
theorem value?_nodeSettings {key : String} {read : Reader NodeSetting}
    (h : nodeSettings.value? key = some read) :
    (∃ f, NodeSetting.grammar.HasValues key Phrase.quote f ∧ read = reading f quote) ∨
      (∃ f wanted, NodeSetting.grammar.HasValues key Phrase.word f ∧
        read = reading f (word wanted)) ∨
      ∃ f, NodeSetting.grammar.HasValues key LinkSpec.ListSpelling f ∧
        read = reading f linkSpecs := by
  dsimp only [nodeSettings] at h
  split_ifs at h with htext hclass hshape hconnect <;> cases h
  · refine .inl ⟨_, fun ts b us => ?_, rfl⟩
    cases b <;> simp [htext, NodeSetting.grammar, NodeSetting.key, NodeSetting.Spelling]
  · refine .inl ⟨_, fun ts b us => ?_, rfl⟩
    cases b <;> simp [hclass, NodeSetting.grammar, NodeSetting.key, NodeSetting.Spelling]
  · refine .inr (.inl ⟨_, _, fun ts b us => ?_, rfl⟩)
    cases b <;> simp [hshape, NodeSetting.grammar, NodeSetting.key, NodeSetting.Spelling]
  · refine .inr (.inr ⟨_, fun ts b us => ?_, rfl⟩)
    cases b <;> simp [hconnect, NodeSetting.grammar, NodeSetting.key, NodeSetting.Spelling]

theorem fits_nodeSettings : nodeSettings.Fits NodeSetting.grammar where
  text := rfl
  value h := by
    obtain ⟨f, hf, rfl⟩ | ⟨f, wanted, hf, rfl⟩ | ⟨f, hf, rfl⟩ := value?_nodeSettings h
    · exact reads_value reads_quote (fun _ _ => trivial) hf
    · exact reads_value (reads_word wanted) (fun _ _ => trivial) hf
    · exact reads_value reads_linkSpecs (fun _ => id) hf
  known a := by cases a <;> exact ⟨_, rfl⟩

theorem reads_label? : Reads label? Occurrence.LabelSpelling
    (fun us => first? us ≠ some (.mark '#')) := by
  intro input ts hts
  unfold label?
  cases hm : mark? '#' input with
  | none =>
    rw [mark?_eq_none_iff, hts] at hm
    refine .of_iff (.pure hts) fun label us => ?_
    constructor
    · rintro ⟨rfl, rfl⟩
      exact .absent
    · intro h
      cases h with
      | absent => exact ⟨rfl, rfl⟩
      | present => exact absurd rfl hm
  | some rest =>
    refine .of_mark hm hts fun p us heq hus => .imp (.mono (.seq (reads_word _ hus)
      fun name last vs hvs => .pure hvs) fun _ _ => trivial) ?_ ?_
    · subst heq
      rintro label vs ⟨name, _, ⟨q, rfl⟩, rfl, rfl⟩
      exact .present
    · subst heq
      intro label vs h hvs
      cases h with
      | absent => exact absurd rfl hvs
      | present => exact ⟨_, _, ⟨_, rfl⟩, rfl, rfl⟩

theorem AtBreak.ne_number {us : List (Located Token)} (h : AtBreak us) :
    first? us ≠ some (.mark '#') := by
  obtain ⟨c, hc, heq⟩ := h
  rw [heq]
  rintro ⟨⟩
  simp at hc

theorem reads_cell : Reads cell Cell.Spelling AtBreak := by
  intro input ts hts
  unfold cell
  refine .afterWord hts ?_ fun identifier p rest us heq hus => ?_
  · intro c us h
    cases h <;> exact ⟨_, rfl⟩
  · subst heq
    rw [Tokens.position_eq hts]
    change Agrees rest.val (if identifier = emptyCell then _ else _) _ _
    split_ifs with hempty hnext
    -- an empty cell has neither a label nor settings
    · refine .error (Tokens.isMalformed_unexpected _ _) ?_
      intro c vs h hvs
      cases h with
      | empty =>
        rw [Bool.or_eq_true, Tokens.startsMark_iff, Tokens.startsMark_iff, hus] at hnext
        exact hnext.elim hvs.ne_number hvs.ne_open
      | node hne => exact hne hempty
    · refine .of_iff (.pure hus) fun c vs => ?_
      constructor
      · rintro ⟨rfl, rfl⟩
        obtain rfl : identifier = "_" := hempty
        exact .empty
      · intro h
        cases h with
        | empty => exact ⟨rfl, rfl⟩
        | node hne => exact absurd hempty hne
    · refine .of_iff (.bind (reads_label? hus) (fun label afterLabel vs hvs =>
        .bind (reads_settings? fits_nodeSettings hvs)
          (fun settings last ws hws => .pure hws) ?_) ?_) fun c ws => ?_
      · rintro settings ws c xs ⟨-, rfl⟩ hxs
        exact hxs
      -- what comes after the identifier of a cell without a label is no number sign
      · rintro label vs c xs ⟨settings, ws, hset, -, rfl⟩ hxs
        rcases first?_settings? hset hxs with h | h
        · exact h.ne_number
        · rw [h]
          simp
      · constructor
        · rintro ⟨label, vs, hlabel, settings, _, hset, rfl, rfl⟩
          exact .node hempty hlabel hset
        · intro h
          cases h with
          | empty => exact absurd rfl hempty
          | node _ hlabel hset => exact ⟨_, _, hlabel, _, _, hset, rfl, rfl⟩

theorem isUnmarked_cell : IsUnmarked Cell.Spelling := by
  intro ts c us h
  cases h <;> exact ⟨List.cons_ne_nil _ _, fun c => by simp [first?]⟩

theorem reads_row : Reads row (Phrase.Separated ',' ';' Cell.Spelling) Anything :=
  reads_separated reads_cell isUnmarked_cell (by simp) (by simp) (by decide) _

theorem isUnmarked_definition : IsUnmarked Definition.Spelling := by
  intro ts d us h
  cases h
  exact ⟨List.cons_ne_nil _ _, fun c => by simp [first?]⟩

theorem reads_definition : Reads definition Definition.Spelling Anything := by
  intro input ts hts
  unfold definition
  refine .afterWord hts ?_ fun identifier p rest us heq hus => ?_
  · intro d us h
    cases h
    exact ⟨_, rfl⟩
  · subst heq
    rw [Tokens.position_eq hts]
    change Agrees rest.val (if identifier = emptyCell then _ else _) _ _
    split_ifs with hempty
    · refine .error (Tokens.isMalformed_unexpected _ _) ?_
      intro d vs h _
      cases h with
      | intro hne => exact hne hempty
    · refine .of_iff (.seq (reads_settings fits_nodeSettings false hus)
        fun settings afterSettings vs hvs => .mark hvs fun last ws hws => .pure hws) fun d ws => ?_
      constructor
      · rintro ⟨settings, _, hset, q, _, rfl, rfl, rfl⟩
        exact .intro hempty hset
      · intro h
        cases h with
        | intro _ hset => exact ⟨_, _, hset, _, _, rfl, rfl, rfl⟩

/-! ### Documents -/

theorem reads_braced {α : Type} {item : Reader α} {P : Phrase α} (hitem : Reads item P Anything)
    (hP : IsUnmarked P) : Reads (braced item) (Phrase.Braced P) Anything := by
  intro input ts hts
  unfold braced
  refine .of_iff (.mark hts fun opened us hus => .seq (reads_block hitem hP hus)
    fun found last vs hvs => .pure hvs) fun items us => ?_
  constructor
  · rintro ⟨q, vs, rfl, _, _, h, rfl, rfl⟩
    exact .intro h
  · intro h
    cases h with
    | intro h => exact ⟨_, _, rfl, _, _, h, rfl, rfl⟩

theorem section_iff {α : Type} {keyword name : String} {P : Phrase α} {p : Position}
    {ts us : List (Located Token)} {items : List α} :
    Phrase.Section keyword P (⟨.word name, p⟩ :: ts) items us ↔
      name = keyword ∧ Phrase.Braced P ts items us := by
  constructor
  · rintro ⟨h⟩
    exact ⟨rfl, h⟩
  · rintro ⟨rfl, h⟩
    exact .intro h

/-- One more section is read after those in `found`. -/
inductive Blocks.Extends (found : Blocks) (ts us : List (Located Token)) : Blocks → Prop
  | grid {rows : List (List Cell)} (free : found.rows = none) (h : gridSpelling ts rows us) :
    Extends found ts us { found with rows := some rows }
  | define {definitions : List Definition} (free : found.definitions = none)
    (h : defineSpelling ts definitions us) :
    Extends found ts us { found with definitions := some definitions }

theorem extends_cons_iff {found found' : Blocks} {keyword : String} {p : Position}
    {ts us : List (Located Token)} : found.Extends (⟨.word keyword, p⟩ :: ts) us found' ↔
      (keyword = "grid" ∧ found.rows = none ∧ ∃ rows, Phrase.Braced
        (Phrase.Separated ',' ';' Cell.Spelling) ts rows us ∧
          found' = { found with rows := some rows }) ∨
      keyword = "define" ∧ found.definitions = none ∧ ∃ definitions,
        Phrase.Braced Definition.Spelling ts definitions us ∧
          found' = { found with definitions := some definitions } := by
  constructor
  · rintro (⟨free, h⟩ | ⟨free, h⟩)
    · obtain ⟨hkeyword, h⟩ := section_iff.mp h
      exact .inl ⟨hkeyword, free, _, h, rfl⟩
    · obtain ⟨hkeyword, h⟩ := section_iff.mp h
      exact .inr ⟨hkeyword, free, _, h, rfl⟩
  · rintro (⟨hkeyword, free, rows, h, rfl⟩ | ⟨hkeyword, free, definitions, h, rfl⟩)
    · exact .grid free (section_iff.mpr ⟨hkeyword, h⟩)
    · exact .define free (section_iff.mpr ⟨hkeyword, h⟩)

theorem reads_anyBlock (found : Blocks) :
    Reads (anyBlock found) (fun ts found' us => found.Extends ts us found') Anything := by
  intro input ts hts
  have hne : ("grid" : String) ≠ "define" := by decide
  unfold anyBlock
  refine .afterWord hts ?_ fun keyword p rest us heq hus => ?_
  · rintro found' us (⟨-, ⟨-⟩⟩ | ⟨-, ⟨-⟩⟩) <;> exact ⟨_, rfl⟩
  · subst heq
    refine .of_iff ?_ fun found' vs => extends_cons_iff.symm
    change Agrees rest.val (if keyword = "grid" then _ else _) _ _
    split_ifs with hgrid hrows hdefine hdefinitions
    -- a second grid
    · refine .error (Tokens.isMalformed_unexpected _ _) ?_
      rintro found' vs (⟨-, free, -⟩ | ⟨hdefine, -⟩) -
      · simp [free] at hrows
      · exact hne (hgrid.symm.trans hdefine)
    · refine .of_iff (.seq (reads_braced reads_row (isUnmarked_separated isUnmarked_cell) hus)
        fun rows last vs hvs => .pure hvs) fun found' vs => ?_
      constructor
      · rintro ⟨rows, _, h, rfl, rfl⟩
        exact .inl ⟨hgrid, by simpa using hrows, rows, h, rfl⟩
      · rintro (⟨-, -, rows, h, rfl⟩ | ⟨hdefine, -⟩)
        · exact ⟨rows, vs, h, rfl, rfl⟩
        · exact absurd (hgrid.symm.trans hdefine) hne
    -- a second section of definitions
    · refine .error (Tokens.isMalformed_unexpected _ _) ?_
      rintro found' vs (⟨h, -⟩ | ⟨-, free, -⟩) -
      · exact hgrid h
      · simp [free] at hdefinitions
    · refine .of_iff (.seq (reads_braced reads_definition isUnmarked_definition hus)
        fun definitions last vs hvs => .pure hvs) fun found' vs => ?_
      constructor
      · rintro ⟨definitions, _, h, rfl, rfl⟩
        exact .inr ⟨hdefine, by simpa using hdefinitions, definitions, h, rfl⟩
      · rintro (⟨h, -⟩ | ⟨-, -, definitions, h, rfl⟩)
        · exact absurd h hgrid
        · exact ⟨definitions, vs, h, rfl, rfl⟩
    · refine .error (Tokens.isMalformed_unexpected _ _) ?_
      rintro found' vs (⟨h, -⟩ | ⟨h, -⟩) -
      · exact hgrid h
      · exact hdefine h

/-- The sections that complete those in `found` to a document. -/
inductive Blocks.Completes : Blocks → List (Located Token) → Document → Prop
  | finish {rows : List (List Cell)} {definitions : Option (List Definition)} :
    Completes ⟨some rows, definitions⟩ [] ⟨rows, definitions.getD []⟩
  | more {found found' : Blocks} {ts us : List (Located Token)} {d : Document}
    (first : found.Extends ts us found') (rest : Completes found' us d) : Completes found ts d

theorem completes_nil_iff {found : Blocks} {d : Document} :
    found.Completes [] d ↔
      ∃ rows, found.rows = some rows ∧ d = ⟨rows, found.definitions.getD []⟩ := by
  constructor
  · intro h
    cases h with
    | finish => exact ⟨_, rfl, rfl⟩
    | more first =>
      rcases first with ⟨-, ⟨-⟩⟩ | ⟨-, ⟨-⟩⟩
  · rintro ⟨rows, hrows, rfl⟩
    obtain ⟨_, definitions⟩ := found
    cases hrows
    exact .finish

theorem completes_full {rows : List (List Cell)} {definitions : List Definition}
    {ts : List (Located Token)} {d : Document}
    (h : Blocks.Completes ⟨some rows, some definitions⟩ ts d) :
    ts = [] ∧ d = ⟨rows, definitions⟩ := by
  cases h with
  | finish => exact ⟨rfl, rfl⟩
  | more first =>
    rcases first with ⟨⟨⟩, -⟩ | ⟨⟨⟩, -⟩

theorem completes_iff_spelling {ts : List (Located Token)} {d : Document} :
    Blocks.Completes ⟨none, none⟩ ts d ↔ Spelling ts d := by
  constructor
  · intro h
    cases h with
    | more first rest =>
      cases first with
      | grid _ first =>
        cases rest with
        | finish => exact .grid first
        | more second rest =>
          cases second with
          | grid free => cases free
          | define _ second =>
            obtain ⟨rfl, rfl⟩ := completes_full rest
            exact .gridFirst first second
      | define _ first =>
        cases rest with
        | more second rest =>
          cases second with
          | grid _ second =>
            obtain ⟨rfl, rfl⟩ := completes_full rest
            exact .gridSecond first second
          | define free => cases free
  · intro h
    cases h with
    | grid first => exact .more (.grid rfl first) .finish
    | gridFirst first second => exact .more (.grid rfl first) (.more (.define rfl second) .finish)
    | gridSecond first second => exact .more (.define rfl first) (.more (.grid rfl second) .finish)

theorem atEnd_iff {input : Tokens} : input.atEnd ↔ input.toList = [] ∧ input.fault? = none := by
  cases input <;> simp [Tokens.atEnd, Tokens.toList, Tokens.fault?]

/-- The rest of the sections is read when it completes those read so far. -/
theorem ofTokens_spec (found : Blocks) (input : Tokens) :
    (∀ d, ofTokens found input = .ok d ↔ found.Completes input.toList d ∧ input.fault? = none) ∧
      ∀ fault, ofTokens found input = .error fault →
        fault.IsMalformed ∨ input.fault? = some fault := by
  induction hsize : input.size using Nat.strong_induction_on generalizing input found with
  | _ n ih =>
    subst hsize
    rw [ofTokens]
    split_ifs with hend
    · obtain ⟨hts, hfault⟩ := atEnd_iff.mp hend
      simp only [hts, hfault, completes_nil_iff, and_true]
      cases hrows : found.rows with
      | some rows => simp [eq_comm]
      | none =>
        refine ⟨fun d => by simp, fun fault h => ?_⟩
        cases h
        exact .inl (Tokens.isMalformed_unexpected _ _)
    · have hblock := reads_anyBlock found (rfl : input.toList = _)
      refine ⟨fun d => ⟨fun h => ?_, ?_⟩, fun fault h => ?_⟩
      · obtain ⟨⟨found', rest⟩, h₁, h⟩ := Result.bind_eq_ok_iff.mp h
        obtain ⟨hfirst, hending⟩ := hblock.sound h₁
        obtain ⟨hrest, hnone⟩ := ((ih _ rest.property found' rest.val rfl).1 d).mp h
        exact ⟨.more hfirst hrest, (Tokens.fault?_of_ending hending).symm.trans hnone⟩
      · rintro ⟨h, hnone⟩
        generalize hts : input.toList = ts at h hblock
        cases h with
        | finish => exact absurd (atEnd_iff.mpr ⟨hts, hnone⟩) hend
        | more hfirst hrest =>
          obtain ⟨rest, h₁, rfl⟩ := hblock.complete hfirst trivial
          refine Result.bind_eq_ok_iff.mpr ⟨_, h₁, ?_⟩
          exact ((ih _ rest.property _ rest.val rfl).1 d).mpr
            ⟨hrest, (Tokens.fault?_of_ending (hblock.sound h₁).2).trans hnone⟩
      · rcases Result.bind_eq_error_iff.mp h with h | ⟨⟨found', rest⟩, h₁, h⟩
        · exact hblock.refuses h
        · rw [← Tokens.fault?_of_ending (hblock.sound h₁).2]
          exact (ih _ rest.property found' rest.val rfl).2 fault h

/-- A text is read as the document that it spells. -/
theorem read_eq_ok_iff {text : String} {d : Document} : read text = .ok d ↔ d.IsSpelledBy text := by
  rw [read, Tokens.ofText, (ofTokens_spec _ _).1 d, completes_iff_spelling]
  constructor
  · rintro ⟨h, hfault⟩
    exact ⟨_, Tokens.scans_ofChars hfault, h⟩
  · rintro ⟨ts, hscans, h⟩
    obtain ⟨rfl, hfault⟩ := Tokens.scans_iff.mp hscans
    exact ⟨h, hfault⟩

theorem isMalformed_of_read {text : String} {fault : Diagnostic} (h : read text = .error fault) :
    fault.IsMalformed := by
  rcases (ofTokens_spec _ _).2 fault h with h | h
  · exact h
  · exact Tokens.isMalformed_of_fault? h

/-- A text is read as the document that it spells, and one that spells none is reported as
malformed. -/
theorem read_iff_spelled (text : String) :
    (∀ d : Document, read text = .ok d ↔ d.IsSpelledBy text) ∧
    (∀ d : Document, (∃ e, read text = .ok e ∧ e.SameTree d) ↔ d.IsTreeOf text) ∧
    ((∃ d : Document, d.IsTreeOf text) ∨ ∃ fault, read text = .error fault ∧ fault.IsMalformed) := by
  refine ⟨fun d => read_eq_ok_iff, fun d => ?_, ?_⟩
  · simp only [IsTreeOf, read_eq_ok_iff]
  · cases h : read text with
    | ok d => exact .inl ⟨d, d, read_eq_ok_iff.mp h, rfl⟩
    | error fault => exact .inr ⟨fault, rfl, isMalformed_of_read h⟩

end FlowGrid.Document
