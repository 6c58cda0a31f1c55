import FlowGrid.Proofs.Document.Reading
import FlowGrid.Proofs.Document.Viability

/-! The readers of a document stop where they should: behind tokens that go on to a document.
Every production of the grammar stands on its own tokens, and the reader of each of its parts
stops where the tokens go on to that part, hence to the production. -/

namespace FlowGrid.Document

variable {α σ : Type}

/-! ### Settings -/

section Settings

variable {s : SettingForm σ} {g : SettingGrammar σ}

/-- A form locates the values that a grammar has for its settings, and some key can be written. -/
structure SettingForm.Locates (s : SettingForm σ) (g : SettingGrammar σ) : Prop
    extends s.Fits g where
  locates {key : String} {read : Reader σ} (h : s.value? key = some read) :
    FlowGrid.Locates read (fun ts a us => g.key a = key ∧ g.Value ts a us) AtBreak
  spelled : ∃ a, (Token.word (g.key a)).IsSpelled

theorem isLocal_setting (h : s.Locates g) (bareText : Bool) : (g.Setting bareText).IsLocal := by
  intro ts x us hx
  cases hx with
  | bare allowed => exact ⟨[_], rfl, fun _ => .bare allowed⟩
  | @pair ts _ a p q value =>
    obtain ⟨read, hread⟩ := h.known a
    obtain ⟨before, rfl, hspans⟩ := (h.locates hread).isLocal ⟨rfl, value⟩
    exact ⟨⟨.word (g.key a), p⟩ :: ⟨.mark ':', q⟩ :: before, rfl, fun us => .pair (hspans us).2⟩

theorem locates_setting (h : s.Locates g) (bareText pairSeen : Bool) :
    Locates (s.setting bareText pairSeen)
      (fun ts x us => g.Setting bareText ts x us ∧ pairSeen ≤ x.2) AtBreak where
  reads := reads_setting h.toFits bareText pairSeen
  isLocal := by
    rintro ts x us ⟨hx, hle⟩
    obtain ⟨before, rfl, hspans⟩ := isLocal_setting h bareText hx
    exact ⟨before, rfl, fun us => ⟨hspans us, hle⟩⟩
  stops {V} hV input := by
    have hvalue (key : String) (p q : Position) :
        (V.after [⟨.word key, p⟩, ⟨.mark ':', q⟩]).Admits
          fun ts a us => g.key a = key ∧ g.Value ts a us := by
      refine fun ts a ha => hV (a := (⟨a, p⟩, true)) fun us => ⟨?_, Bool.le_true _⟩
      obtain ⟨rfl, -⟩ := ha []
      exact .pair (ha us).2
    have hcolon {key : String} {read : Reader σ} (hread : s.value? key = some read)
        (p : Position) : V.Holds [⟨.word key, p⟩] :=
      V.extend (Token.isSpelled_mark _ rfl) fun q => (h.locates hread).holds (hvalue key p q)
    have hnil : V.Holds [] := by
      obtain ⟨a, hspelled⟩ := h.spelled
      obtain ⟨read, hread⟩ := h.known a
      exact V.extend hspelled (hcolon hread)
    unfold SettingForm.setting
    split_ifs with hstring hallowed hseen
    · exact .unexpected hnil
    · exact .here rfl hnil
    · obtain rfl : pairSeen = false := by simpa using hseen
      refine locates_quote.seq (fun ts text htext => ?_) fun _ _ => .ok
      obtain ⟨p, rfl⟩ := Phrase.spans_quote_iff.mp htext
      exact hV (a := (⟨g.ofText text, p⟩, false)) fun _ => ⟨.bare (by simpa using hallowed), le_rfl⟩
    · refine .word hnil fun key p rest heq => ?_
      dsimp only
      cases hread : s.value? key with
      | none => exact .unexpected hnil
      | some value =>
        exact .behind heq (.mark (hcolon hread p) fun q colon =>
          (h.locates hread).seq (hvalue key p q) fun _ _ => .ok)

theorem locates_settings (h : s.Locates g) (bareText : Bool) :
    Locates (s.list bareText) (g.Settings bareText) Anything where
  reads := reads_settings h.toFits bareText
  isLocal := by
    intro ts l us hl
    cases hl with
    | none => exact ⟨[_, _], rfl, fun _ => .none⟩
    | some list ordered =>
      obtain ⟨before, rfl, hspans⟩ := isLocal_separated (isLocal_setting h bareText) list
      exact ⟨_ :: before, rfl, fun us => .some (hspans us) ordered⟩
  stops {V} hV input := by
    have hitem (pairSeen : Bool) : Locates (s.setting bareText pairSeen)
        (ItemAfter (g.Setting bareText) Prod.fst Prod.snd (· ≤ ·) pairSeen) AtBreak :=
      (locates_setting h bareText pairSeen).of_iff (fun _ _ _ => itemAfter_setting_iff) fun _ => id
    have hclose (p : Position) : V.Holds [⟨.mark '(', p⟩] :=
      V.extend (Token.isSpelled_mark _ rfl) fun q => hV (a := []) fun _ => .none
    unfold SettingForm.list
    refine .mark (V.extend (Token.isSpelled_mark _ rfl) hclose) fun p opened => ?_
    cases mark? ')' opened.val with
    | some closed => exact .ok
    | none =>
      have hlist : (V.after [⟨.mark '(', p⟩]).Admits
          (ItemsAfter ',' ')' (g.Setting bareText) Prod.fst Prod.snd (· ≤ ·) false) := by
        refine fun ts l hl => hV (a := l) fun us => ?_
        obtain ⟨found, hfound, hchain, rfl⟩ := hl us
        exact .some hfound (chain_false_iff.mp hchain)
      exact .bind (stops_items Prod.fst Prod.snd (· ≤ ·) hitem (Token.isSpelled_mark _ rfl) _ false
        hlist _) fun _ _ => .ok

theorem spans_absent : g.Settings?.Spans [] [] := fun _ => .absent

theorem locates_settings? (h : s.Locates g) : Locates s.list? g.Settings? AtBreak where
  reads := reads_settings? h.toFits
  isLocal := by
    intro ts l us hl
    cases hl with
    | absent => exact ⟨[], rfl, fun _ => .absent⟩
    | present hl =>
      obtain ⟨before, rfl, hspans⟩ := (locates_settings h true).isLocal hl
      exact ⟨before, rfl, fun us => .present (hspans us)⟩
  stops hV input := by
    unfold SettingForm.list?
    split_ifs
    · exact (locates_settings h true).seq (fun ts l hl => hV fun us => .present (hl us))
        fun _ _ => .ok
    · exact .ok

end Settings

/-! ### Links -/

theorem locates_destination : Locates destination Destination.Spelling NotWord where
  reads := reads_destination
  isLocal := by
    intro ts d us h
    cases h with
    | label => exact ⟨[_, _], rfl, fun _ => .label⟩
    | toward => exact ⟨[_, _], rfl, fun _ => .toward⟩
    | self => exact ⟨[_], rfl, fun _ => .self⟩
  stops {V} hV input := by
    have hnil : V.Holds [] :=
      V.extend (Token.isSpelled_mark _ rfl) fun p => hV (a := .self) fun _ => .self
    unfold destination
    cases hlabel : mark? '#' input with
    | some rest =>
      refine .of_mark hlabel fun p => (locates_word _).seq (fun ts name h => ?_) fun _ _ => .ok
      obtain ⟨q, rfl⟩ := Phrase.spans_word_iff.mp h
      exact hV (a := .label name) fun _ => .label
    | none =>
      dsimp only
      cases hat : mark? '@' input with
      | none => exact .unexpected hnil
      | some rest =>
        refine .of_mark hat fun p => ?_
        change (V.after _).Stops rest.val (if rest.val.startsWord then _ else _)
        split_ifs
        · refine locates_side.seq (fun ts side h => ?_) fun _ _ => .ok
          obtain ⟨q, rfl⟩ := Phrase.spans_word_iff.mp h
          exact hV (a := .toward side) fun _ => .toward
        · exact .ok

theorem locates_value {read : Reader α} {P : Phrase α} {F : List (Located Token) → Prop}
    (hread : Locates read P F) (hF : ∀ us, AtBreak us → F us) {f : α → σ} {g : SettingGrammar σ}
    {key : String} (h : g.HasValues key P f) :
    Locates (reading f read) (fun ts b us => g.key b = key ∧ g.Value ts b us) AtBreak :=
  (hread.reading f).of_iff h hF

theorem locates_linkSettings : linkSettings.Locates LinkSetting.grammar where
  toFits := fits_linkSettings
  locates h := by
    obtain ⟨f, hf, rfl⟩ | ⟨f, wanted, hf, rfl⟩ := value?_linkSettings h
    · exact locates_value locates_quote (fun _ _ => trivial) hf
    · exact locates_value (locates_word wanted) (fun _ _ => trivial) hf
  spelled := ⟨.text "", Token.isSpelled_word 't' ['e', 'x', 't'] rfl rfl⟩

theorem spans_linkSpec (source target : Side) (p q r : Position) {destination : Destination}
    {settings : List (Located LinkSetting)} {before more : List (Located Token)}
    (leads : Destination.Spelling.Spans before destination)
    (set : LinkSetting.grammar.Settings?.Spans more settings) :
    LinkSpec.Spelling.Spans
      ([⟨.word source.name, p⟩, ⟨.mark ':', q⟩, ⟨.word target.name, r⟩] ++ (before ++ more))
      ⟨source, target, destination, settings, p⟩ := by
  intro us
  rw [List.append_assoc, List.append_assoc]
  exact .intro (leads _) (set us)

theorem locates_linkSpec : Locates linkSpec LinkSpec.Spelling AtBreak where
  reads := reads_linkSpec
  isLocal := by
    intro ts spec us h
    cases h with
    | intro leads set =>
      obtain ⟨before, rfl, hleads⟩ := locates_destination.isLocal leads
      obtain ⟨more, rfl, hset⟩ := (locates_settings? locates_linkSettings).isLocal set
      exact ⟨[_, _, _] ++ (before ++ more), by rw [List.append_assoc, List.append_assoc]; rfl,
        spans_linkSpec _ _ _ _ _ hleads hset⟩
  stops {V} hV input := by
    -- from the last part to the first: what goes on to a part goes on to the link
    have hsettings (source target : Side) (p q r : Position) {destination : Destination}
        {before : List (Located Token)} (h : Destination.Spelling.Spans before destination) :
        ((V.after [⟨.word source.name, p⟩, ⟨.mark ':', q⟩, ⟨.word target.name, r⟩]).after
          before).Admits LinkSetting.grammar.Settings? :=
      fun _ _ hset => hV (spans_linkSpec source target p q r h hset)
    have hdestination (source target : Side) (p q r : Position) :
        (V.after [⟨.word source.name, p⟩, ⟨.mark ':', q⟩, ⟨.word target.name, r⟩]).Admits
          Destination.Spelling :=
      fun before destination h => by
        simpa [Viability.after_holds] using hsettings source target p q r h spans_absent
    have htarget (source : Side) (p q : Position) :
        (V.after [⟨.word source.name, p⟩, ⟨.mark ':', q⟩]).Admits
          fun ts (side : Side) us => Phrase.word ts side.name us := by
      intro ts target h
      obtain ⟨r, rfl⟩ := Phrase.spans_word_iff.mp h
      exact locates_destination.holds (hdestination source target p q r)
    have hsource : V.Admits fun ts (side : Side) us => Phrase.word ts side.name us := by
      intro ts source h
      obtain ⟨p, rfl⟩ := Phrase.spans_word_iff.mp h
      exact V.extend (Token.isSpelled_mark ':' rfl) fun q =>
        locates_side.holds (htarget source p q)
    unfold linkSpec
    refine locates_side.seq hsource fun {_ source} h rest => ?_
    have hcolon := Viability.after_nil (hsource h)
    obtain ⟨p, rfl⟩ := Phrase.spans_word_iff.mp h
    refine .mark hcolon fun q colon =>
      locates_side.seq (htarget source p q) fun {_ target} h _ => ?_
    obtain ⟨r, rfl⟩ := Phrase.spans_word_iff.mp h
    exact locates_destination.seq (hdestination source target p q r) fun h _ =>
      (locates_settings? locates_linkSettings).seq (hsettings source target p q r h) fun _ _ => .ok

theorem locates_linkSpecs : Locates linkSpecs LinkSpec.ListSpelling AtBreak where
  reads := reads_linkSpecs
  isLocal := by
    intro ts specs us h
    cases h with
    | one h =>
      obtain ⟨before, rfl, hspans⟩ := locates_linkSpec.isLocal h
      exact ⟨before, rfl, fun us => .one (hspans us)⟩
    | none => exact ⟨[_, _], rfl, fun _ => .none⟩
    | some list =>
      obtain ⟨before, rfl, hspans⟩ := isLocal_separated locates_linkSpec.isLocal list
      exact ⟨_ :: before, rfl, fun us => .some (hspans us)⟩
  stops {V} hV input := by
    unfold linkSpecs
    cases hopen : mark? '{' input with
    | none =>
      refine (locates_linkSpec.reading _).stops (fun ts specs h => ?_) input
      refine hV (a := specs) fun us => ?_
      obtain ⟨spec, hspec, rfl⟩ := h us
      exact .one hspec
    | some opened =>
      refine .of_mark hopen fun p => ?_
      dsimp only
      cases mark? '}' opened.val with
      | some closed => exact .ok
      | none =>
        have hlist : (V.after [⟨.mark '{', p⟩]).Admits
            (Phrase.Separated ';' '}' LinkSpec.Spelling) :=
          fun ts specs h => hV (a := specs) fun us => .some (h us)
        exact .bind ((locates_separated locates_linkSpec isUnmarked_linkSpec (by simp) (by simp)
          (by decide) _).stops hlist _) fun _ _ => .ok

/-! ### Cells and definitions -/

theorem locates_nodeSettings : nodeSettings.Locates NodeSetting.grammar where
  toFits := fits_nodeSettings
  locates h := by
    obtain ⟨f, hf, rfl⟩ | ⟨f, wanted, hf, rfl⟩ | ⟨f, hf, rfl⟩ := value?_nodeSettings h
    · exact locates_value locates_quote (fun _ _ => trivial) hf
    · exact locates_value (locates_word wanted) (fun _ _ => trivial) hf
    · exact locates_value locates_linkSpecs (fun _ => id) hf
  spelled := ⟨.text "", Token.isSpelled_word 't' ['e', 'x', 't'] rfl rfl⟩

theorem locates_label? : Locates label? Occurrence.LabelSpelling
    (fun us => first? us ≠ some (.mark '#')) where
  reads := reads_label?
  isLocal := by
    intro ts label us h
    cases h with
    | absent => exact ⟨[], rfl, fun _ => .absent⟩
    | present => exact ⟨[_, _], rfl, fun _ => .present⟩
  stops {V} hV input := by
    unfold label?
    cases hm : mark? '#' input with
    | none => exact .ok
    | some rest =>
      refine .of_mark hm fun p => (locates_word _).seq (fun ts name h => ?_) fun _ _ => .ok
      obtain ⟨q, rfl⟩ := Phrase.spans_word_iff.mp h
      exact hV (a := some name) fun _ => .present

theorem spans_cell {identifier : String} (p : Position) {label : Option String}
    {settings : List (Located NodeSetting)} {before more : List (Located Token)}
    (named : identifier ≠ "_") (labelled : Occurrence.LabelSpelling.Spans before label)
    (set : NodeSetting.grammar.Settings?.Spans more settings) :
    Cell.Spelling.Spans ([⟨.word identifier, p⟩] ++ (before ++ more))
      (some ⟨identifier, label, settings, p⟩) := by
  intro us
  rw [List.append_assoc, List.append_assoc]
  exact .node named (labelled _) (set us)

theorem locates_cell : Locates cell Cell.Spelling AtBreak where
  reads := reads_cell
  isLocal := by
    intro ts c us h
    cases h with
    | empty => exact ⟨[_], rfl, fun _ => .empty⟩
    | node named labelled set =>
      obtain ⟨before, rfl, hlabel⟩ := locates_label?.isLocal labelled
      obtain ⟨more, rfl, hset⟩ := (locates_settings? locates_nodeSettings).isLocal set
      exact ⟨[_] ++ (before ++ more), by rw [List.append_assoc, List.append_assoc]; rfl,
        spans_cell _ named hlabel hset⟩
  stops {V} hV input := by
    have hempty (p : Position) : V.Holds [⟨.word "_", p⟩] := hV (a := none) fun _ => .empty
    have hnil : V.Holds [] := V.extend (Token.isSpelled_word '_' [] rfl rfl) hempty
    have hsettings {identifier : String} (p : Position) {label : Option String}
        {before : List (Located Token)} (named : identifier ≠ "_")
        (h : Occurrence.LabelSpelling.Spans before label) :
        ((V.after [⟨.word identifier, p⟩]).after before).Admits NodeSetting.grammar.Settings? :=
      fun _ _ hset => hV (spans_cell p named h hset)
    have hlabel {identifier : String} (p : Position) (named : identifier ≠ "_") :
        (V.after [⟨.word identifier, p⟩]).Admits Occurrence.LabelSpelling :=
      fun before label h => by
        simpa [Viability.after_holds] using hsettings p named h spans_absent
    unfold cell
    refine .word hnil fun identifier p rest heq => ?_
    change V.Stops input (if identifier = emptyCell then _ else _)
    split_ifs with hname
    · obtain rfl : identifier = "_" := hname
      exact .behind heq (.unexpected (hempty p))
    · exact .ok
    · exact .behind heq (locates_label?.seq (hlabel p hname) fun h _ =>
        (locates_settings? locates_nodeSettings).seq (hsettings p hname h) fun _ _ => .ok)

theorem locates_row : Locates row (Phrase.Separated ',' ';' Cell.Spelling) Anything :=
  locates_separated locates_cell isUnmarked_cell (by simp) (by simp) (by decide) _

theorem spans_definition {identifier : String} (p q : Position)
    {settings : List (Located NodeSetting)} {before : List (Located Token)}
    (named : identifier ≠ "_")
    (set : (NodeSetting.grammar.Settings false).Spans before settings) :
    Definition.Spelling.Spans ([⟨.word identifier, p⟩] ++ (before ++ [⟨.mark ';', q⟩]))
      ⟨identifier, settings, p⟩ := by
  intro us
  rw [List.append_assoc, List.append_assoc]
  exact .intro named (set _)

theorem locates_definition : Locates definition Definition.Spelling Anything where
  reads := reads_definition
  isLocal := by
    intro ts d us h
    cases h with
    | intro named set =>
      obtain ⟨before, rfl, hset⟩ := (locates_settings locates_nodeSettings false).isLocal set
      exact ⟨[_] ++ (before ++ [_]), by rw [List.append_assoc, List.append_assoc]; rfl,
        spans_definition _ _ named hset⟩
  stops {V} hV input := by
    have hsettings {identifier : String} (p : Position) (named : identifier ≠ "_") :
        (V.after [⟨.word identifier, p⟩]).Admits (NodeSetting.grammar.Settings false) :=
      fun before settings h =>
        (V.after [⟨.word identifier, p⟩]).extend (Token.isSpelled_mark ';' rfl) fun q =>
          hV (spans_definition p q named h)
    have hnil : V.Holds [] := V.extend (Token.isSpelled_word 'a' [] rfl rfl) fun p =>
      (locates_settings locates_nodeSettings false).holds (hsettings p (by decide))
    unfold definition
    refine .word hnil fun identifier p rest heq => ?_
    change V.Stops input (if identifier = emptyCell then _ else _)
    split_ifs with hname
    · exact .unexpected hnil
    · exact .behind heq ((locates_settings locates_nodeSettings false).seq (hsettings p hname)
        fun h _ => .mark (Viability.after_nil (hsettings p hname h)) fun _ _ => .ok)

/-! ### Documents -/

theorem locates_braced {item : Reader α} {P : Phrase α} (hitem : Locates item P Anything)
    (hP : IsUnmarked P) : Locates (braced item) (Phrase.Braced P) Anything where
  reads := reads_braced hitem.reads hP
  isLocal := by
    intro ts items us h
    cases h with
    | intro h =>
      obtain ⟨before, rfl, hspans⟩ := isLocal_block hitem.isLocal h
      exact ⟨_ :: before, rfl, fun us => .intro (hspans us)⟩
  stops {V} hV input := by
    have hblock (p : Position) : (V.after [⟨.mark '{', p⟩]).Admits (Phrase.Block P) :=
      fun ts items h => hV (a := items) fun us => .intro (h us)
    have hnil : V.Holds [] := V.extend (Token.isSpelled_mark '{' rfl) fun p =>
      (locates_block hitem hP).holds (hblock p)
    unfold braced
    exact .mark hnil fun p _ => (locates_block hitem hP).seq (hblock p) fun _ _ => .ok

theorem locates_rows :
    Locates (braced row) (Phrase.Braced (Phrase.Separated ',' ';' Cell.Spelling)) Anything :=
  locates_braced locates_row (isUnmarked_separated isUnmarked_cell)

theorem locates_definitions :
    Locates (braced definition) (Phrase.Braced Definition.Spelling) Anything :=
  locates_braced locates_definition isUnmarked_definition

theorem isLocal_extends (found : Blocks) :
    Phrase.IsLocal fun ts found' us => found.Extends ts us found' := by
  intro ts found' us h
  rcases h with ⟨free, ⟨h⟩⟩ | ⟨free, ⟨h⟩⟩
  · obtain ⟨before, rfl, hspans⟩ := locates_rows.isLocal h
    exact ⟨_ :: before, rfl, fun us => .grid free (.intro (hspans us))⟩
  · obtain ⟨before, rfl, hspans⟩ := locates_definitions.isLocal h
    exact ⟨_ :: before, rfl, fun us => .define free (.intro (hspans us))⟩

theorem stops_anyBlock {found : Blocks} {V : Viability} (hnil : V.Holds [])
    (hV : V.Admits fun ts found' us => found.Extends ts us found') (input : Tokens) :
    V.Stops input (anyBlock found input) := by
  unfold anyBlock
  refine .word hnil fun keyword p rest heq => ?_
  change V.Stops input (if keyword = "grid" then _ else _)
  split_ifs with hgrid hrows hdefine hdefinitions
  · exact .unexpected hnil
  · refine .behind heq (locates_rows.seq (fun ts rows h =>
      hV (a := { found with rows := some rows }) fun us => ?_) fun _ _ => .ok)
    exact extends_cons_iff.mpr (.inl ⟨hgrid, by simpa using hrows, rows, h us, rfl⟩)
  · exact .unexpected hnil
  · refine .behind heq (locates_definitions.seq (fun ts definitions h =>
      hV (a := { found with definitions := some definitions }) fun us => ?_) fun _ _ => .ok)
    exact extends_cons_iff.mpr
      (.inr ⟨hdefine, by simpa using hdefinitions, definitions, h us, rfl⟩)
  · exact .unexpected hnil

/-- Where the sections read so far are completed, the tokens can be. -/
def Blocks.IsIn (found : Blocks) (V : Viability) : Prop :=
  ∀ ⦃ts : List (Located Token)⦄ ⦃d : Document⦄, found.Completes ts d → V.Holds ts

/-- An empty grid completes a document without one. -/
theorem Blocks.IsIn.holds {found : Blocks} {V : Viability} (hV : found.IsIn V) : V.Holds [] := by
  obtain ⟨_ | rows, definitions⟩ := found
  · refine V.extend (Token.isSpelled_word 'g' ['r', 'i', 'd'] rfl rfl) fun p =>
      V.extend (Token.isSpelled_mark '{' rfl) fun q =>
        V.extend (Token.isSpelled_mark '}' rfl) fun r => ?_
    exact hV (.more (.grid rfl (.intro (.intro .close))) .finish)
  · exact hV .finish

theorem stops_ofTokens {found : Blocks} {V : Viability} (hV : found.IsIn V) (input : Tokens) :
    V.Stops input (ofTokens found input) := by
  induction hsize : input.size using Nat.strong_induction_on generalizing V input found with
  | _ n ih =>
    subst hsize
    rw [ofTokens]
    split_ifs
    · cases found.rows with
      | some rows => exact .ok
      | none => exact .unexpected hV.holds
    · have hrest {found' : Blocks} {before : List (Located Token)}
          (h : Phrase.Spans (fun ts found' us => found.Extends ts us found') before found') :
          found'.IsIn (V.after before) := fun ts d hts => hV (.more (h ts) hts)
      refine .bind (stops_anyBlock hV.holds (fun before found' h => ?_) input) fun read heq => ?_
      · simpa [Viability.after_holds] using (hrest h).holds
      · obtain ⟨found', rest⟩ := read
        obtain ⟨hfirst, hending⟩ := (reads_anyBlock found rfl).sound heq
        obtain ⟨before, hlist, hspans⟩ := isLocal_extends found hfirst
        exact .behind (Tokens.eq_behind hlist hending) (ih _ rest.property (hrest hspans) _ rfl)

end FlowGrid.Document
