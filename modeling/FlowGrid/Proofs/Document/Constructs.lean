import FlowGrid.Proofs.Document.Places

/-! Where the constructs of a document stand. Some parts of a document have a place of their own,
and it is that of their first token. Reading the tokens of a text from left to right, one meets
these parts one after the other in the order of the source, each before the ones inside it. -/

namespace FlowGrid

variable {α σ : Type}

/-! ### Constructs -/

/-- A part of a document that has a place of its own. -/
inductive Construct
  | occurrence (o : Occurrence)
  | definition (d : Definition)
  | nodeSetting (s : Located NodeSetting)
  | linkSpec (spec : LinkSpec)
  | linkSetting (s : Located LinkSetting)

namespace Construct

def position : Construct → Position
  | .occurrence o => o.position
  | .definition d => d.position
  | .nodeSetting s => s.position
  | .linkSpec spec => spec.position
  | .linkSetting s => s.position

/-- The construct begins with a token, given the one before it and the one after it. A cell and a
definition begin with their identifier, a link with the side of its source, and a setting with
its key or, if it is a bare text, with a string. -/
inductive Begins : Construct → Option Token → Token → Option Token → Prop
  | occurrence {o : Occurrence} {c : Char} {after : Option Token} (hc : c ∈ ['{', ';', ',']) :
    Begins (.occurrence o) (some (.mark c)) (.word o.identifier) after
  | definition {d : Definition} {c : Char} {after : Option Token} (hc : c ∈ ['{', ';']) :
    Begins (.definition d) (some (.mark c)) (.word d.identifier) after
  | nodeKey {s : NodeSetting} {p : Position} {c : Char} (hc : c ∈ ['(', ',']) :
    Begins (.nodeSetting ⟨s, p⟩) (some (.mark c)) (.word s.key) (some (.mark ':'))
  | nodeText {text : String} {p : Position} {c : Char} {after : Option Token}
    (hc : c ∈ ['(', ',']) :
    Begins (.nodeSetting ⟨.text text, p⟩) (some (.mark c)) (.quote text) after
  | linkSpec {spec : LinkSpec} {c : Char} (hc : c ∈ [':', '{', ';']) :
    Begins (.linkSpec spec) (some (.mark c)) (.word spec.sourceSide.name) (some (.mark ':'))
  | linkKey {s : LinkSetting} {p : Position} {c : Char} (hc : c ∈ ['(', ',']) :
    Begins (.linkSetting ⟨s, p⟩) (some (.mark c)) (.word s.key) (some (.mark ':'))
  | linkText {text : String} {p : Position} {c : Char} {after : Option Token}
    (hc : c ∈ ['(', ',']) :
    Begins (.linkSetting ⟨.text text, p⟩) (some (.mark c)) (.quote text) after

end Construct

/-! The constructs of each part, in the order of the source. -/

def LinkSpec.constructs (spec : LinkSpec) : List Construct :=
  .linkSpec spec :: spec.settings.map .linkSetting

/-- The constructs inside the value of a setting. -/
def NodeSetting.constructs : NodeSetting → List Construct
  | .connect specs => specs.flatMap LinkSpec.constructs
  | _ => []

def NodeSetting.allConstructs (settings : List (Located NodeSetting)) : List Construct :=
  settings.flatMap fun s => .nodeSetting s :: s.value.constructs

def Occurrence.constructs (o : Occurrence) : List Construct :=
  .occurrence o :: NodeSetting.allConstructs o.settings

def Cell.constructs : Cell → List Construct
  | none => []
  | some o => o.constructs

def Definition.constructs (d : Definition) : List Construct :=
  .definition d :: NodeSetting.allConstructs d.settings

namespace Document

/-- The constructs of the grid. -/
def gridConstructs (d : Document) : List Construct :=
  d.rows.flatMap (List.flatMap Cell.constructs)

/-- The constructs of the definitions. -/
def definitionConstructs (d : Document) : List Construct :=
  d.definitions.flatMap Definition.constructs

end Document

/-! ### Meeting constructs -/

/-- From the token `before` on, one meets the constructs one after the other and comes to the token
`last`. -/
inductive Meets : Option Token → List (Located Token) → List Construct → Option Token →
    List (Located Token) → Prop
  | done {before : Option Token} {us : List (Located Token)} : Meets before us [] before us
  | skip {before last : Option Token} {t : Token} {p : Position} {ts us : List (Located Token)}
    {cs : List Construct} (rest : Meets (some t) ts cs last us) :
    Meets before (⟨t, p⟩ :: ts) cs last us
  | enter {before last : Option Token} {t : Token} {c : Construct} {ts us : List (Located Token)}
    {cs : List Construct} (begins : c.Begins before t (first? ts))
    (rest : Meets (some t) ts cs last us) : Meets before (⟨t, c.position⟩ :: ts) (c :: cs) last us

/-- The last of some tokens. -/
def last? (ts : List (Located Token)) : Option Token := ts.getLast?.map Located.value

theorem last?_cons_or (t : Located Token) (ts : List (Located Token)) (before : Option Token) :
    (last? (t :: ts)).or before = (last? ts).or (some t.value) := by
  rw [last?, last?, List.getLast?_cons]
  cases ts.getLast? <;> rfl

namespace Meets

variable {before mid last : Option Token} {ts us vs : List (Located Token)}
  {cs ds : List Construct}

theorem append (h : Meets before ts cs mid us) (h' : Meets mid us ds last vs) :
    Meets before ts (cs ++ ds) last vs := by
  induction h with
  | done => exact h'
  | skip _ ih => exact .skip (ih h')
  | enter begins _ ih => exact .enter begins (ih h')

/-- The constructs stand at tokens, in order. -/
theorem sublist (h : Meets before ts cs last us) :
    (cs.map Construct.position).Sublist (ts.map Located.position) := by
  induction h with
  | done => exact List.nil_sublist _
  | skip _ ih => exact ih.cons _
  | enter _ _ ih => exact ih.cons_cons _

/-- Each construct begins with a token that is met. -/
theorem exists_begins (h : Meets before ts cs last us) {c : Construct} (hc : c ∈ cs) :
    ∃ front t after, ts = front ++ ⟨t, c.position⟩ :: after ∧
      c.Begins ((last? front).or before) t (first? after) := by
  induction h with
  | done => cases hc
  | @skip _ _ t p _ _ _ _ ih =>
    obtain ⟨front, u, after, rfl, hbegins⟩ := ih hc
    exact ⟨⟨t, p⟩ :: front, u, after, rfl, by rwa [last?_cons_or]⟩
  | @enter _ _ t d ts _ _ begins _ ih =>
    rcases List.mem_cons.mp hc with rfl | hc
    · exact ⟨[], t, ts, rfl, begins⟩
    · obtain ⟨front, u, after, rfl, hbegins⟩ := ih hc
      exact ⟨⟨t, d.position⟩ :: front, u, after, rfl, by rwa [last?_cons_or]⟩

end Meets

/-! ### Constructs of phrases -/

/-- The token is one of these marks. -/
def IsMarkOf (cs : List Char) (t : Option Token) : Prop := ∃ c ∈ cs, t = some (.mark c)

namespace Phrase

/-- In the tokens of the phrase, behind one of `S`, one meets the constructs of what they stand for
and comes to one of `E`. -/
def IsMet (P : Phrase α) (f : α → List Construct) (S E : Option Token → Prop) : Prop :=
  ∀ ⦃ts : List (Located Token)⦄ ⦃a : α⦄ ⦃us : List (Located Token)⦄, P ts a us →
    ∀ ⦃before : Option Token⦄, S before → ∃ last, E last ∧ Meets before ts (f a) last us

variable {P : Phrase α} {f : α → List Construct} {S E : Option Token → Prop}

theorem isMet_separated {separator close : Char} (hP : P.IsMet f S E)
    (hseparator : S (some (.mark separator))) :
    (Separated separator close P).IsMet (List.flatMap f) S (· = some (.mark close)) := by
  intro ts as us h
  induction h with
  | last item =>
    intro before hbefore
    obtain ⟨last, -, hm⟩ := hP item hbefore
    rw [List.flatMap_singleton, ← List.append_nil (f _)]
    exact ⟨_, rfl, hm.append (.skip .done)⟩
  | trailing item =>
    intro before hbefore
    obtain ⟨last, -, hm⟩ := hP item hbefore
    rw [List.flatMap_singleton, ← List.append_nil (f _)]
    exact ⟨_, rfl, hm.append (.skip (.skip .done))⟩
  | cons item _ ih =>
    intro before hbefore
    obtain ⟨mid, -, hm⟩ := hP item hbefore
    obtain ⟨last, hlast, hm'⟩ := ih hseparator
    exact ⟨last, hlast, hm.append (.skip hm')⟩

/-- Items that follow each other directly. -/
theorem isMet_block (hP : P.IsMet f S S) :
    (Block P).IsMet (List.flatMap f) S (· = some (.mark '}')) := by
  intro ts as us h
  induction h with
  | close => exact fun before _ => ⟨_, rfl, .skip .done⟩
  | cons item _ ih =>
    intro before hbefore
    obtain ⟨mid, hmid, hm⟩ := hP item hbefore
    obtain ⟨last, hlast, hm'⟩ := ih hmid
    exact ⟨last, hlast, hm.append hm'⟩

theorem isMet_section {keyword : String} (hP : P.IsMet f S S) (hopen : S (some (.mark '{'))) :
    (Section keyword P).IsMet (List.flatMap f) (fun _ => True) (· = some (.mark '}')) := by
  rintro ts as us ⟨⟨h⟩⟩ before -
  obtain ⟨last, hlast, hm⟩ := isMet_block hP h hopen
  exact ⟨last, hlast, .skip (.skip hm)⟩

theorem isMet_word : word.IsMet (fun _ => []) (fun _ => True) (fun _ => True) := by
  rintro ts name us ⟨p, rfl⟩ before -
  exact ⟨_, trivial, .skip .done⟩

theorem isMet_quote : quote.IsMet (fun _ => []) (fun _ => True) (fun _ => True) := by
  rintro ts content us ⟨p, rfl⟩ before -
  exact ⟨_, trivial, .skip .done⟩

end Phrase

/-! ### Settings -/

/-- The constructs of a setting: one that begins with its key or as a bare text, and those inside
its value. -/
structure SettingGrammar.IsMet (g : SettingGrammar σ) (construct : Located σ → Construct)
    (inside : σ → List Construct) : Prop where
  position (s : Located σ) : (construct s).position = s.position
  key {a : σ} {p : Position} {c : Char} (hc : c ∈ ['(', ',']) :
    (construct ⟨a, p⟩).Begins (some (.mark c)) (.word (g.key a)) (some (.mark ':'))
  text {text : String} {p : Position} {c : Char} {after : Option Token} (hc : c ∈ ['(', ',']) :
    (construct ⟨g.ofText text, p⟩).Begins (some (.mark c)) (.quote text) after
  bare (text : String) : inside (g.ofText text) = []
  value : Phrase.IsMet g.Value inside (· = some (.mark ':')) (fun _ => True)

section Settings

variable {g : SettingGrammar σ} {construct : Located σ → Construct} {inside : σ → List Construct}
  {bareText : Bool}

theorem isMet_setting (h : g.IsMet construct inside) :
    Phrase.IsMet (g.Setting bareText) (fun x => construct x.1 :: inside x.1.value)
      (IsMarkOf ['(', ',']) (fun _ => True) := by
  rintro ts x us hx _ ⟨c, hc, rfl⟩
  cases hx with
  | @bare us text p =>
    have hp := h.position ⟨g.ofText text, p⟩
    have htext : (construct ⟨g.ofText text, p⟩).Begins (some (.mark c)) (.quote text) (first? us) :=
      h.text hc
    have hm := Meets.enter htext .done
    rw [hp] at hm
    dsimp only
    rw [h.bare]
    exact ⟨_, trivial, hm⟩
  | @pair ts us a p q value =>
    obtain ⟨last, -, hm⟩ := h.value value rfl
    have hp := h.position ⟨a, p⟩
    have hkey : (construct ⟨a, p⟩).Begins (some (.mark c)) (.word (g.key a))
        (first? (⟨.mark ':', q⟩ :: ts)) := h.key hc
    have hm' := Meets.enter hkey (.skip hm)
    rw [hp] at hm'
    exact ⟨last, trivial, hm'⟩

theorem isMet_settings (h : g.IsMet construct inside) :
    Phrase.IsMet (g.Settings bareText) (List.flatMap fun s => construct s :: inside s.value)
      (fun _ => True) (fun _ => True) := by
  rintro ts l us hl before -
  cases hl with
  | none => exact ⟨_, trivial, .skip (.skip .done)⟩
  | some list =>
    obtain ⟨last, -, hm⟩ := Phrase.isMet_separated (isMet_setting h) ⟨',', by simp, rfl⟩ list
      ⟨'(', by simp, rfl⟩
    rw [List.flatMap_map]
    exact ⟨last, trivial, .skip hm⟩

theorem isMet_settings? (h : g.IsMet construct inside) :
    Phrase.IsMet g.Settings? (List.flatMap fun s => construct s :: inside s.value)
      (fun _ => True) (fun _ => True) := by
  rintro ts l us hl before -
  cases hl with
  | absent => exact ⟨_, trivial, .done⟩
  | present hl => exact isMet_settings h hl trivial

end Settings

/-! ### Links -/

theorem isMet_destination :
    Phrase.IsMet Destination.Spelling (fun _ => []) (fun _ => True) (fun _ => True) := by
  rintro ts d us h before -
  cases h with
  | label => exact ⟨_, trivial, .skip (.skip .done)⟩
  | toward => exact ⟨_, trivial, .skip (.skip .done)⟩
  | self => exact ⟨_, trivial, .skip .done⟩

theorem isMet_linkGrammar :
    LinkSetting.grammar.IsMet .linkSetting (fun _ => []) where
  position _ := rfl
  key := .linkKey
  text := .linkText
  bare _ := rfl
  value := by
    rintro ts s us h before -
    cases s with
    | text => exact Phrase.isMet_quote h trivial
    | classes => exact Phrase.isMet_quote h trivial
    | arrowheads => exact Phrase.isMet_word h trivial

theorem isMet_linkSpec :
    Phrase.IsMet LinkSpec.Spelling LinkSpec.constructs (IsMarkOf [':', '{', ';'])
      (fun _ => True) := by
  rintro ts spec us h _ ⟨c, hc, rfl⟩
  cases h with
  | intro leads set =>
    obtain ⟨mid, -, hm⟩ := isMet_destination leads trivial
    obtain ⟨last, -, hm'⟩ := isMet_settings? isMet_linkGrammar set trivial
    rw [LinkSpec.constructs, List.map_eq_flatMap]
    exact ⟨last, trivial, .enter (c := .linkSpec ⟨_, _, _, _, _⟩) (.linkSpec hc)
      (.skip (.skip (hm.append hm')))⟩

theorem isMet_linkSpecs :
    Phrase.IsMet LinkSpec.ListSpelling (List.flatMap LinkSpec.constructs) (· = some (.mark ':'))
      (fun _ => True) := by
  rintro ts specs us h _ rfl
  cases h with
  | one h =>
    rw [List.flatMap_singleton]
    exact isMet_linkSpec h ⟨':', by simp, rfl⟩
  | none => exact ⟨_, trivial, .skip (.skip .done)⟩
  | some list =>
    obtain ⟨last, -, hm⟩ := Phrase.isMet_separated isMet_linkSpec ⟨';', by simp, rfl⟩ list
      ⟨'{', by simp, rfl⟩
    exact ⟨last, trivial, .skip hm⟩

/-! ### Cells and definitions -/

theorem isMet_nodeGrammar :
    NodeSetting.grammar.IsMet .nodeSetting NodeSetting.constructs where
  position _ := rfl
  key := .nodeKey
  text := .nodeText
  bare _ := rfl
  value := by
    rintro ts s us h before hbefore
    cases s with
    | text => exact Phrase.isMet_quote h trivial
    | classes => exact Phrase.isMet_quote h trivial
    | shape => exact Phrase.isMet_word h trivial
    | connect => exact isMet_linkSpecs h hbefore

theorem isMet_label :
    Phrase.IsMet Occurrence.LabelSpelling (fun _ => []) (fun _ => True) (fun _ => True) := by
  rintro ts label us h before -
  cases h with
  | absent => exact ⟨_, trivial, .done⟩
  | present => exact ⟨_, trivial, .skip (.skip .done)⟩

theorem isMet_cell :
    Phrase.IsMet Cell.Spelling Cell.constructs (IsMarkOf ['{', ';', ',']) (fun _ => True) := by
  rintro ts cell us h _ ⟨c, hc, rfl⟩
  cases h with
  | empty => exact ⟨_, trivial, .skip .done⟩
  | @node ts us vs identifier label settings p named labelled set =>
    obtain ⟨mid, -, hm⟩ := isMet_label labelled trivial
    obtain ⟨last, -, hm'⟩ := isMet_settings? isMet_nodeGrammar set trivial
    exact ⟨last, trivial, .enter (c := .occurrence ⟨identifier, label, settings, p⟩)
      (.occurrence hc) (hm.append hm')⟩

theorem isMet_definition :
    Phrase.IsMet Definition.Spelling Definition.constructs (IsMarkOf ['{', ';'])
      (IsMarkOf ['{', ';']) := by
  rintro ts d us h _ ⟨c, hc, rfl⟩
  cases h with
  | @intro ts us identifier settings p q named set =>
    have hset := isMet_settings isMet_nodeGrammar set
    obtain ⟨last, -, hm⟩ := @hset (some (.word identifier)) trivial
    have hm' := hm.append (.skip (p := q) .done)
    rw [List.append_nil] at hm'
    exact ⟨_, ⟨';', by simp, rfl⟩, .enter (c := .definition ⟨identifier, settings, p⟩)
      (.definition hc) hm'⟩

/-! ### Documents -/

theorem isMet_grid :
    Phrase.IsMet gridSpelling (List.flatMap (List.flatMap Cell.constructs)) (fun _ => True)
      (fun _ => True) := by
  -- a row stands behind the opening brace or the end of another row
  have hrow : Phrase.IsMet (Phrase.Separated ',' ';' Cell.Spelling) (List.flatMap Cell.constructs)
      (IsMarkOf ['{', ';', ',']) (IsMarkOf ['{', ';', ',']) := by
    intro ts row us h before hbefore
    obtain ⟨last, rfl, hm⟩ := Phrase.isMet_separated isMet_cell ⟨',', by simp, rfl⟩ h hbefore
    exact ⟨_, ⟨';', by simp, rfl⟩, hm⟩
  intro ts rows us h before hbefore
  obtain ⟨last, -, hm⟩ := Phrase.isMet_section hrow ⟨'{', by simp, rfl⟩ h hbefore
  exact ⟨last, trivial, hm⟩

theorem isMet_define :
    Phrase.IsMet defineSpelling (List.flatMap Definition.constructs) (fun _ => True)
      (fun _ => True) := by
  intro ts definitions us h before hbefore
  obtain ⟨last, -, hm⟩ := Phrase.isMet_section isMet_definition ⟨'{', by simp, rfl⟩ h hbefore
  exact ⟨last, trivial, hm⟩

/-! ### Places of tokens -/

/-- The characters begin with the token; a word does not go on behind it. -/
inductive Token.IsAt : Token → List Char → Prop
  | word {c : Char} {more cs : List Char} (first : isWordStart c)
    (inside : ∀ d ∈ more, isWordPart d) (stops : ∀ d, cs.head? = some d → ¬ isWordPart d) :
    IsAt (.word (String.ofList (c :: more))) (c :: (more ++ cs))
  | quote {content text cs : List Char} (written : Writes content text) :
    IsAt (.quote (String.ofList content)) ('"' :: (text ++ '"' :: cs))
  | mark {c : Char} {cs : List Char} (visible : ¬ isBlank c) : IsAt (.mark c) (c :: cs)

namespace Scans

variable {p : Position} {cs : List Char} {ts : List (Located Token)}

/-- Each token of a text stands at its place. -/
theorem exists_isAt (h : Scans p cs ts) {t : Located Token} (ht : t ∈ ts) :
    ∃ before after, cs = before ++ after ∧ t.position = p.advanceAll before ∧
      t.value.IsAt after := by
  induction h with
  | finish => cases ht
  | @blank p c _ _ _ _ ih =>
    obtain ⟨before, after, rfl, hp, hat⟩ := ih ht
    exact ⟨c :: before, after, rfl, hp, hat⟩
  | @comment p line _ _ _ _ _ ih =>
    obtain ⟨before, after, rfl, hp, hat⟩ := ih ht
    refine ⟨'/' :: '/' :: line ++ before, after, by simp, ?_, hat⟩
    rw [hp, Position.advanceAll_append]
  | @word p c more cs _ first inside stops _ ih =>
    rcases List.mem_cons.mp ht with rfl | ht
    · exact ⟨[], _, rfl, rfl, .word first inside stops⟩
    · obtain ⟨before, after, rfl, hp, hat⟩ := ih ht
      refine ⟨c :: more ++ before, after, by simp, ?_, hat⟩
      rw [hp, Position.advanceAll_append]
  | @quote p content text cs _ written _ ih =>
    rcases List.mem_cons.mp ht with rfl | ht
    · exact ⟨[], _, rfl, rfl, .quote written⟩
    · obtain ⟨before, after, rfl, hp, hat⟩ := ih ht
      refine ⟨'"' :: (text ++ ['"']) ++ before, after, by simp, ?_, hat⟩
      rw [hp, Position.advanceAll_append]
  | @mark p c cs _ visible _ _ _ _ ih =>
    rcases List.mem_cons.mp ht with rfl | ht
    · exact ⟨[], _, rfl, rfl, .mark visible⟩
    · obtain ⟨before, after, rfl, hp, hat⟩ := ih ht
      exact ⟨c :: before, after, rfl, hp, hat⟩

theorem offset_le (h : Scans p cs ts) {t : Located Token} (ht : t ∈ ts) :
    p.offset ≤ t.position.offset := by
  obtain ⟨before, -, -, hp, -⟩ := h.exists_isAt ht
  rw [hp, Position.advanceAll_offset]
  omega

/-- Each token of a text stands behind those before it. -/
theorem pairwise_offset (h : Scans p cs ts) :
    (ts.map Located.position).Pairwise fun p q => p.offset < q.offset := by
  have hlater {p : Position} {c : Char} {more cs : List Char} {ts : List (Located Token)}
      (h : Scans (p.advanceAll (c :: more)) cs ts) :
      ∀ q ∈ ts.map Located.position, p.offset < q.offset := by
    intro q hq
    obtain ⟨t, ht, rfl⟩ := List.mem_map.mp hq
    have hle := h.offset_le ht
    rw [Position.advanceAll_offset, List.length_cons] at hle
    omega
  induction h with
  | finish => exact .nil
  | blank _ _ ih => exact ih
  | comment _ _ _ ih => exact ih
  | word _ _ _ rest ih => exact .cons (hlater rest) ih
  | quote _ rest ih => exact .cons (hlater rest) ih
  | @mark p c _ _ _ _ _ _ rest ih => exact .cons (@hlater p c [] _ _ rest) ih

end Scans

/-! ### Places of constructs -/

/-- The construct stands at its first token in the text with these tokens. -/
structure Construct.StandsIn (c : Construct) (text : List Char) (ts : List (Located Token)) :
    Prop where
  /-- Its line and its column are those of its offset. -/
  place : c.position.IsIn text
  /-- They tell its place from all others. -/
  unique (q : Position) : q.IsIn text → q.line = c.position.line →
    q.column = c.position.column → q = c.position
  /-- It begins with the token there. -/
  begins : ∃ before t after, ts = before ++ ⟨t, c.position⟩ :: after ∧
    c.Begins (last? before) t (first? after) ∧ t.IsAt (text.drop c.position.offset)

theorem Meets.standsIn {text : List Char} {ts us : List (Located Token)} {cs : List Construct}
    {last : Option Token} (hm : Meets none ts cs last us) (hs : Scans .start text ts)
    {c : Construct} (hc : c ∈ cs) : c.StandsIn text ts := by
  obtain ⟨front, t, after, rfl, hbegins⟩ := hm.exists_begins hc
  obtain ⟨before, more, rfl, hp, hat⟩ := hs.exists_isAt (t := ⟨t, c.position⟩) (by simp)
  have hin : c.position.IsIn (before ++ more) := by
    rw [show c.position = _ from hp]
    exact Position.isIn_advanceAll before more
  refine ⟨hin, fun q hq => hin.eq hq, front, t, after, rfl, ?_, ?_⟩
  · rwa [Option.or_none] at hbegins
  · rwa [show c.position = _ from hp, Position.start_advanceAll_offset, List.drop_left]

/-- Each construct stands behind those before it. -/
def AreOrdered (cs : List Construct) : Prop :=
  cs.Pairwise fun c d => c.position.offset < d.position.offset

theorem Meets.areOrdered {text : List Char} {ts us : List (Located Token)} {cs : List Construct}
    {last : Option Token} (hm : Meets none ts cs last us) (hs : Scans .start text ts) :
    AreOrdered cs := by
  have h := hs.pairwise_offset.sublist hm.sublist
  rwa [List.pairwise_map] at h

theorem first?_section {keyword : String} {P : Phrase α} {ts us : List (Located Token)}
    {items : List α} (h : Phrase.Section keyword P ts items us) :
    first? ts = some (.word keyword) := by
  cases h
  rfl

namespace Document

/-- The constructs of a document in the order of the source, which has one section or the other
first. -/
def sourceConstructs (d : Document) (gridFirst : Bool) : List Construct :=
  if gridFirst then d.gridConstructs ++ d.definitionConstructs
  else d.definitionConstructs ++ d.gridConstructs

/-- The tokens of a document lead to its constructs. -/
theorem exists_meets {ts : List (Located Token)} {d : Document} (h : Spelling ts d) :
    ∃ gridFirst last, first? ts = some (.word (if gridFirst then "grid" else "define")) ∧
      Meets none ts (d.sourceConstructs gridFirst) last [] := by
  cases h with
  | grid first =>
    obtain ⟨last, -, hm⟩ := @isMet_grid _ _ _ first none trivial
    rw [← List.append_nil (List.flatMap _ _)] at hm
    exact ⟨true, last, first?_section first, hm⟩
  | gridFirst first second =>
    obtain ⟨mid, -, hm⟩ := @isMet_grid _ _ _ first none trivial
    obtain ⟨last, -, hm'⟩ := @isMet_define _ _ _ second mid trivial
    exact ⟨true, last, first?_section first, hm.append hm'⟩
  | gridSecond first second =>
    obtain ⟨mid, -, hm⟩ := @isMet_define _ _ _ first none trivial
    obtain ⟨last, -, hm'⟩ := @isMet_grid _ _ _ second mid trivial
    exact ⟨false, last, first?_section first, hm.append hm'⟩

/-- In a text that is read, each construct stands at its first token, and those that come later in
the source, or inside it, stand behind it. -/
theorem constructs_placed {text : String} {d : Document} (h : read text = .ok d) :
    ∃ ts gridFirst, Scans .start text.toList ts ∧
      first? ts = some (.word (if gridFirst then "grid" else "define")) ∧
      (∀ c ∈ d.sourceConstructs gridFirst, c.StandsIn text.toList ts) ∧
      AreOrdered (d.sourceConstructs gridFirst) := by
  obtain ⟨ts, hs, hspelling⟩ := read_eq_ok_iff.mp h
  obtain ⟨gridFirst, last, hfirst, hm⟩ := exists_meets hspelling
  exact ⟨ts, gridFirst, hs, hfirst, fun c hc => hm.standsIn hs hc, hm.areOrdered hs⟩

/-- Comments and line breaks inside a cell, whose links have settings of their own. -/
def nestedLinks : String :=
  "grid \x7b _, // a row\n a(\"x\", connect:\n  \x7b e:w@(\"y\"); s:n#b; \x7d); \x7d " ++
    "define \x7b\n b(text: \"\"); \x7d"

/-- The places of its constructs. -/
def nestedLinksPlaces : List Position :=
  [⟨20, 2, 2⟩, ⟨22, 2, 4⟩, ⟨27, 2, 9⟩, ⟨40, 3, 5⟩, ⟨45, 3, 10⟩, ⟨51, 3, 16⟩, ⟨74, 4, 2⟩, ⟨76, 4, 4⟩]

theorem constructs_placed_nestedLinks :
    ∃ d, read nestedLinks = .ok d ∧
      (d.sourceConstructs true).map Construct.position = nestedLinksPlaces ∧
      ∃ ts gridFirst, Scans .start nestedLinks.toList ts ∧
        first? ts = some (.word (if gridFirst then "grid" else "define")) ∧
        (∀ c ∈ d.sourceConstructs gridFirst, c.StandsIn nestedLinks.toList ts) ∧
        AreOrdered (d.sourceConstructs gridFirst) := by
  have hplaces : (read nestedLinks).toOption.map
      (fun d => (d.sourceConstructs true).map Construct.position) = some nestedLinksPlaces := by
    decide +kernel
  cases h : read nestedLinks with
  | error fault =>
    rw [h] at hplaces
    cases hplaces
  | ok d =>
    rw [h] at hplaces
    exact ⟨d, rfl, Option.some.inj hplaces, constructs_placed h⟩

end Document
end FlowGrid
