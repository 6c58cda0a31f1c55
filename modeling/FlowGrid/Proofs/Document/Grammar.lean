import FlowGrid.Document.Basic
import FlowGrid.Proofs.Document.Spelling

/-! The grammar of source texts. A phrase stands at the front of the tokens: it relates them to
what they mean and to the tokens after it. Everything that has a place in a document stands
where its first token does. -/

namespace FlowGrid

/-- What the tokens in front stand for, and the tokens after them. -/
abbrev Phrase (α : Type) := List (Located Token) → α → List (Located Token) → Prop

namespace Phrase

variable {α : Type}

def word : Phrase String := fun ts name us => ∃ p, ts = ⟨.word name, p⟩ :: us

def quote : Phrase String := fun ts content us => ∃ p, ts = ⟨.quote content, p⟩ :: us

/-- One item or more with the mark `separator` between them and, at will, after the last one,
then the mark `close`. -/
inductive Separated (separator close : Char) (P : Phrase α) : Phrase (List α)
  | last {ts us : List (Located Token)} {a : α} {p : Position}
    (item : P ts a (⟨.mark close, p⟩ :: us)) : Separated separator close P ts [a] us
  | trailing {ts us : List (Located Token)} {a : α} {p q : Position}
    (item : P ts a (⟨.mark separator, p⟩ :: ⟨.mark close, q⟩ :: us)) :
    Separated separator close P ts [a] us
  | cons {ts us vs : List (Located Token)} {a : α} {more : List α} {p : Position}
    (item : P ts a (⟨.mark separator, p⟩ :: us)) (rest : Separated separator close P us more vs) :
    Separated separator close P ts (a :: more) vs

/-- Any number of items, then a closing brace. -/
inductive Block (P : Phrase α) : Phrase (List α)
  | close {us : List (Located Token)} {p : Position} : Block P (⟨.mark '}', p⟩ :: us) [] us
  | cons {ts us vs : List (Located Token)} {a : α} {more : List α} (item : P ts a us)
    (rest : Block P us more vs) : Block P ts (a :: more) vs

inductive Braced (P : Phrase α) : Phrase (List α)
  | intro {ts us : List (Located Token)} {items : List α} {p : Position}
    (block : Block P ts items us) : Braced P (⟨.mark '{', p⟩ :: ts) items us

/-- A keyword, then items in braces. -/
inductive Section (keyword : String) (P : Phrase α) : Phrase (List α)
  | intro {ts us : List (Located Token)} {items : List α} {p : Position}
    (body : Braced P ts items us) : Section keyword P (⟨.word keyword, p⟩ :: ts) items us

end Phrase

/-! ### Settings -/

/-- How the settings of one kind are written: the key of each, the setting that a bare text
stands for, and the values. -/
structure SettingGrammar (σ : Type) where
  key : σ → String
  ofText : String → σ
  Value : Phrase σ

namespace SettingGrammar

variable {σ : Type}

/-- The values of a key are what a phrase says, each made a setting. -/
def HasValues {α : Type} (g : SettingGrammar σ) (key : String) (P : Phrase α) (f : α → σ) : Prop :=
  ∀ ts b us, (∃ a, P ts a us ∧ b = f a) ↔ g.key b = key ∧ g.Value ts b us

/-- A setting and whether it is a pair: a bare text is none. -/
inductive Setting (g : SettingGrammar σ) (bareText : Bool) : Phrase (Located σ × Bool)
  | bare {us : List (Located Token)} {text : String} {p : Position} (allowed : bareText) :
    Setting g bareText (⟨.quote text, p⟩ :: us) (⟨g.ofText text, p⟩, false) us
  | pair {ts us : List (Located Token)} {a : σ} {p q : Position} (value : g.Value ts a us) :
    Setting g bareText (⟨.word (g.key a), p⟩ :: ⟨.mark ':', q⟩ :: ts) (⟨a, p⟩, true) us

/-- Settings in parentheses. No bare text comes after a pair. -/
inductive Settings (g : SettingGrammar σ) (bareText : Bool) : Phrase (List (Located σ))
  | none {us : List (Located Token)} {p q : Position} :
    Settings g bareText (⟨.mark '(', p⟩ :: ⟨.mark ')', q⟩ :: us) [] us
  | some {ts us : List (Located Token)} {found : List (Located σ × Bool)} {p : Position}
    (list : Phrase.Separated ',' ')' (g.Setting bareText) ts found us)
    (ordered : (found.map Prod.snd).Pairwise (· ≤ ·)) :
    Settings g bareText (⟨.mark '(', p⟩ :: ts) (found.map Prod.fst) us

/-- Settings in parentheses, or nothing. -/
inductive Settings? (g : SettingGrammar σ) : Phrase (List (Located σ))
  | absent {us : List (Located Token)} : Settings? g us [] us
  | present {ts us : List (Located Token)} {settings : List (Located σ)}
    (h : g.Settings true ts settings us) : Settings? g ts settings us

end SettingGrammar

/-! ### Links -/

inductive Destination.Spelling : Phrase Destination
  | label {us : List (Located Token)} {name : String} {p q : Position} :
    Spelling (⟨.mark '#', p⟩ :: ⟨.word name, q⟩ :: us) (.label name) us
  | toward {us : List (Located Token)} {side : Side} {p q : Position} :
    Spelling (⟨.mark '@', p⟩ :: ⟨.word side.name, q⟩ :: us) (.toward side) us
  | self {us : List (Located Token)} {p : Position} : Spelling (⟨.mark '@', p⟩ :: us) .self us

/-- The value of a setting of a link. -/
def LinkSetting.Spelling : Phrase LinkSetting := fun ts setting us =>
  match setting with
  | .text content => Phrase.quote ts content us
  | .classes content => Phrase.quote ts content us
  | .arrowheads keyword => Phrase.word ts keyword us

def LinkSetting.grammar : SettingGrammar LinkSetting := ⟨key, .text, Spelling⟩

inductive LinkSpec.Spelling : Phrase LinkSpec
  | intro {ts us vs : List (Located Token)} {source target : Side} {destination : Destination}
    {settings : List (Located LinkSetting)} {p q r : Position}
    (leads : destination.Spelling ts us) (set : LinkSetting.grammar.Settings? us settings vs) :
    Spelling (⟨.word source.name, p⟩ :: ⟨.mark ':', q⟩ :: ⟨.word target.name, r⟩ :: ts)
      ⟨source, target, destination, settings, p⟩ vs

/-- One link, or any number of them in braces. -/
inductive LinkSpec.ListSpelling : Phrase (List LinkSpec)
  | one {ts us : List (Located Token)} {spec : LinkSpec} (h : Spelling ts spec us) :
    ListSpelling ts [spec] us
  | none {us : List (Located Token)} {p q : Position} :
    ListSpelling (⟨.mark '{', p⟩ :: ⟨.mark '}', q⟩ :: us) [] us
  | some {ts us : List (Located Token)} {specs : List LinkSpec} {p : Position}
    (list : Phrase.Separated ';' '}' Spelling ts specs us) :
    ListSpelling (⟨.mark '{', p⟩ :: ts) specs us

/-! ### Cells and definitions -/

/-- The value of a setting of a cell or a definition. -/
def NodeSetting.Spelling : Phrase NodeSetting := fun ts setting us =>
  match setting with
  | .text content => Phrase.quote ts content us
  | .classes content => Phrase.quote ts content us
  | .shape keyword => Phrase.word ts keyword us
  | .connect specs => LinkSpec.ListSpelling ts specs us

def NodeSetting.grammar : SettingGrammar NodeSetting := ⟨key, .text, Spelling⟩

/-- A label, or nothing. -/
inductive Occurrence.LabelSpelling : Phrase (Option String)
  | absent {us : List (Located Token)} : LabelSpelling us none us
  | present {us : List (Located Token)} {name : String} {p q : Position} :
    LabelSpelling (⟨.mark '#', p⟩ :: ⟨.word name, q⟩ :: us) (some name) us

inductive Cell.Spelling : Phrase Cell
  | empty {us : List (Located Token)} {p : Position} : Spelling (⟨.word "_", p⟩ :: us) none us
  | node {ts us vs : List (Located Token)} {identifier : String} {label : Option String}
    {settings : List (Located NodeSetting)} {p : Position} (named : identifier ≠ "_")
    (labelled : Occurrence.LabelSpelling ts label us)
    (set : NodeSetting.grammar.Settings? us settings vs) :
    Spelling (⟨.word identifier, p⟩ :: ts) (some ⟨identifier, label, settings, p⟩) vs

/-- A definition gives its settings in full: its text has a key. -/
inductive Definition.Spelling : Phrase Definition
  | intro {ts us : List (Located Token)} {identifier : String}
    {settings : List (Located NodeSetting)} {p q : Position} (named : identifier ≠ "_")
    (set : NodeSetting.grammar.Settings false ts settings (⟨.mark ';', q⟩ :: us)) :
    Spelling (⟨.word identifier, p⟩ :: ts) ⟨identifier, settings, p⟩ us

/-! ### Documents -/

def gridSpelling : Phrase (List (List Cell)) :=
  Phrase.Section "grid" (Phrase.Separated ',' ';' Cell.Spelling)

def defineSpelling : Phrase (List Definition) := Phrase.Section "define" Definition.Spelling

namespace Document

/-- A grid and at most one section of definitions, in any order. -/
inductive Spelling : List (Located Token) → Document → Prop
  | grid {ts : List (Located Token)} {rows : List (List Cell)} (first : gridSpelling ts rows []) :
    Spelling ts ⟨rows, []⟩
  | gridFirst {ts us : List (Located Token)} {rows : List (List Cell)}
    {definitions : List Definition} (first : gridSpelling ts rows us)
    (second : defineSpelling us definitions []) : Spelling ts ⟨rows, definitions⟩
  | gridSecond {ts us : List (Located Token)} {rows : List (List Cell)}
    {definitions : List Definition} (first : defineSpelling ts definitions us)
    (second : gridSpelling us rows []) : Spelling ts ⟨rows, definitions⟩

/-- The text spells the document, each part of it at its place. -/
def IsSpelledBy (d : Document) (text : String) : Prop :=
  ∃ ts, Scans .start text.toList ts ∧ Spelling ts d

end Document

/-! ### Documents without places -/

/-- The link with all places moved to the start. -/
def LinkSpec.unplaced (spec : LinkSpec) : LinkSpec :=
  { spec with settings := spec.settings.map fun s => ⟨s.value, .start⟩, position := .start }

def NodeSetting.unplaced : NodeSetting → NodeSetting
  | .connect specs => .connect (specs.map LinkSpec.unplaced)
  | s => s

def NodeSetting.unplacedAll (settings : List (Located NodeSetting)) :
    List (Located NodeSetting) :=
  settings.map fun s => ⟨s.value.unplaced, .start⟩

def Occurrence.unplaced (o : Occurrence) : Occurrence :=
  { o with settings := NodeSetting.unplacedAll o.settings, position := .start }

def Definition.unplaced (d : Definition) : Definition :=
  { d with settings := NodeSetting.unplacedAll d.settings, position := .start }

/-- The document with all places moved to the start. -/
def Document.unplaced (d : Document) : Document where
  rows := d.rows.map fun row => row.map fun cell => cell.map Occurrence.unplaced
  definitions := d.definitions.map Definition.unplaced

/-- The documents differ in places at most. -/
def Document.SameTree (d e : Document) : Prop := d.unplaced = e.unplaced

/-- The text spells the document, whatever places stand in it. -/
def Document.IsTreeOf (d : Document) (text : String) : Prop :=
  ∃ e : Document, e.IsSpelledBy text ∧ e.SameTree d

end FlowGrid
