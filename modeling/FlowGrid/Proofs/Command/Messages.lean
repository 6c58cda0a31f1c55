import FlowGrid.Proofs.Chart.Faults
import FlowGrid.Proofs.Command.Lines
import FlowGrid.Proofs.Document.Drafting
import Mathlib.Data.List.TakeWhile

/-! The messages about mistakes in a text. What such a message tells as it stands is a word of the
text or of the language, and a word has no line break; whatever else it found stands in quotes,
which hide one. So the message is a single line, whatever the text is. -/

namespace FlowGrid

open Result
open Text (IsLine)

variable {α β σ : Type}

/-! ### Causes -/

/-- The texts that a message tells as they stand. -/
def Cause.told : Cause → List String
  | .expected what _ => [what]
  | .duplicateKey key => [key]
  | .unknownKeyword key value allowed => key :: value :: allowed
  | .redefined name | .duplicateLabel name | .unresolvedLabel name => [name]
  | .misplacedText | .noNeighbor .. => []

/-- What the message tells as it stands has no line break. -/
def Diagnostic.TellsLines (d : Diagnostic) : Prop := ∀ s ∈ d.cause.told, IsLine s

theorem Cause.isLine_text {c : Cause} (h : ∀ s ∈ c.told, IsLine s) : IsLine c.text := by
  cases c with
  | expected what found =>
    exact Text.isLine_append (Text.isLine_between (by decide) (h what (.head _)) (by decide))
      (Text.isLine_quoted found)
  | misplacedText => decide
  | duplicateKey key => exact Text.isLine_between (by decide) (h key (.head _)) (by decide)
  | unknownKeyword key value allowed =>
    rw [Cause.told, List.forall_mem_cons, List.forall_mem_cons] at h
    obtain ⟨hkey, hvalue, hallowed⟩ := h
    have hlist := Text.not_mem_intercalate (s := ", ") (by decide) hallowed
    exact Text.isLine_append (Text.isLine_between
      (Text.isLine_between (by decide) hvalue (by decide)) hkey (by decide)) hlist
  | redefined name => exact Text.isLine_between (by decide) (h name (.head _)) (by decide)
  | duplicateLabel name => exact Text.isLine_between (by decide) (h name (.head _)) (by decide)
  | unresolvedLabel name => exact Text.isLine_between (by decide) (h name (.head _)) (by decide)
  | noNeighbor side row col =>
    have hside : IsLine side.name := by cases side <;> decide
    exact Text.isLine_between (Text.isLine_between
      (Text.isLine_between (by decide) (Text.isLine_toString_nat row) (by decide))
        (Text.isLine_toString_nat col) (by decide)) hside (by decide)

/-- The message with the kind of the mistake in front. -/
theorem Diagnostic.TellsLines.isLine {d : Diagnostic} (h : d.TellsLines) :
    IsLine s!"{d.cause.kind}: {d.message}" := by
  have hkind : IsLine d.cause.kind := by
    unfold Cause.kind
    split <;> decide
  have htext : IsLine (d.cause.text ++ " (line ") :=
    Text.isLine_append (Cause.isLine_text h) (by decide)
  have hmessage : IsLine d.message := Text.isLine_between
    (Text.isLine_between htext (Text.isLine_toString_int d.position.line) (by decide))
      (Text.isLine_toString_int d.position.column) (by decide)
  exact Text.isLine_append (Text.isLine_append hkind (by decide)) hmessage

theorem tellsLines_unexpected {wanted : String} (h : IsLine wanted) (input : Tokens) :
    (input.unexpected wanted).TellsLines := List.forall_mem_singleton.mpr h

/-! ### Tokens -/

theorem tellsLines_of_scanString {opening p : Position} {cs : List Char} {fault : Diagnostic}
    (h : scanString opening p cs = .error fault) : fault.TellsLines := by
  have hwanted {wanted found : String} {q : Position} (hline : IsLine wanted) :
      (⟨.expected wanted found, q⟩ : Diagnostic).TellsLines := List.forall_mem_singleton.mpr hline
  fun_induction scanString opening p cs with
  | case1 =>
    cases h
    exact hwanted (by decide)
  | case2 => cases h
  | case3 =>
    cases h
    exact hwanted (by decide)
  | case4 =>
    cases h
    exact hwanted (by decide)
  | case5 p c rest d hd ih => exact ih (map_eq_error_iff.mp h)
  | case6 p c rest hquote hbackslash ih => exact ih (map_eq_error_iff.mp h)

namespace Tokens

/-- The words are lines, and so is what is told of a string that cannot be read. -/
def HasLines : Tokens → Prop
  | .finish _ => True
  | .broken _ fault => fault.TellsLines
  | .cons (.word name) _ rest => IsLine name ∧ rest.HasLines
  | .cons _ _ rest => rest.HasLines

theorem hasLines_ofChars (p : Position) (cs : List Char) : (ofChars p cs).HasLines := by
  -- a line break cannot stand in a word
  have hpart {c : Char} (hc : isWordPart c) : '\n' ≠ c := by
    rintro rfl
    exact absurd hc (by decide)
  fun_induction ofChars p cs with
  | case1 => trivial
  | case2 p c rest hblank ih => exact ih
  | case3 p c rest hblank hcomment ih => exact ih
  | case4 p c rest hblank hcomment hword more ih =>
    refine ⟨Text.isLine_ofList ?_, ih⟩
    rw [List.mem_cons, not_or]
    refine ⟨?_, fun hmore => hpart (List.mem_takeWhile_imp hmore) rfl⟩
    rintro rfl
    exact absurd hword (by decide)
  | case5 p rest fault hblank hcomment hword hs => exact tellsLines_of_scanString hs
  | case6 p rest s hblank hcomment hword hs ih => exact ih
  | case7 p c rest hblank hcomment hword hquote ih => exact ih

end Tokens

namespace Document

/-! ### Readers -/

/-- From tokens with words that are lines the reader gets something `good` and leaves such tokens,
or its fault tells lines. -/
def GetsLines {Q : Tokens → Tokens → Prop} (good : α → Prop)
    (read : (input : Tokens) → Except Diagnostic (α × {rest : Tokens // Q input rest})) : Prop :=
  ∀ input, input.HasLines →
    Yields (fun x => good x.1 ∧ x.2.val.HasLines) Diagnostic.TellsLines (read input)

section Readers

variable {input : Tokens} {wanted : String} {good : α → Prop}

theorem hasLines_of_mark? {c : Char} {rest : Rest input} (h : input.HasLines)
    (hm : mark? c input = some rest) : rest.val.HasLines := by
  unfold mark? at hm
  split at hm
  · split at hm
    · cases hm
      exact h
    · cases hm
  · cases hm

theorem yields_mark {c : Char} (hwanted : IsLine wanted) (h : input.HasLines) :
    Yields (fun rest => rest.val.HasLines) Diagnostic.TellsLines (mark c wanted input) := by
  unfold mark
  cases hm : mark? c input with
  | none => exact tellsLines_unexpected hwanted input
  | some rest => exact hasLines_of_mark? h hm

theorem getsLines_word (hwanted : IsLine wanted) : GetsLines IsLine (word wanted) := by
  rintro (_ | _ | ⟨name | _ | _, p, rest⟩) h
  case cons.word => exact h
  all_goals exact tellsLines_unexpected hwanted _

theorem getsLines_quote : GetsLines (fun _ => True) quote := by
  rintro (_ | _ | ⟨_ | content | _, p, rest⟩) h
  case broken => exact h
  case cons.quote => exact ⟨trivial, h⟩
  all_goals exact tellsLines_unexpected (by decide) _

theorem getsLines_side : GetsLines (fun _ => True) side := by
  intro input h
  refine (getsLines_word (by decide) input h).bind fun ⟨name, rest⟩ hrest => ?_
  dsimp only
  cases Side.named? name with
  | none => exact tellsLines_unexpected (by decide) input
  | some side => exact ⟨trivial, hrest.2⟩

theorem GetsLines.reading {good' : β → Prop} {read : Reader α} (h : GetsLines good read)
    {f : α → β} (hf : ∀ a, good a → good' (f a)) : GetsLines good' (reading f read) :=
  fun input hinput => (h input hinput).bind fun _ hx => ⟨hf _ hx.1, hx.2⟩

/-! ### Lists -/

theorem getsLines_items {close separator : Char} {item : σ → Reader (α × σ)}
    (hwanted : IsLine wanted) (hitem : ∀ s, GetsLines (fun x => good x.1) (item s)) (s : σ) :
    GetsLines (fun as => ∀ a ∈ as, good a) (items close separator wanted item s) := by
  intro input h
  -- on the tokens that are left, since every item takes some
  fun_induction items close separator wanted item s input with
  | case1 s input ih =>
    refine (hitem s input h).bind fun ⟨⟨a, s'⟩, rest⟩ ⟨ha, hrest⟩ => ?_
    dsimp only
    cases hclosed : mark? close rest.val with
    | some closed =>
      have hafter := hasLines_of_mark? hrest hclosed
      exact ⟨List.forall_mem_singleton.mpr ha, hafter⟩
    | none =>
      refine (yields_mark hwanted hrest).bind fun separated hseparated => ?_
      cases hlast : mark? close separated.val with
      | some closed =>
        have hafter := hasLines_of_mark? hseparated hlast
        exact ⟨List.forall_mem_singleton.mpr ha, hafter⟩
      | none =>
        refine (ih s' rest separated hseparated).bind fun _ hmore => ?_
        exact ⟨List.forall_mem_cons.mpr ⟨ha, hmore.1⟩, hmore.2⟩

theorem getsLines_block {item : Reader α} (hitem : GetsLines good item) :
    GetsLines (fun as => ∀ a ∈ as, good a) (block item) := by
  intro input h
  fun_induction block item input with
  | case1 input closed hclosed => exact ⟨by simp, hasLines_of_mark? h hclosed⟩
  | case2 input hclosed hend => exact tellsLines_unexpected (by decide) input
  | case3 input hclosed hend ih =>
    refine (hitem input h).bind fun ⟨a, rest⟩ ⟨ha, hrest⟩ => ?_
    refine (ih rest hrest).bind fun _ hmore => ?_
    exact ⟨List.forall_mem_cons.mpr ⟨ha, hmore.1⟩, hmore.2⟩

theorem getsLines_braced {item : Reader α} (hitem : GetsLines good item) :
    GetsLines (fun as => ∀ a ∈ as, good a) (braced item) := by
  intro input h
  refine (yields_mark (by decide) h).bind fun opened hopened => ?_
  exact (getsLines_block hitem opened.val hopened).bind fun _ hfound => hfound

end Readers

/-! ### Settings -/

section Settings

variable {s : SettingForm σ} {good : σ → Prop}

/-- The keys of a form are lines, and its values are good. -/
structure SettingForm.GetsLines (s : SettingForm σ) (good : σ → Prop) : Prop where
  wanted : IsLine s.wanted
  ofText (text : String) : good (s.ofText text)
  value {key : String} {read : Reader σ} (h : s.value? key = some read) :
    Document.GetsLines good read

theorem getsLines_setting (hs : s.GetsLines good) (bareText pairSeen : Bool) :
    GetsLines (fun x => good x.1.value) (s.setting bareText pairSeen) := by
  intro input h
  unfold SettingForm.setting
  split_ifs
  · exact tellsLines_unexpected hs.wanted input
  · exact fun _ hnone => absurd hnone List.not_mem_nil
  · exact (getsLines_quote input h).bind fun _ htext => ⟨hs.ofText _, htext.2⟩
  · refine (getsLines_word hs.wanted input h).bind fun ⟨key, rest⟩ ⟨_, hrest⟩ => ?_
    dsimp only
    cases hread : s.value? key with
    | none => exact tellsLines_unexpected hs.wanted input
    | some read =>
      refine (yields_mark (by decide) hrest).bind fun colon hcolon => ?_
      exact (hs.value hread colon.val hcolon).bind fun _ hvalue => hvalue

theorem getsLines_settings (hs : s.GetsLines good) (bareText : Bool) :
    GetsLines (fun l => ∀ a ∈ l, good a.value) (s.list bareText) := by
  intro input h
  refine (yields_mark (by decide) h).bind fun opened hopened => ?_
  dsimp only
  cases hclosed : mark? ')' opened.val with
  | some closed =>
    have hafter := hasLines_of_mark? hopened hclosed
    exact ⟨by simp, hafter⟩
  | none =>
    have hitem := getsLines_setting hs bareText
    exact (getsLines_items (by decide) hitem false opened.val hopened).bind fun _ hfound => hfound

theorem getsLines_settings? (hs : s.GetsLines good) :
    GetsLines (fun l => ∀ a ∈ l, good a.value) s.list? := by
  intro input h
  unfold SettingForm.list?
  split_ifs
  · exact (getsLines_settings hs true input h).bind fun _ hfound => hfound
  · exact ⟨by simp, h⟩

end Settings
end Document

/-! ### Links -/

/-- The label is a line. -/
def Destination.HasLines : Destination → Prop
  | .label name => IsLine name
  | .toward _ | .self => True

/-- The keyword is a line. -/
def LinkSetting.HasLines : LinkSetting → Prop
  | .arrowheads keyword => IsLine keyword
  | .text _ | .classes _ => True

structure LinkSpec.HasLines (spec : LinkSpec) : Prop where
  destination : spec.destination.HasLines
  settings : ∀ s ∈ spec.settings, s.value.HasLines

/-- The keyword is a line, and so are the words of the links. -/
def NodeSetting.HasLines : NodeSetting → Prop
  | .shape keyword => IsLine keyword
  | .connect specs => ∀ spec ∈ specs, spec.HasLines
  | .text _ | .classes _ => True

structure Occurrence.HasLines (cell : Occurrence) : Prop where
  label : ∀ name ∈ cell.label, IsLine name
  settings : ∀ s ∈ cell.settings, s.value.HasLines

structure Definition.HasLines (d : Definition) : Prop where
  identifier : IsLine d.identifier
  settings : ∀ s ∈ d.settings, s.value.HasLines

/-- The words of a document that messages tell are lines. -/
structure Document.HasLines (d : Document) : Prop where
  rows : ∀ row ∈ d.rows, ∀ cell ∈ row, ∀ o ∈ cell, o.HasLines
  definitions : ∀ e ∈ d.definitions, e.HasLines

namespace Document

theorem getsLines_destination : GetsLines Destination.HasLines destination := by
  intro input h
  unfold destination
  cases hlabel : mark? '#' input with
  | some rest =>
    exact (getsLines_word (by decide) rest.val (hasLines_of_mark? h hlabel)).bind fun _ hname =>
      hname
  | none =>
    dsimp only
    cases hat : mark? '@' input with
    | none => exact tellsLines_unexpected (by decide) input
    | some rest =>
      have hrest := hasLines_of_mark? h hat
      dsimp only
      split_ifs
      · exact (getsLines_side rest.val hrest).bind fun _ hside => hside
      · exact ⟨trivial, hrest⟩

theorem getsLines_linkSettings : linkSettings.GetsLines LinkSetting.HasLines where
  wanted := by decide
  ofText _ := trivial
  value {key read} h := by
    dsimp only [linkSettings] at h
    split_ifs at h <;> cases h
    · exact getsLines_quote.reading fun _ _ => trivial
    · exact getsLines_quote.reading fun _ _ => trivial
    · exact (getsLines_word (by decide)).reading fun _ => id

theorem getsLines_linkSpec : GetsLines LinkSpec.HasLines linkSpec := by
  intro input h
  refine (getsLines_side input h).bind fun ⟨_, rest⟩ ⟨_, hrest⟩ => ?_
  refine (yields_mark (by decide) hrest).bind fun colon hcolon => ?_
  refine (getsLines_side colon.val hcolon).bind fun ⟨_, afterSide⟩ ⟨_, hafterSide⟩ => ?_
  refine (getsLines_destination afterSide.val hafterSide).bind
    fun ⟨_, afterDestination⟩ ⟨hdestination, hafter⟩ => ?_
  exact (getsLines_settings? getsLines_linkSettings afterDestination.val hafter).bind
    fun _ hsettings => ⟨⟨hdestination, hsettings.1⟩, hsettings.2⟩

theorem getsLines_linkSpecs : GetsLines (fun specs => ∀ spec ∈ specs, spec.HasLines) linkSpecs := by
  intro input h
  unfold linkSpecs
  cases hopened : mark? '{' input with
  | none =>
    have hsingle : GetsLines (fun specs => ∀ spec ∈ specs, spec.HasLines)
        (reading (fun spec => [spec]) linkSpec) :=
      getsLines_linkSpec.reading fun _ hspec => List.forall_mem_singleton.mpr hspec
    exact hsingle input h
  | some opened =>
    have hinside := hasLines_of_mark? h hopened
    dsimp only
    cases hclosed : mark? '}' opened.val with
    | some closed =>
      have hafter := hasLines_of_mark? hinside hclosed
      exact ⟨by simp, hafter⟩
    | none =>
      have hitem (_ : Unit) :
          GetsLines (fun x => x.1.HasLines) (reading (fun spec => (spec, ())) linkSpec) :=
        getsLines_linkSpec.reading fun _ => id
      exact (getsLines_items (by decide) hitem () opened.val hinside).bind fun _ hspecs => hspecs

/-! ### Cells and definitions -/

theorem getsLines_nodeSettings : nodeSettings.GetsLines NodeSetting.HasLines where
  wanted := by decide
  ofText _ := trivial
  value {key read} h := by
    dsimp only [nodeSettings] at h
    split_ifs at h <;> cases h
    · exact getsLines_quote.reading fun _ _ => trivial
    · exact getsLines_quote.reading fun _ _ => trivial
    · exact (getsLines_word (by decide)).reading fun _ => id
    · exact getsLines_linkSpecs.reading fun _ => id

theorem getsLines_label? : GetsLines (fun label => ∀ name ∈ label, IsLine name) label? := by
  intro input h
  unfold label?
  cases hmark : mark? '#' input with
  | none => exact ⟨nofun, h⟩
  | some rest =>
    refine (getsLines_word (by decide) rest.val (hasLines_of_mark? h hmark)).bind fun _ hname => ?_
    exact ⟨by simpa using hname.1, hname.2⟩

theorem getsLines_cell : GetsLines (fun c => ∀ o ∈ c, o.HasLines) cell := by
  intro input h
  refine (getsLines_word (by decide) input h).bind fun ⟨identifier, rest⟩ ⟨_, hrest⟩ => ?_
  dsimp only
  split_ifs
  · exact tellsLines_unexpected (by decide) rest.val
  · exact ⟨nofun, hrest⟩
  · refine (getsLines_label? rest.val hrest).bind fun ⟨label, afterLabel⟩ ⟨hlabel, hafter⟩ => ?_
    refine (getsLines_settings? getsLines_nodeSettings afterLabel.val hafter).bind
      fun _ hsettings => ⟨?_, hsettings.2⟩
    rintro o ⟨⟩
    exact ⟨hlabel, hsettings.1⟩

theorem getsLines_row : GetsLines (fun cells => ∀ c ∈ cells, ∀ o ∈ c, o.HasLines) row :=
  getsLines_items (by decide) (fun _ => getsLines_cell.reading fun _ => id) ()

theorem getsLines_definition : GetsLines Definition.HasLines definition := by
  intro input h
  refine (getsLines_word (by decide) input h).bind fun ⟨identifier, rest⟩ ⟨hname, hrest⟩ => ?_
  dsimp only
  split_ifs
  · exact tellsLines_unexpected (by decide) input
  · refine (getsLines_settings getsLines_nodeSettings false rest.val hrest).bind
      fun ⟨settings, afterSettings⟩ ⟨hsettings, hafter⟩ => ?_
    exact (yields_mark (by decide) hafter).bind fun _ hlast => ⟨⟨hname, hsettings⟩, hlast⟩

/-! ### Documents -/

/-- The words of the blocks that messages tell are lines. -/
structure Blocks.HasLines (found : Blocks) : Prop where
  rows : ∀ rows ∈ found.rows, ∀ row ∈ rows, ∀ c ∈ row, ∀ o ∈ c, o.HasLines
  definitions : ∀ definitions ∈ found.definitions, ∀ d ∈ definitions, d.HasLines

theorem getsLines_anyBlock {found : Blocks} (hfound : found.HasLines) :
    GetsLines Blocks.HasLines (anyBlock found) := by
  intro input h
  refine (getsLines_word (by decide) input h).bind fun ⟨keyword, rest⟩ ⟨_, hrest⟩ => ?_
  dsimp only
  split_ifs
  · exact tellsLines_unexpected (by decide) input
  · refine (getsLines_braced getsLines_row rest.val hrest).bind fun _ hrows => ⟨⟨?_, ?_⟩, hrows.2⟩
    · rintro rows ⟨⟩
      exact hrows.1
    · exact hfound.definitions
  · exact tellsLines_unexpected (by decide) input
  · refine (getsLines_braced getsLines_definition rest.val hrest).bind
      fun _ hdefinitions => ⟨⟨hfound.rows, ?_⟩, hdefinitions.2⟩
    rintro definitions ⟨⟩
    exact hdefinitions.1
  · exact tellsLines_unexpected (by decide) input

theorem yields_ofTokens {found : Blocks} (hfound : found.HasLines) {input : Tokens}
    (h : input.HasLines) :
    Yields HasLines Diagnostic.TellsLines (ofTokens found input) := by
  fun_induction ofTokens found input with
  | case1 found input hend rows hrows =>
    refine ⟨hfound.rows rows hrows, ?_⟩
    cases hdefinitions : found.definitions with
    | none => simp
    | some definitions => exact hfound.definitions definitions hdefinitions
  | case2 found input hend hrows => exact tellsLines_unexpected (by decide) input
  | case3 found input hend ih =>
    exact (getsLines_anyBlock hfound input h).bind fun ⟨more, rest⟩ ⟨hmore, hrest⟩ =>
      ih more rest hmore hrest

/-- Reading a text gives words that are lines, or a message in one line. -/
theorem yields_read (text : String) :
    Yields HasLines Diagnostic.TellsLines (Document.read text) :=
  yields_ofTokens ⟨by simp, by simp⟩ (Tokens.hasLines_ofChars .start text.toList)

end Document

/-! ### Checks -/

namespace Draft

theorem yields_checkKeys {key : σ → String} (hkey : ∀ s, IsLine (key s))
    (settings : List (Located σ)) :
    Yields (fun _ => True) Diagnostic.TellsLines (checkKeys key settings) := by
  unfold checkKeys
  split
  · exact List.forall_mem_singleton.mpr (hkey _)
  · trivial

theorem yields_checkKeyword {key : String} {allowed : List String} {pick : σ → Option String}
    {settings : List (Located σ)} (hkey : IsLine key) (hallowed : ∀ s ∈ allowed, IsLine s)
    (hpick : ∀ s ∈ settings, ∀ k ∈ pick s.value, IsLine k) :
    Yields (fun _ => True) Diagnostic.TellsLines
      (checkKeyword key allowed (locate? pick settings)) := by
  unfold checkKeyword
  split
  · trivial
  · rename_i k hk
    split_ifs
    · trivial
    · obtain ⟨s, hs, hk⟩ := List.exists_of_findSome?_eq_some hk
      obtain ⟨keyword, hkeyword, rfl⟩ := Option.map_eq_some_iff.mp hk
      exact List.forall_mem_cons.mpr ⟨hkey, List.forall_mem_cons.mpr
        ⟨hpick s hs keyword hkeyword, hallowed⟩⟩

theorem yields_checkLink {spec : LinkSpec} (h : spec.HasLines) :
    Yields (fun _ => True) Diagnostic.TellsLines (checkLink spec) := by
  have hkey (s : LinkSetting) : IsLine s.key := by
    unfold LinkSetting.key
    split <;> decide
  refine (yields_checkKeys hkey spec.settings).bind fun _ _ => ?_
  refine yields_checkKeyword (by decide) (by decide) fun s hs k hk => ?_
  obtain ⟨value, position⟩ := s
  cases value <;> cases hk
  exact h.settings _ hs

theorem yields_checkLinks {specs : List LinkSpec} (h : ∀ spec ∈ specs, spec.HasLines) :
    Yields (fun _ => True) Diagnostic.TellsLines (checkLinks specs) := by
  induction specs with
  | nil => trivial
  | cons spec specs ih =>
    rw [List.forall_mem_cons] at h
    exact (yields_checkLink h.1).bind fun _ _ => ih h.2

theorem hasLines_of_connect? {settings : List (Located NodeSetting)}
    (h : ∀ s ∈ settings, s.value.HasLines) :
    ∀ spec ∈ (pick? NodeSetting.connect? settings).getD [], spec.HasLines := by
  cases hpick : pick? NodeSetting.connect? settings with
  | none => simp
  | some specs =>
    obtain ⟨⟨value, position⟩, hs, hspecs⟩ := List.exists_of_findSome?_eq_some hpick
    cases value <;> cases hspecs
    exact h _ hs

theorem yields_checkNode {settings : List (Located NodeSetting)}
    (h : ∀ s ∈ settings, s.value.HasLines) :
    Yields (fun _ => True) Diagnostic.TellsLines (checkNode settings) := by
  have hkey (s : NodeSetting) : IsLine s.key := by
    unfold NodeSetting.key
    split <;> decide
  refine (yields_checkKeys hkey settings).bind fun _ _ => ?_
  refine (yields_checkKeyword (by decide) (by decide) fun s hs k hk => ?_).bind fun _ _ =>
    yields_checkLinks (hasLines_of_connect? h)
  obtain ⟨value, position⟩ := s
  cases value <;> cases hk
  exact h _ hs

theorem yields_checkDefinitions {seen : List String} {definitions : List Definition}
    (h : ∀ d ∈ definitions, d.HasLines) :
    Yields (fun _ => True) Diagnostic.TellsLines (checkDefinitions seen definitions) := by
  induction definitions generalizing seen with
  | nil => trivial
  | cons d definitions ih =>
    rw [List.forall_mem_cons] at h
    unfold checkDefinitions
    split_ifs
    · exact List.forall_mem_singleton.mpr h.1.identifier
    · exact (yields_checkNode h.1.settings).bind fun _ _ => ih h.2

/-! ### Drafts -/

/-- The labels that messages tell are lines. -/
structure HasLines (d : Draft) : Prop where
  label : ∀ name ∈ d.label, IsLine name
  links : ∀ link ∈ d.links, link.destination.HasLines

theorem hasLines_ofOccurrence {base : List (Located NodeSetting)} {cell : Occurrence}
    (hbase : ∀ s ∈ base, s.value.HasLines) (hcell : cell.HasLines) (row col : Nat) :
    (ofOccurrence base row col cell).HasLines where
  label := hcell.label
  links := by
    have hmerged : ∀ s ∈ mergeSettings base cell.settings, s.value.HasLines := fun s hs =>
      (Keyed.mem_of_mem_merge hs).elim (hbase s) (hcell.settings s)
    intro link hlink
    obtain ⟨spec, hspec, rfl⟩ := List.mem_map.mp hlink
    exact (hasLines_of_connect? hmerged spec hspec).destination

end Draft

namespace Document

theorem hasLines_of_mem_defined {definitions : List Definition}
    (h : ∀ d ∈ definitions, d.HasLines) (identifier : String) :
    ∀ s ∈ Draft.defined definitions identifier, s.value.HasLines := by
  unfold Draft.defined
  cases hfind : definitions.find? fun d => d.identifier = identifier with
  | none => simp
  | some d => exact (h d (List.mem_of_find?_eq_some hfind)).settings

theorem yields_draftCells {definitions : List Definition} {cells : List (Nat × Nat × Occurrence)}
    (hdefinitions : ∀ d ∈ definitions, d.HasLines) (hcells : ∀ c ∈ cells, c.2.2.HasLines) :
    Yields (fun drafts => ∀ draft ∈ drafts, draft.HasLines) Diagnostic.TellsLines
      (draftCells definitions cells) := by
  induction cells with
  | nil => exact fun _ hnone => absurd hnone List.not_mem_nil
  | cons c cells ih =>
    obtain ⟨row, col, cell⟩ := c
    rw [List.forall_mem_cons] at hcells
    have hbase := hasLines_of_mem_defined hdefinitions cell.identifier
    refine (Draft.yields_checkNode hcells.1.settings).bind fun _ _ => ?_
    exact (ih hcells.2).bind fun drafts hdrafts => List.forall_mem_cons.mpr
      ⟨Draft.hasLines_ofOccurrence hbase hcells.1 row col, hdrafts⟩

theorem HasLines.yields_drafts {d : Document} (h : d.HasLines) :
    Yields (fun drafts => ∀ draft ∈ drafts, draft.HasLines) Diagnostic.TellsLines d.drafts := by
  refine (Draft.yields_checkDefinitions h.definitions).bind fun _ _ => ?_
  refine yields_draftCells h.definitions fun ⟨row, col, cell⟩ hcell => ?_
  obtain ⟨cells, hcells, hget⟩ := mem_occurrences.mp hcell
  exact h.rows cells (List.mem_of_getElem? hcells) _ (List.mem_of_getElem? hget) cell rfl

end Document

/-! ### Labels -/

theorem yields_labelsFrom {known : List (String × Nat)} {index : Nat} {drafts : List Draft}
    (h : ∀ d ∈ drafts, d.HasLines) :
    Yields (fun _ => True) Diagnostic.TellsLines (labelsFrom known index drafts) := by
  fun_induction labelsFrom known index drafts with
  | case1 => trivial
  | case2 known index d rest hlabel ih => exact ih (List.forall_mem_cons.mp h).2
  | case3 known index d rest name hlabel hknown =>
    exact List.forall_mem_singleton.mpr ((List.forall_mem_cons.mp h).1.label name hlabel)
  | case4 known index d rest name hlabel hknown ih => exact ih (List.forall_mem_cons.mp h).2

theorem yields_targetIndex {labels : List (String × Nat)} {grid : Grid Nat} {index : Nat}
    {d : Draft} {link : LinkDraft} (h : link.destination.HasLines) :
    Yields (fun _ => True) Diagnostic.TellsLines (targetIndex labels grid index d link) := by
  unfold targetIndex
  split
  · trivial
  · rename_i name hname
    rw [hname] at h
    split
    · trivial
    · exact List.forall_mem_singleton.mpr h
  · split
    · trivial
    · exact fun _ hnone => absurd hnone List.not_mem_nil

theorem yields_ofDrafts {drafts : List Draft} (h : ∀ d ∈ drafts, d.HasLines) (grid : Grid Nat) :
    Yields (fun _ => True) Diagnostic.TellsLines (Node.ofDrafts drafts grid) := by
  refine (yields_labelsFrom h).bind fun labels _ => ?_
  refine (Yields.mapM (r := fun _ _ => True) fun ⟨d, index⟩ hd => ?_).mono (fun _ _ => trivial)
    fun _ => id
  have hlinks := (h d (List.fst_mem_of_mem_zipIdx hd)).links
  refine (Yields.mapM (r := fun _ _ => True) fun link hlink => ?_).bind fun _ _ => trivial
  exact (yields_targetIndex (hlinks link hlink)).bind fun _ _ => trivial

/-! ### Texts -/

/-- The message about a mistake is a single line, whatever the text is. -/
theorem Mistake.isLine {text : String} {d : Diagnostic} (h : Mistake text d) :
    IsLine s!"{d.cause.kind}: {d.message}" := by
  refine Diagnostic.TellsLines.isLine ?_
  have hread := Document.yields_read text
  cases h with
  | reading failed =>
    rw [failed] at hread
    exact hread
  | drafting read failed =>
    rw [read] at hread
    have hdrafts := Document.HasLines.yields_drafts hread
    rw [failed] at hdrafts
    exact hdrafts
  | @linking _ _ grid _ read drafted placed failed =>
    rw [read] at hread
    have hdrafts := Document.HasLines.yields_drafts hread
    rw [drafted] at hdrafts
    have hnodes := yields_ofDrafts hdrafts grid
    rw [failed] at hnodes
    exact hnodes

end FlowGrid
