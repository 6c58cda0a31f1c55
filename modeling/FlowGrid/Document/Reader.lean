import FlowGrid.Document.Basic
import FlowGrid.Document.Token

/-! Reading tokens as a document. A source text is a `grid` block and at most one
`define` block, in any order; rows end in semicolons, cells are separated by commas,
and settings stand in parentheses. Every reader consumes at least one token and
returns the rest with a proof that it is smaller, so that lists of any length are
read by recursion on what is left. The first token that does not fit is reported. -/

namespace FlowGrid

/-! ### What is left -/

/-- The tokens after something was read. -/
abbrev Rest (input : Tokens) := { rest : Tokens // rest.size < input.size }

/-- The tokens after something that may be absent. -/
abbrev Remainder (input : Tokens) := { rest : Tokens // rest.size ≤ input.size }

namespace Rest

def trans {input : Tokens} (first : Rest input) (second : Rest first.val) : Rest input :=
  ⟨second.val, Nat.lt_trans second.property first.property⟩

def upTo {input : Tokens} (first : Rest input) (second : Remainder first.val) : Rest input :=
  ⟨second.val, Nat.lt_of_le_of_lt second.property first.property⟩

def toRemainder {input : Tokens} (rest : Rest input) : Remainder input :=
  ⟨rest.val, Nat.le_of_lt rest.property⟩

end Rest

/-- Nothing was read. -/
def Remainder.all (input : Tokens) : Remainder input := ⟨input, Nat.le_refl _⟩

/-- Reads an `α` off the front of the tokens, or says what was expected instead. -/
abbrev Reader (α : Type) := (input : Tokens) → Except Diagnostic (α × Rest input)

namespace Document

/-! ### Single tokens -/

/-- The tokens after the mark `c`, if it comes next. -/
def mark? (c : Char) (input : Tokens) : Option (Rest input) :=
  match input with
  | .cons (.mark d) _ rest => if c = d then some ⟨rest, Nat.lt_succ_self _⟩ else none
  | _ => none

/-- Requires the mark `c`; a message speaks of `wanted`. -/
def mark (c : Char) (wanted : String) (input : Tokens) : Except Diagnostic (Rest input) :=
  match mark? c input with
  | some rest => .ok rest
  | none => .error (input.unexpected wanted)

def word (wanted : String) : Reader String
  | .cons (.word name) _ rest => .ok (name, ⟨rest, Nat.lt_succ_self _⟩)
  | input => .error (input.unexpected wanted)

def quote : Reader String
  | .cons (.quote content) _ rest => .ok (content, ⟨rest, Nat.lt_succ_self _⟩)
  | .broken _ fault => .error fault
  | input => .error (input.unexpected "quoted string")

def side : Reader Side := fun input => do
  let (name, rest) ← word "side (n, s, w or e)" input
  match Side.named? name with
  | some side => pure (side, rest)
  | none => throw (input.unexpected "side (n, s, w or e)")

/-! ### Lists -/

/-- Reads items up to the mark `close`, with the mark `separator` between them and, at
will, after the last one. Each item passes a state on to the next. -/
def items {σ α : Type} (close separator : Char) (wanted : String) (item : σ → Reader (α × σ))
    (state : σ) (input : Tokens) : Except Diagnostic (List α × Rest input) := do
  let ((a, state), rest) ← item state input
  match mark? close rest.val with
  | some closed => pure ([a], rest.trans closed)
  | none =>
    let separated ← mark separator wanted rest.val
    match mark? close separated.val with
    | some closed => pure ([a], rest.trans (separated.trans closed))
    | none =>
      let (more, last) ← items close separator wanted item state separated.val
      pure (a :: more, rest.trans (separated.trans last))
termination_by input.size
decreasing_by
  have := rest.property
  have := separated.property
  omega

/-- Reads items up to a closing brace. -/
def block {α : Type} (item : Reader α) (input : Tokens) :
    Except Diagnostic (List α × Rest input) :=
  match mark? '}' input with
  | some closed => .ok ([], closed)
  | none =>
    if input.atEnd then .error (input.unexpected "\"\x7d\"")
    else do
      let (a, rest) ← item input
      let (more, last) ← block item rest.val
      pure (a :: more, rest.trans last)
termination_by input.size
decreasing_by exact rest.property

/-! ### Settings -/

/-- How the settings of one kind are read: their keys, the setting that a bare text
stands for, and the reader of the value that belongs to a key. -/
structure SettingForm (σ : Type) where
  keys : List String
  ofText : String → σ
  value? : String → Option (Reader σ)

namespace SettingForm

/-- What a message calls a missing key. -/
def wanted {σ : Type} (s : SettingForm σ) : String :=
  "attribute key (" ++ ", ".intercalate s.keys ++ ")"

/-- Reads a setting: a bare text where it is allowed and no pair came before, or a pair. -/
def setting {σ : Type} (s : SettingForm σ) (bareText : Bool) (pairSeen : Bool) :
    Reader (Located σ × Bool) := fun input =>
  if input.startsString then
    if !bareText then .error (input.unexpected s.wanted)
    else if pairSeen then .error ⟨.misplacedText, input.position⟩
    else do
      let (text, rest) ← quote input
      pure ((⟨s.ofText text, input.position⟩, pairSeen), rest)
  else do
    let (key, rest) ← word s.wanted input
    match s.value? key with
    | none => throw (input.unexpected s.wanted)
    | some value =>
      let colon ← mark ':' "\":\"" rest.val
      let (a, last) ← value colon.val
      pure ((⟨a, input.position⟩, true), rest.trans (colon.trans last))

/-- Reads settings in parentheses. -/
def list {σ : Type} (s : SettingForm σ) (bareText : Bool) : Reader (List (Located σ)) :=
  fun input => do
    let opened ← mark '(' "\"(\"" input
    match mark? ')' opened.val with
    | some closed => pure ([], opened.trans closed)
    | none =>
      let (found, last) ← items ')' ',' "\",\" or \")\"" (s.setting bareText) false opened.val
      pure (found, opened.trans last)

/-- Reads settings in parentheses, if a parenthesis comes next. -/
def list? {σ : Type} (s : SettingForm σ) (input : Tokens) :
    Except Diagnostic (List (Located σ) × Remainder input) :=
  if input.startsMark '(' then do
    let (found, rest) ← s.list true input
    pure (found, rest.toRemainder)
  else .ok ([], .all input)

end SettingForm

/-- Wraps what a reader reads. -/
def reading {α β : Type} (f : α → β) (read : Reader α) : Reader β := fun input => do
  let (a, rest) ← read input
  pure (f a, rest)

def linkSettings : SettingForm LinkSetting where
  keys := LinkSetting.keys
  ofText := .text
  value? key :=
    if key = "text" then some (reading .text quote)
    else if key = "class" then some (reading .classes quote)
    else if key = "arrowheads" then some (reading .arrowheads (word "arrowheads keyword"))
    else none

/-! ### Links -/

/-- Reads where a link leads: a label, a direction, or the node itself. -/
def destination : Reader Destination := fun input =>
  match mark? '#' input with
  | some rest => do
    let (name, last) ← word "label name" rest.val
    pure (.label name, rest.trans last)
  | none =>
    match mark? '@' input with
    | some rest =>
      if rest.val.startsWord then do
        let (toward, last) ← side rest.val
        pure (.toward toward, rest.trans last)
      else .ok (.self, rest)
    | none => .error (input.unexpected "\"#label\", \"@direction\" or \"@\"")

def linkSpec : Reader LinkSpec := fun input => do
  let (sourceSide, rest) ← side input
  let colon ← mark ':' "\":\"" rest.val
  let (targetSide, afterSide) ← side colon.val
  let (destination, afterDestination) ← destination afterSide.val
  let (settings, last) ← linkSettings.list? afterDestination.val
  pure (⟨sourceSide, targetSide, destination, settings, input.position⟩,
    rest.trans (colon.trans (afterSide.trans (afterDestination.upTo last))))

/-- Reads one link, or any number of them in braces. -/
def linkSpecs : Reader (List LinkSpec) := fun input =>
  match mark? '{' input with
  | none => reading (fun spec => [spec]) linkSpec input
  | some opened =>
    match mark? '}' opened.val with
    | some closed => .ok ([], opened.trans closed)
    | none => do
      let (specs, last) ←
        items '}' ';' "\";\" or \"\x7d\"" (fun (_ : Unit) => reading (·, ()) linkSpec) () opened.val
      pure (specs, opened.trans last)

/-! ### Cells and definitions -/

def nodeSettings : SettingForm NodeSetting where
  keys := NodeSetting.keys
  ofText := .text
  value? key :=
    if key = "text" then some (reading .text quote)
    else if key = "class" then some (reading .classes quote)
    else if key = "shape" then some (reading .shape (word "shape keyword"))
    else if key = "connect" then some (reading .connect linkSpecs)
    else none

/-- The word for an empty cell. -/
def emptyCell : String := "_"

/-- Reads a label, if a number sign comes next. -/
def label? (input : Tokens) : Except Diagnostic (Option String × Remainder input) :=
  match mark? '#' input with
  | none => .ok (none, .all input)
  | some rest => do
    let (name, last) ← word "label name" rest.val
    pure (some name, (rest.trans last).toRemainder)

def cell : Reader Cell := fun input => do
  let (identifier, rest) ← word "node identifier or \"_\"" input
  if identifier = emptyCell then
    if rest.val.startsMark '#' || rest.val.startsMark '(' then
      throw (rest.val.unexpected "\",\" or \";\" after empty cell \"_\"")
    else pure (none, rest)
  else
    let (label, afterLabel) ← label? rest.val
    let named := rest.upTo afterLabel
    let (settings, last) ← nodeSettings.list? named.val
    pure (some ⟨identifier, label, settings, input.position⟩, named.upTo last)

def row : Reader (List Cell) :=
  items ';' ',' "\",\" or \";\"" (fun (_ : Unit) => reading (·, ()) cell) ()

def definition : Reader Definition := fun input => do
  let (identifier, rest) ← word "node identifier" input
  if identifier = emptyCell then throw (input.unexpected "node identifier other than \"_\"")
  else
    let (settings, afterSettings) ← nodeSettings.list false rest.val
    let last ← mark ';' "\";\"" afterSettings.val
    pure (⟨identifier, settings, input.position⟩, rest.trans (afterSettings.trans last))

/-! ### Documents -/

/-- Reads the items of a block in braces. -/
def braced {α : Type} (item : Reader α) : Reader (List α) := fun input => do
  let opened ← mark '{' "\"\x7b\"" input
  let (found, last) ← block item opened.val
  pure (found, opened.trans last)

/-- The blocks read so far. -/
structure Blocks where
  rows : Option (List (List Cell))
  definitions : Option (List Definition)

/-- Reads one more block, which has to be of a kind not read yet. -/
def anyBlock (found : Blocks) : Reader Blocks := fun input => do
  let (keyword, rest) ← word "\"grid\" or \"define\"" input
  if keyword = "grid" then
    if found.rows.isSome then throw (input.unexpected "a single grid block")
    else
      let (rows, last) ← braced row rest.val
      pure ({ found with rows := some rows }, rest.trans last)
  else if keyword = "define" then
    if found.definitions.isSome then throw (input.unexpected "a single define block")
    else
      let (definitions, last) ← braced definition rest.val
      pure ({ found with definitions := some definitions }, rest.trans last)
  else throw (input.unexpected "\"grid\" or \"define\"")

/-- Reads blocks to the end; there has to be a grid. -/
def ofTokens (found : Blocks) (input : Tokens) : Except Diagnostic Document :=
  if input.atEnd then
    match found.rows with
    | some rows => .ok ⟨rows, found.definitions.getD []⟩
    | none => .error (input.unexpected "\"grid\" block")
  else do
    let (found, rest) ← anyBlock found input
    ofTokens found rest.val
termination_by input.size
decreasing_by exact rest.property

/-- The document that a text spells. -/
def read (text : String) : Except Diagnostic Document := ofTokens ⟨none, none⟩ (.ofText text)

end Document
end FlowGrid
