import FlowGrid.Diagnostic
import FlowGrid.Text.Blank

/-! The tokens of a source text: words, quoted strings, and single characters. Blanks
and comments, which run from two slashes to the end of the line, separate them. A
string that cannot be read ends the tokens; whether that is a mistake, or the
string is out of place anyway, is for the reader of the tokens to say. -/

namespace FlowGrid

inductive Token
  | word (name : String)
  | quote (content : String)
  | mark (c : Char)
deriving DecidableEq, Repr

/-- The tokens of a text, each with its place. -/
inductive Tokens
  | finish (position : Position)
  | broken (position : Position) (fault : Diagnostic)
  | cons (token : Token) (position : Position) (rest : Tokens)

/-! ### Characters of words -/

def isWordStart (c : Char) : Bool := c.isAlpha || c == '_'

def isWordPart (c : Char) : Bool := c.isAlphanum || c == '_'

/-! ### Strings -/

/-- The character that a letter stands for after a backslash. -/
def escaped? : Char → Option Char
  | '"' => some '"'
  | '\\' => some '\\'
  | 'n' => some '\n'
  | _ => none

/-- A string after its opening quote: its content, the characters after its closing quote
and their place. -/
structure Scanned where
  content : List Char
  rest : List Char
  position : Position

/-- Reads a string whose opening quote stands at `opening`, from `p` on. -/
def scanString (opening p : Position) : List Char → Except Diagnostic Scanned
  | [] => .error ⟨.expected "closing '\"'" "\"", opening⟩
  | '"' :: rest => .ok ⟨[], rest, p.advance '"'⟩
  | '\\' :: rest =>
    match rest with
    | [] => .error ⟨.expected "escape sequence (\\\", \\\\ or \\n)" "\\", p⟩
    | c :: rest =>
      match escaped? c with
      | none => .error ⟨.expected "escape sequence (\\\", \\\\ or \\n)" "\\", p⟩
      | some d =>
        (scanString opening ((p.advance '\\').advance c) rest).map fun s =>
          { s with content := d :: s.content }
  | c :: rest =>
    (scanString opening (p.advance c) rest).map fun s => { s with content := c :: s.content }

theorem scanString_shorter {opening p : Position} {cs : List Char} {s : Scanned}
    (h : scanString opening p cs = .ok s) : s.rest.length < cs.length := by
  fun_induction scanString opening p cs generalizing s with
  | case1 => cases h
  | case2 p rest =>
    cases h
    simp
  | case3 => cases h
  | case4 => cases h
  | case5 p c rest d _ ih =>
    cases hr : scanString opening ((p.advance '\\').advance c) rest with
    | error e => rw [hr] at h; cases h
    | ok r =>
      rw [hr] at h
      cases h
      have := ih hr
      simp only [List.length_cons]
      omega
  | case6 p c rest _ _ ih =>
    cases hr : scanString opening (p.advance c) rest with
    | error e => rw [hr] at h; cases h
    | ok r =>
      rw [hr] at h
      cases h
      have := ih hr
      simp only [List.length_cons]
      omega

/-! ### Texts -/

theorem length_dropWhile_le (f : Char → Bool) (cs : List Char) :
    (cs.dropWhile f).length ≤ cs.length :=
  (List.dropWhile_suffix f).length_le

namespace Tokens

/-- The tokens of the characters `cs`, which stand at `p`. -/
def ofChars (p : Position) (cs : List Char) : Tokens :=
  match cs with
  | [] => .finish p
  | c :: rest =>
    if isBlank c then ofChars (p.advance c) rest
    else if c = '/' ∧ rest.head? = some '/' then
      ofChars ((p.advance c).advanceAll (rest.takeWhile (· != '\n'))) (rest.dropWhile (· != '\n'))
    else if isWordStart c then
      let more := rest.takeWhile isWordPart
      .cons (.word (String.ofList (c :: more))) p
        (ofChars ((p.advance c).advanceAll more) (rest.dropWhile isWordPart))
    else if c = '"' then
      match _h : scanString p (p.advance c) rest with
      | .error fault => .broken p fault
      | .ok s => .cons (.quote (String.ofList s.content)) p (ofChars s.position s.rest)
    else .cons (.mark c) p (ofChars (p.advance c) rest)
termination_by cs.length
decreasing_by
  · simp
  · have := length_dropWhile_le (· != '\n') rest
    simp only [List.length_cons]
    omega
  · have := length_dropWhile_le isWordPart rest
    simp only [List.length_cons]
    omega
  · have := scanString_shorter ‹_›
    simp only [List.length_cons]
    omega
  · simp

def ofText (text : String) : Tokens := ofChars .start text.toList

/-! ### Looking ahead -/

def size : Tokens → Nat
  | .finish _ => 0
  | .broken .. => 0
  | .cons _ _ rest => rest.size + 1

/-- The place of the next token, or of the end. -/
def position : Tokens → Position
  | .finish p => p
  | .broken p _ => p
  | .cons _ p _ => p

/-- The next token, as far as a message shows it. -/
def found : Tokens → String
  | .finish _ => "end of input"
  | .broken .. => "\""
  | .cons (.word name) .. => name
  | .cons (.quote _) .. => "\""
  | .cons (.mark c) .. => c.toString

def atEnd : Tokens → Bool
  | .finish _ => true
  | _ => false

/-- A string comes next, be it readable or not. -/
def startsString : Tokens → Bool
  | .broken .. => true
  | .cons (.quote _) .. => true
  | _ => false

def startsWord : Tokens → Bool
  | .cons (.word _) .. => true
  | _ => false

def startsMark (c : Char) : Tokens → Bool
  | .cons (.mark d) .. => c == d
  | _ => false

/-- The diagnostic of a reader that wants something else here. -/
def unexpected (input : Tokens) (wanted : String) : Diagnostic :=
  ⟨.expected wanted input.found, input.position⟩

end Tokens
end FlowGrid
