import FlowGrid.Document.Token

/-! Reading markup. The reader knows tags with quoted attributes, references to characters,
character data, and sections of character data that are marked as such; it takes the characters
themselves as they are. It finds one element, or nothing if anything is out of place: tags that
do not match, attributes that are given twice, a bare `<` or `&`, or the end of a marked section
outside of one. -/

namespace FlowGrid.Markup

/-- What an element holds: other elements, and the text between them. -/
inductive Node
  | element (tag : String) (attributes : List (String × String)) (children : List Node)
  | text (content : String)

/-! ### References -/

def digit? (base : Nat) (c : Char) : Option Nat :=
  let value :=
    if c.isDigit then c.toNat - '0'.toNat
    else if 'a' ≤ c ∧ c ≤ 'f' then c.toNat - 'a'.toNat + 10
    else if 'A' ≤ c ∧ c ≤ 'F' then c.toNat - 'A'.toNat + 10
    else base
  if value < base then some value else none

/-- The character whose number is written with the digits of a base. -/
def numbered? (base : Nat) (digits : List Char) : Option Char := do
  let n ← digits.foldlM (fun n c => (digit? base c).map (base * n + ·)) 0
  if digits ≠ [] ∧ n.isValidChar then some (Char.ofNat n) else none

/-- The character that a name between `&` and `;` refers to. -/
def referenced? : List Char → Option Char
  | ['a', 'm', 'p'] => some '&'
  | ['l', 't'] => some '<'
  | ['g', 't'] => some '>'
  | ['q', 'u', 'o', 't'] => some '"'
  | ['a', 'p', 'o', 's'] => some '\''
  | '#' :: 'x' :: digits => numbered? 16 digits
  | '#' :: digits => numbered? 10 digits
  | _ => none

/-- Reads the rest of a reference, after its `&`. -/
def reference? (cs : List Char) : Option (Char × List Char) :=
  match cs.dropWhile (· ≠ ';') with
  | [] => none
  | _ :: rest => (referenced? (cs.takeWhile (· ≠ ';'))).map (·, rest)

theorem reference?_shorter {cs rest : List Char} {c : Char}
    (h : reference? cs = some (c, rest)) : rest.length < cs.length := by
  unfold reference? at h
  split at h
  · cases h
  · rename_i tail hdrop
    obtain ⟨_, -, heq⟩ := Option.map_eq_some_iff.mp h
    cases heq
    have hle := length_dropWhile_le (· ≠ ';') cs
    rw [hdrop, List.length_cons] at hle
    omega

/-- The value that stands between the quotes of an attribute. -/
def decode? (cs : List Char) : Option (List Char) :=
  match cs with
  | [] => some []
  | c :: cs =>
    if c = '<' then none
    else if c = '&' then
      match _h : reference? cs with
      | none => none
      | some (d, rest) => (decode? rest).map (d :: ·)
    else (decode? cs).map (c :: ·)
termination_by cs.length
decreasing_by
  · have := reference?_shorter ‹_›
    simp only [List.length_cons]
    omega
  · simp

/-! ### Tags -/

def isSpace (c : Char) : Bool := c = ' ' || c = '\t' || c = '\n' || c = '\r'

def isNamePart (c : Char) : Bool :=
  c.isAlphanum || c = '_' || c = ':' || c = '-' || c = '.' || 0x80 ≤ c.toNat

def isNameStart (c : Char) : Bool := isNamePart c && !(c.isDigit || c = '-' || c = '.')

/-- Reads a name as far as it goes. -/
def name? : List Char → Option (String × List Char)
  | [] => none
  | c :: cs =>
    if isNameStart c then
      some (String.ofList (c :: cs.takeWhile isNamePart), cs.dropWhile isNamePart)
    else none

theorem name?_shorter {cs rest : List Char} {name : String} (h : name? cs = some (name, rest)) :
    rest.length < cs.length := by
  unfold name? at h
  split at h
  · cases h
  · rename_i c cs
    split at h
    · cases h
      have := length_dropWhile_le isNamePart cs
      simp only [List.length_cons]
      omega
    · cases h

/-- Reads a value between quotes of one of the two kinds. -/
def value? : List Char → Option (String × List Char)
  | [] => none
  | q :: cs =>
    if q = '"' ∨ q = '\'' then
      match cs.dropWhile (· ≠ q) with
      | [] => none
      | _ :: rest => (decode? (cs.takeWhile (· ≠ q))).map (String.ofList ·, rest)
    else none

theorem value?_shorter {cs rest : List Char} {value : String}
    (h : value? cs = some (value, rest)) : rest.length < cs.length := by
  unfold value? at h
  split at h
  · cases h
  · rename_i q cs
    split at h
    · split at h
      · cases h
      · rename_i tail hdrop
        obtain ⟨_, -, heq⟩ := Option.map_eq_some_iff.mp h
        cases heq
        have hle := length_dropWhile_le (· ≠ q) cs
        rw [hdrop, List.length_cons] at hle
        simp only [List.length_cons]
        omega
    · cases h

/-- Reads a name and a value with an equals sign between them. -/
def attribute? (cs : List Char) : Option ((String × String) × List Char) := do
  let (name, cs) ← name? cs
  match cs.dropWhile isSpace with
  | '=' :: cs =>
    let (value, cs) ← value? (cs.dropWhile isSpace)
    some ((name, value), cs)
  | _ => none

theorem attribute?_shorter {cs rest : List Char} {pair : String × String}
    (h : attribute? cs = some (pair, rest)) : rest.length < cs.length := by
  obtain ⟨⟨name, tail⟩, hname, h⟩ := Option.bind_eq_some_iff.mp h
  have hshort := name?_shorter hname
  dsimp only at h
  split at h
  · rename_i cs' hdrop
    obtain ⟨⟨value, last⟩, hvalue, heq⟩ := Option.bind_eq_some_iff.mp h
    cases heq
    have hlast := value?_shorter hvalue
    have hle := length_dropWhile_le isSpace cs'
    have hle' := length_dropWhile_le isSpace tail
    rw [hdrop, List.length_cons] at hle'
    dsimp only
    omega
  · cases h

/-- Reads the rest of a tag after its name: attributes, each after a space, and the end. The
answer tells as well whether the end was that of an element without content. -/
def attributes? (cs : List Char) : Option (List (String × String) × Bool × List Char) :=
  match cs.dropWhile isSpace with
  | '>' :: rest => some ([], false, rest)
  | '/' :: '>' :: rest => some ([], true, rest)
  | _ =>
    if cs.head?.any isSpace then
      match _h : attribute? (cs.dropWhile isSpace) with
      | none => none
      | some (pair, rest) =>
        (attributes? rest).map fun (more, last) => (pair :: more, last)
    else none
termination_by cs.length
decreasing_by
  have := attribute?_shorter ‹_›
  have := length_dropWhile_le isSpace cs
  omega

theorem attributes?_shorter {cs rest : List Char} {attributes : List (String × String)}
    {isEmpty : Bool} (h : attributes? cs = some (attributes, isEmpty, rest)) :
    rest.length < cs.length := by
  fun_induction attributes? cs generalizing attributes with
  | case1 cs tail hdrop =>
    cases h
    have hle := length_dropWhile_le isSpace cs
    rw [hdrop, List.length_cons] at hle
    omega
  | case2 cs tail hdrop =>
    cases h
    have hle := length_dropWhile_le isSpace cs
    rw [hdrop, List.length_cons, List.length_cons] at hle
    omega
  | case3 => cases h
  | case4 cs _ pair tail hpair _ _ ih =>
    obtain ⟨⟨more, isEmpty', last⟩, hmore, heq⟩ := Option.map_eq_some_iff.mp h
    cases heq
    have hlast := ih hmore
    have hshort := attribute?_shorter hpair
    have hle := length_dropWhile_le isSpace cs
    omega
  | case5 => cases h

/-! ### Tokens -/

inductive Token
  | opening (tag : String) (attributes : List (String × String))
  | closing (tag : String)
  /-- An element without content. -/
  | empty (tag : String) (attributes : List (String × String))
  /-- Character data. -/
  | data (content : List Char)

/-- Reads character data up to the end of a marked section. -/
def marked? : List Char → Option (List Char × List Char)
  | [] => none
  | ']' :: ']' :: '>' :: rest => some ([], rest)
  | c :: cs => (marked? cs).map fun (content, rest) => (c :: content, rest)

theorem marked?_shorter {cs rest content : List Char}
    (h : marked? cs = some (content, rest)) : rest.length < cs.length := by
  fun_induction marked? cs generalizing content with
  | case1 => cases h
  | case2 rest =>
    cases h
    simp only [List.length_cons]
    omega
  | case3 c cs _ ih =>
    obtain ⟨⟨_, _⟩, hmarked, heq⟩ := Option.map_eq_some_iff.mp h
    cases heq
    exact Nat.lt_succ_of_lt (ih hmarked)

/-- Reads a tag that opens an element, after its `<`. -/
def opening? (cs : List Char) : Option (Token × List Char) := do
  let (tag, cs) ← name? cs
  let (attributes, isEmpty, rest) ← attributes? cs
  if (attributes.map Prod.fst).Nodup then
    some (if isEmpty then .empty tag attributes else .opening tag attributes, rest)
  else none

/-- Reads a tag that closes an element, after its `</`. -/
def closing? (cs : List Char) : Option (Token × List Char) := do
  let (tag, cs) ← name? cs
  match cs.dropWhile isSpace with
  | '>' :: rest => some (.closing tag, rest)
  | _ => none

/-- Reads one token. Character data is read by single characters, but for marked sections. -/
def token? : List Char → Option (Token × List Char)
  | [] => none
  | '<' :: '!' :: '[' :: 'C' :: 'D' :: 'A' :: 'T' :: 'A' :: '[' :: cs =>
    (marked? cs).map fun (content, rest) => (.data content, rest)
  | '<' :: '/' :: cs => closing? cs
  | '<' :: cs => opening? cs
  | '&' :: cs => (reference? cs).map fun (c, rest) => (.data [c], rest)
  | ']' :: ']' :: '>' :: _ => none
  | c :: cs => some (.data [c], cs)

theorem token?_shorter {cs rest : List Char} {t : Token} (h : token? cs = some (t, rest)) :
    rest.length < cs.length := by
  unfold token? at h
  split at h
  · cases h
  · obtain ⟨⟨_, _⟩, hmarked, heq⟩ := Option.map_eq_some_iff.mp h
    cases heq
    have := marked?_shorter hmarked
    simp only [List.length_cons]
    omega
  · obtain ⟨⟨_, tail⟩, hname, h⟩ := Option.bind_eq_some_iff.mp h
    have hshort := name?_shorter hname
    have hle := length_dropWhile_le isSpace tail
    dsimp only at h
    split at h
    · rename_i last hdrop
      cases h
      rw [hdrop, List.length_cons] at hle
      simp only [List.length_cons]
      omega
    · cases h
  · obtain ⟨⟨_, tail⟩, hname, h⟩ := Option.bind_eq_some_iff.mp h
    obtain ⟨⟨attributes, isEmpty, last⟩, hattributes, h⟩ := Option.bind_eq_some_iff.mp h
    have hshort := name?_shorter hname
    have hlast := attributes?_shorter hattributes
    dsimp only at h hlast
    split at h
    · cases h
      simp only [List.length_cons]
      omega
    · cases h
  · obtain ⟨⟨_, _⟩, hreference, heq⟩ := Option.map_eq_some_iff.mp h
    cases heq
    exact Nat.lt_succ_of_lt (reference?_shorter hreference)
  · cases h
  · cases h
    simp

/-! ### Elements -/

/-- An element that has not been closed yet, with what the element around it holds before it,
the last first. -/
structure Frame where
  tag : String
  attributes : List (String × String)
  before : List Node

/-- What has been read of the innermost open element, the last first, and the open elements,
the innermost first. -/
structure Progress where
  nodes : List Node
  frames : List Frame

namespace Progress

def start : Progress := ⟨[], []⟩

def add (p : Progress) (node : Node) : Progress := { p with nodes := node :: p.nodes }

/-- Adds character data, which goes on with the text that was read last, if there is one. -/
def addData (p : Progress) (content : List Char) : Progress :=
  match p.nodes with
  | .text before :: rest => { p with nodes := .text (before ++ String.ofList content) :: rest }
  | _ => if content.isEmpty then p else p.add (.text (String.ofList content))

def take? (p : Progress) : Token → Option Progress
  | .opening tag attributes => some ⟨[], ⟨tag, attributes, p.nodes⟩ :: p.frames⟩
  | .empty tag attributes => some (p.add (.element tag attributes []))
  | .data content => some (p.addData content)
  | .closing tag =>
    match p.frames with
    | [] => none
    | f :: frames =>
      if tag = f.tag then some ⟨.element f.tag f.attributes p.nodes.reverse :: f.before, frames⟩
      else none

/-- Takes all tokens of a text. -/
def run (p : Progress) (cs : List Char) : Option Progress :=
  match cs with
  | [] => some p
  | c :: cs =>
    match _h : token? (c :: cs) with
    | none => none
    | some (t, rest) =>
      match p.take? t with
      | none => none
      | some p => p.run rest
termination_by cs.length
decreasing_by exact token?_shorter ‹_›

theorem run_of_token? {p q : Progress} {cs rest : List Char} {t : Token}
    (ht : token? cs = some (t, rest)) (hq : p.take? t = some q) : p.run cs = q.run rest := by
  cases cs with
  | nil => cases ht
  | cons c cs =>
    rw [run]
    split
    · rename_i h
      cases h.symm.trans ht
    · rename_i h
      cases h.symm.trans ht
      rw [hq]

end Progress

def Node.isSpace : Node → Bool
  | .element .. => false
  | .text content => content.toList.all Markup.isSpace

/-- The element that a text consists of; space may stand around it. -/
def read (text : String) : Option Node :=
  match Progress.start.run text.toList with
  | some ⟨nodes, []⟩ =>
    match nodes.reverse.filter (!·.isSpace) with
    | [.element tag attributes children] => some (.element tag attributes children)
    | _ => none
  | _ => none

end FlowGrid.Markup
