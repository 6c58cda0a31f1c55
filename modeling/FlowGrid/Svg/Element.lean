/-! Elements of markup and their text. Texts and attribute values are escaped as they are
written, except where an element asks for a value as it stands. -/

namespace FlowGrid.Svg

/-- The entity for a character that could be read as markup. -/
def entity? : Char → Option String
  | '&' => some "&amp;"
  | '<' => some "&lt;"
  | '>' => some "&gt;"
  | '"' => some "&quot;"
  | '\'' => some "&#39;"
  | _ => none

def escapeChar (c : Char) : String := (entity? c).getD c.toString

/-- A text in which no character can be read as markup. -/
def escape (s : String) : String := String.join (s.toList.map escapeChar)

inductive Attribute
  | plain (name value : String)
  /-- The value is written as it stands. -/
  | verbatim (name value : String)
deriving DecidableEq, Repr

def Attribute.write : Attribute → String
  | .plain name value => " " ++ name ++ "=\"" ++ escape value ++ "\""
  | .verbatim name value => " " ++ name ++ "=\"" ++ value ++ "\""

inductive Element
  | empty (tag : String) (attributes : List Attribute)
  | text (tag : String) (attributes : List Attribute) (content : String)
  /-- The children follow each other without a break. -/
  | joined (tag : String) (attributes : List Attribute) (children : List Element)
  /-- The children stand on lines of their own. -/
  | lines (tag : String) (attributes : List Attribute) (children : List Element)
  /-- Characters that are written as they stand. -/
  | verbatim (content : String)

namespace Element

/-- A tag with its attributes, without the brackets. -/
def head (tag : String) (attributes : List Attribute) : String :=
  tag ++ String.join (attributes.map Attribute.write)

def opening (tag : String) (attributes : List Attribute) : String :=
  "<" ++ head tag attributes ++ ">"

def closing (tag : String) : String := "</" ++ tag ++ ">"

mutual

def write : Element → String
  | .empty tag attributes => "<" ++ head tag attributes ++ " />"
  | .text tag attributes content => opening tag attributes ++ escape content ++ closing tag
  | .joined tag attributes children =>
    opening tag attributes ++ String.join (writeAll children) ++ closing tag
  | .lines tag attributes children =>
    "\n".intercalate (opening tag attributes :: writeAll children ++ [closing tag])
  | .verbatim content => content

def writeAll : List Element → List String
  | [] => []
  | e :: rest => write e :: writeAll rest

end

theorem writeAll_eq_map (es : List Element) : writeAll es = es.map write := by
  induction es with
  | nil => rfl
  | cons e rest ih => rw [writeAll, ih, List.map_cons]

end Element
end FlowGrid.Svg
