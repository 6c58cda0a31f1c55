/-! Places in a source text. A place counts the characters before it and names
its line and column from one; only a line feed starts a new line. -/

namespace FlowGrid

/-- A place in a text. -/
structure Position where
  offset : Nat
  line : Nat
  column : Nat
deriving DecidableEq, Repr, Inhabited

namespace Position

/-- The place before the first character. -/
def start : Position := ⟨0, 1, 1⟩

/-- The place after the character `c`. -/
def advance (p : Position) (c : Char) : Position :=
  if c = '\n' then ⟨p.offset + 1, p.line + 1, 1⟩ else ⟨p.offset + 1, p.line, p.column + 1⟩

/-- The place after all of `text`. -/
def advanceAll (p : Position) (text : List Char) : Position := text.foldl advance p

theorem advance_offset (p : Position) (c : Char) : (p.advance c).offset = p.offset + 1 := by
  unfold advance; split <;> rfl

theorem advanceAll_offset (p : Position) (text : List Char) :
    (p.advanceAll text).offset = p.offset + text.length := by
  induction text generalizing p with
  | nil => rfl
  | cons c rest ih =>
    rw [advanceAll, List.foldl_cons, ← advanceAll, ih, advance_offset, List.length_cons]
    omega

end Position

/-- A value with the place where its first token begins. -/
structure Located (α : Type) where
  value : α
  position : Position
deriving DecidableEq, Repr

end FlowGrid
