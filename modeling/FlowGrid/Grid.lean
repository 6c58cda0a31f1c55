import FlowGrid.Side
import FlowGrid.Text.Quoted
import Std.Data.HashMap

/-! The grid as a store of values by cell. Cells outside its bounds stay empty. A chart
stores the index of the node that a cell holds. -/

namespace FlowGrid

/-- A grid with the values that its cells hold. -/
structure Grid (α : Type) where
  rows : Int
  cols : Int
  cells : Std.HashMap (Int × Int) α

/-- Why a grid refuses a request. -/
inductive GridFault
  | outside (row col rows cols : Int)
  | unknownDirection (name : String)
deriving DecidableEq, Repr

def GridFault.message : GridFault → String
  | .outside row col rows cols => s!"cell ({row}, {col}) is outside a {rows}x{cols} grid"
  | .unknownDirection name => Text.quoted name

namespace Grid

variable {α : Type}

def empty (rows cols : Int) : Grid α := ⟨rows, cols, ∅⟩

def inBounds (g : Grid α) (row col : Int) : Bool :=
  0 ≤ row && row < g.rows && 0 ≤ col && col < g.cols

def place (g : Grid α) (row col : Int) (value : α) : Except GridFault (Grid α) :=
  if g.inBounds row col then .ok { g with cells := g.cells.insert (row, col) value }
  else .error (.outside row col g.rows g.cols)

/-- The value in a cell; empty cells and those outside hold none. -/
def get? (g : Grid α) (row col : Int) : Option α := g.cells[(row, col)]?

/-- The value in the cell beyond a side of the given one. -/
def neighbor? (g : Grid α) (row col : Int) (side : Side) : Option α :=
  g.get? (row + side.dy) (col + side.dx)

/-- The value in the cell that lies in a direction given by name. -/
def neighborToward (g : Grid α) (row col : Int) (direction : String) :
    Except GridFault (Option α) :=
  match Side.named? direction with
  | some side => .ok (g.neighbor? row col side)
  | none => .error (.unknownDirection direction)

def size (g : Grid α) : Nat := g.cells.size

/-- Puts the nodes `index`, `index + 1`, … into the cells in turn. -/
def placeFrom (g : Grid Nat) (index : Nat) :
    List (Int × Int) → Except GridFault (Grid Nat)
  | [] => .ok g
  | (row, col) :: rest => do
    let placed ← g.place row col index
    placed.placeFrom (index + 1) rest

/-- A grid whose n-th listed cell holds the node n. -/
def ofPositions (positions : List (Int × Int)) (rows cols : Int) :
    Except GridFault (Grid Nat) :=
  (empty rows cols).placeFrom 0 positions

/-! ### The view by cell -/

theorem inBounds_iff (g : Grid α) (row col : Int) :
    g.inBounds row col = true ↔ 0 ≤ row ∧ row < g.rows ∧ 0 ≤ col ∧ col < g.cols := by
  simp [inBounds, and_assoc]

theorem get?_empty (rows cols row col : Int) :
    (empty rows cols : Grid α).get? row col = none := by
  simp [empty, get?]

theorem get?_of_place {g placed : Grid α} {row col : Int} {value : α}
    (h : g.place row col value = .ok placed) (r c : Int) :
    placed.get? r c = if row = r ∧ col = c then some value else g.get? r c := by
  unfold place at h
  split at h
  · cases h
    simp [get?, Std.HashMap.getElem?_insert]
  · cases h

end Grid
end FlowGrid
