/-! The four sides of a cell. A side is also a direction: to the cell beyond it, and
outward along its normal. Columns and `x` grow to the east, rows and `y` to the
south. -/

namespace FlowGrid

inductive Side
  | north
  | south
  | west
  | east
deriving DecidableEq, Repr

namespace Side

def all : List Side := [.north, .south, .west, .east]

def name : Side → String
  | .north => "n"
  | .south => "s"
  | .west => "w"
  | .east => "e"

def named? (s : String) : Option Side := all.find? fun side => side.name == s

theorem named?_name (side : Side) : named? side.name = some side := by
  cases side <;> decide

/-- The column step toward the side, which is also the `x` part of its outward normal. -/
def dx : Side → Int
  | .north | .south => 0
  | .west => -1
  | .east => 1

/-- The row step toward the side, which is also the `y` part of its outward normal. -/
def dy : Side → Int
  | .north => -1
  | .south => 1
  | .west | .east => 0

/-- The normal of the side is vertical. -/
def isVertical : Side → Bool
  | .north | .south => true
  | .west | .east => false

end Side
end FlowGrid
