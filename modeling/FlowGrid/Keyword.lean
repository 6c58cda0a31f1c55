/-! The words that choose a node's outline and the ends of a link that carry an
arrowhead. -/

namespace FlowGrid

/-! ### Shapes -/

/-- The outline of a node. A shape of any other name is drawn as a rectangle. -/
inductive Shape
  | rect
  | square
  | ellipse
  | circle
  | diamond
  | angledSquare
  | other (name : String)
deriving DecidableEq, Repr

namespace Shape

/-- The shapes that have an outline of their own. -/
def all : List Shape := [.rect, .square, .ellipse, .circle, .diamond, .angledSquare]

def name : Shape → String
  | .rect => "rect"
  | .square => "square"
  | .ellipse => "ellipse"
  | .circle => "circle"
  | .diamond => "diamond"
  | .angledSquare => "angled_square"
  | .other name => name

def named? (s : String) : Option Shape := all.find? fun shape => shape.name == s

/-- The shape of a name, whatever the name. -/
def named (s : String) : Shape := (named? s).getD (.other s)

/-- Drawn inside the centered square of the cell. -/
def isSquared : Shape → Bool
  | .square | .circle | .angledSquare => true
  | _ => false

end Shape

/-! ### Arrowheads -/

/-- The ends of a link that carry an arrowhead. -/
inductive Arrowheads
  | none
  | start
  | finish
  | both
deriving DecidableEq, Repr

namespace Arrowheads

def all : List Arrowheads := [.none, .start, .finish, .both]

def name : Arrowheads → String
  | .none => "none"
  | .start => "start"
  | .finish => "end"
  | .both => "both"

def named? (s : String) : Option Arrowheads := all.find? fun a => a.name == s

def atStart : Arrowheads → Bool
  | .start | .both => true
  | _ => false

def atFinish : Arrowheads → Bool
  | .finish | .both => true
  | _ => false

end Arrowheads
end FlowGrid
