import FlowGrid.Geometry.Box

/-! Polylines: dropping points that do not bend them, and finding their middle. Points
closer than the tolerance on both axes count as one, and a part of a segment below it
as none. -/

namespace FlowGrid.Polyline

variable {α : Type} [Scalar α]

/-! ### Simplification -/

def samePoint (a b : Point α) : Bool :=
  Scalar.abs (a.x - b.x) < Scalar.tolerance && Scalar.abs (a.y - b.y) < Scalar.tolerance

/-- The sign of a difference, zero when it is below the tolerance. -/
def sign (d : α) : Int :=
  if Scalar.abs d < Scalar.tolerance then 0 else if ((0 : Int) : α) < d then 1 else -1

def direction (a b : Point α) : Int × Int := (sign (b.x - a.x), sign (b.y - a.y))

/-- Drops the points that repeat the last one kept, which is `kept`. -/
def dropRepeatsAfter (kept : Point α) : List (Point α) → List (Point α)
  | [] => []
  | p :: rest =>
    if samePoint kept p then dropRepeatsAfter kept rest else p :: dropRepeatsAfter p rest

def dropRepeats : List (Point α) → List (Point α)
  | [] => []
  | p :: rest => p :: dropRepeatsAfter p rest

/-- Of the points after `kept`, keeps the last one and those where the direction changes. -/
def cornersAfter (kept : Point α) : List (Point α) → List (Point α)
  | [] => []
  | [last] => [last]
  | b :: c :: rest =>
    if direction kept b = direction b c then cornersAfter kept (c :: rest)
    else b :: cornersAfter b (c :: rest)

/-- The polyline without repeated points and without points inside a straight run. -/
def simplify (points : List (Point α)) : List (Point α) :=
  match dropRepeats points with
  | [] => []
  | p :: rest => p :: cornersAfter p rest

/-! ### The middle -/

structure Segment (α : Type) where
  start : Point α
  finish : Point α
  length : α

def segment (a b : Point α) : Segment α :=
  ⟨a, b, Scalar.length (a.x - b.x) (a.y - b.y)⟩

def segments (points : List (Point α)) : List (Segment α) :=
  points.zipWith segment (points.drop 1)

/-- The point of a segment at the part `t` of its length. -/
def Segment.pointAt (s : Segment α) (t : α) : Point α :=
  ⟨s.start.x + (s.finish.x - s.start.x) * t, s.start.y + (s.finish.y - s.start.y) * t⟩

/-- The point at `distance` along the segments, or `last` when they are too short. -/
def pointAlong (last : Point α) (distance : α) : List (Segment α) → Point α
  | [] => last
  | s :: rest =>
    if ((0 : Int) : α) < s.length ∧ distance ≤ s.length then s.pointAt (distance / s.length)
    else pointAlong last (distance - s.length) rest

def totalLength (segments : List (Segment α)) : α :=
  segments.foldl (fun sum s => sum + s.length) ((0 : Int) : α)

/-- The point halfway along a polyline, measured by length. -/
def midpoint (points : List (Point α)) : Point α :=
  match points.getLast? with
  | none => ⟨((0 : Int) : α), ((0 : Int) : α)⟩
  | some last => pointAlong last (Scalar.half (totalLength (segments points))) (segments points)

end FlowGrid.Polyline
