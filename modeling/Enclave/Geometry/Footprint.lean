import Enclave.Geometry.Point

/-!
# Footprints

A footprint is a closed line through vertices of the ground plane, given by its list of vertices; it
may be of any form, and may cross itself. It encloses a point by the even-odd rule: a point on an
edge is enclosed, and any other if an odd number of edges pass below it.

An edge passes below a point when it spans the point's `x` and runs under it; it spans its ends half
open, so that the edges that meet in a vertex count it once.

Two footprints touch when an edge of one has a point in common with an edge of the other. Both tests
take each edge by itself, so neither depends on where the list of vertices starts.
-/

namespace Enclave

/-- The vertices of a closed line, in order. -/
abbrev Footprint (α : Type) := List (Vertex α)

namespace Footprint

variable {α : Type} [Coordinate α]

/-- The edges: each vertex with the next, and the last with the first. -/
def edges : Footprint α → List (Vertex α × Vertex α)
  | [] => []
  | v :: vs => (v :: vs).zip (vs ++ [v])

/-- The area enclosed, negative if the line runs the other way round. -/
def signedArea (f : Footprint α) : α :=
  Coordinate.half (f.edges.foldl (fun sum e => sum + (e.1.x * e.2.z - e.2.x * e.1.z))
    Coordinate.zero)

/-! ## Enclosing a point -/

/-- How an edge lies to a point. -/
inductive Passing where
  /-- The point is on the edge. -/
  | on
  /-- The edge passes below the point. -/
  | below
  /-- Neither. -/
  | clear
  deriving DecidableEq, Repr

/-- How an edge, its ends ordered by `x`, lies to a point. -/
def passingOrdered (a b p : Vertex α) : Passing :=
  if a.x ≤ p.x ∧ p.x ≤ b.x then
    let side := (p.z - a.z) * (b.x - a.x) - (b.z - a.z) * (p.x - a.x)
    if side == Coordinate.zero then
      if decide (a.z ≤ p.z) = decide (p.z ≤ b.z) then .on else .clear
    else if side < Coordinate.zero ∧ !(a.x == p.x) then .below
    else .clear
  else .clear

/-- How the edge from `u` to `v` lies to a point. -/
def passing (p : Vertex α) (u v : Vertex α) : Passing :=
  if v == p then .on
  else if u.x < v.x then passingOrdered u v p
  else passingOrdered v u p

/-- Whether the footprint encloses the point. -/
def encloses (f : Footprint α) (p : Vertex α) : Bool :=
  let passings := f.edges.map fun e => passing p e.1 e.2
  passings.contains .on || passings.count .below % 2 == 1

/-! ## Touching -/

/-- Positive, zero or negative as `c` lies to the one side, on, or to the other side of the line
from `a` to `b`. -/
def turn (a b c : Vertex α) : α := (b.x - a.x) * (c.z - a.z) - (b.z - a.z) * (c.x - a.x)

/-- Whether a point lies in the rectangle with the given corners. -/
def within (a b p : Vertex α) : Bool :=
  Coordinate.least a.x b.x ≤ p.x && p.x ≤ Coordinate.greatest a.x b.x &&
    Coordinate.least a.z b.z ≤ p.z && p.z ≤ Coordinate.greatest a.z b.z

/-- Whether one number is positive and the other negative. -/
def oppose (d d' : α) : Bool :=
  (Coordinate.zero < d && d' < Coordinate.zero) || (d < Coordinate.zero && Coordinate.zero < d')

/-- Whether two segments have a point in common. -/
def segmentsTouch (p p' q q' : Vertex α) : Bool :=
  let d₁ := turn q q' p
  let d₂ := turn q q' p'
  let d₃ := turn p p' q
  let d₄ := turn p p' q'
  (oppose d₁ d₂ && oppose d₃ d₄) ||
    (d₁ == Coordinate.zero && within q q' p) || (d₂ == Coordinate.zero && within q q' p') ||
    (d₃ == Coordinate.zero && within p p' q) || (d₄ == Coordinate.zero && within p p' q')

/-- Whether an edge of one footprint touches an edge of the other. -/
def edgesTouch (f g : Footprint α) : Bool :=
  f.edges.any fun e => g.edges.any fun d => segmentsTouch e.1 e.2 d.1 d.2

/-- Whether two footprints overlap: a vertex of one lies in the other, or edges touch. -/
def overlaps (f g : Footprint α) : Bool :=
  f.any (encloses g ·) || g.any (encloses f ·) || edgesTouch f g

end Footprint

end Enclave
