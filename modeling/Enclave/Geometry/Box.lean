import Enclave.Geometry.Point

/-!
# Boxes

A `Box` is what lies between two corners, its faces included. It is well formed when its coordinates
are finite and its low corner nowhere exceeds its high corner (`Box.fault?`); the relations below
are defined on every pair of corners all the same, and a box with a coordinate that is not a number
contains nothing.

`union` is the least box over two, `intersection?` the box of their common points if there are any.
-/

namespace Enclave

/-- The box between two corners. -/
structure Box (α : Type) where
  lo : Point α
  hi : Point α
  deriving BEq

/-- What keeps two corners from making a box. -/
inductive BoxFault where
  | nonFinite
  | inverted
  deriving DecidableEq, Repr

namespace Box

variable {α : Type} [Coordinate α]

/-- The first fault of a box, if any. -/
def fault? (b : Box α) : Option BoxFault :=
  if !(b.lo.isFinite && b.hi.isFinite) then some .nonFinite
  else if b.hi.x < b.lo.x || b.hi.y < b.lo.y || b.hi.z < b.lo.z then some .inverted
  else none

def isValid (b : Box α) : Bool := b.fault?.isNone

/-! ## Making boxes -/

/-- The box between two opposite corners, given in any order. -/
def ofCorners (p q : Point α) : Box α := ⟨p.least q, p.greatest q⟩

/-- The box of one point. -/
def ofPoint (p : Point α) : Box α := ⟨p, p⟩

/-- The box of the origin. -/
instance : Inhabited (Box α) := ⟨ofPoint .origin⟩

/-- The box grown to reach a point. -/
def expand (b : Box α) (p : Point α) : Box α := ⟨b.lo.least p, b.hi.greatest p⟩

/-- The least box over both. -/
def union (b c : Box α) : Box α := ⟨b.lo.least c.lo, b.hi.greatest c.hi⟩

/-- The box of the common points, if there are any. -/
def intersection? (b c : Box α) : Option (Box α) :=
  let lo := b.lo.greatest c.lo
  let hi := b.hi.least c.hi
  if lo.below hi then some ⟨lo, hi⟩ else none

/-- The least box over all the listed ones, if any are listed. -/
def cover? : List (Box α) → Option (Box α)
  | [] => none
  | b :: bs => some (bs.foldl union b)

/-! ## Relations -/

def contains (b : Box α) (p : Point α) : Bool :=
  b.lo.x ≤ p.x && p.x ≤ b.hi.x && b.lo.y ≤ p.y && p.y ≤ b.hi.y && b.lo.z ≤ p.z && p.z ≤ b.hi.z

/-- Whether both corners of `c` lie in `b`. -/
def containsBox (b c : Box α) : Bool := b.contains c.lo && b.contains c.hi

def intersects (b c : Box α) : Bool :=
  b.lo.x ≤ c.hi.x && c.lo.x ≤ b.hi.x && b.lo.y ≤ c.hi.y && c.lo.y ≤ b.hi.y &&
    b.lo.z ≤ c.hi.z && c.lo.z ≤ b.hi.z

/-! ## Measures -/

def center (b : Box α) : Point α :=
  ⟨Coordinate.half (b.lo.x + b.hi.x), Coordinate.half (b.lo.y + b.hi.y),
    Coordinate.half (b.lo.z + b.hi.z)⟩

/-- The lengths of the edges. -/
def size (b : Box α) : Point α := ⟨b.hi.x - b.lo.x, b.hi.y - b.lo.y, b.hi.z - b.lo.z⟩

def volume (b : Box α) : α := b.size.x * b.size.y * b.size.z

/-- The sum of the edge lengths. -/
def margin (b : Box α) : α := b.size.x + b.size.y + b.size.z

/-- The volume by which `b` would have to grow to cover `c`. -/
def enlargement (b c : Box α) : α := (b.union c).volume - b.volume

end Box

end Enclave
