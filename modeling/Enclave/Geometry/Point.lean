/-!
# Coordinates and points

What the geometry of this library asks of a coordinate: sums, differences and products, halves, the
comparisons, and whether a value is finite. It is written once over any such type. `Float` is the
instance that runs, with the comparisons of doubles: one that is not a number is in no order with
any other, and the two zeros are equal. `Rat` is the exact instance, on which the rules of plane
geometry hold without rounding.

`least` and `greatest` choose between two coordinates; what is not a number gives way to the other.

A point of the world has two coordinates in the plane of the ground, `x` and `z`, and a height `y`.
A `Vertex` is a point of the ground plane alone.
-/

namespace Enclave

/-- A type of coordinates. -/
class Coordinate (α : Type) extends Add α, Sub α, Mul α, LE α, LT α, BEq α where
  /-- The coordinate of the origin. -/
  zero : α
  half : α → α
  isFinite : α → Bool
  decidableLE : DecidableLE α
  decidableLT : DecidableLT α

namespace Coordinate

variable {α : Type} [Coordinate α]

instance (priority := low) : DecidableLE α := decidableLE
instance (priority := low) : DecidableLT α := decidableLT

/-- Whether the coordinate is a number; one that is not differs from itself. -/
def isNumber (a : α) : Bool := a == a

/-- The lesser of two coordinates, the first if they are equal. -/
def least (a b : α) : α := if b < a then b else if isNumber a then a else b

/-- The greater of two coordinates, the first if they are equal. -/
def greatest (a b : α) : α := if a < b then b else if isNumber a then a else b

end Coordinate

/-- Doubles. -/
instance : Coordinate Float where
  zero := 0.0
  half := (· * 0.5)
  isFinite := Float.isFinite
  decidableLE := Float.decLe
  decidableLT := Float.decLt

/-- Exact rational coordinates, all of them finite. -/
instance : Coordinate Rat where
  zero := 0
  half := (· / 2)
  isFinite _ := true
  decidableLE := inferInstance
  decidableLT := inferInstance

/-! ## Points -/

/-- A point of the world; `y` is up. -/
structure Point (α : Type) where
  x : α
  y : α
  z : α
  deriving BEq

/-- A point of the ground plane. -/
structure Vertex (α : Type) where
  x : α
  z : α
  deriving BEq

namespace Point

variable {α : Type} [Coordinate α]

def origin : Point α := ⟨Coordinate.zero, Coordinate.zero, Coordinate.zero⟩

def isFinite (p : Point α) : Bool :=
  Coordinate.isFinite p.x && Coordinate.isFinite p.y && Coordinate.isFinite p.z

/-- The lesser of two points, axis by axis. -/
def least (p q : Point α) : Point α :=
  ⟨Coordinate.least p.x q.x, Coordinate.least p.y q.y, Coordinate.least p.z q.z⟩

/-- The greater of two points, axis by axis. -/
def greatest (p q : Point α) : Point α :=
  ⟨Coordinate.greatest p.x q.x, Coordinate.greatest p.y q.y, Coordinate.greatest p.z q.z⟩

/-- Whether no coordinate of `p` exceeds that of `q`. -/
def below (p q : Point α) : Bool := p.x ≤ q.x && p.y ≤ q.y && p.z ≤ q.z

end Point

end Enclave
