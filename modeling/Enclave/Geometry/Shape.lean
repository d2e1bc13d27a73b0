import Enclave.Decimal
import Enclave.Geometry.Box
import Enclave.Geometry.Footprint

/-!
# Shapes

A region covers a box of the world, a polygon drawn on the ground
and carried up between two heights, or everything. All ranges
include their ends, so two regions that share an edge both cover it.

`Shape.fault?` says what keeps a shape from being used. A polygon needs three vertices, finite
coordinates, heights in order and some area; `Polygon.bounds` is the least box over it, by which
points and other shapes are turned away before the footprint is looked at.

A message names the corners of a box, and what is wrong with a box or a shape.
-/

namespace Enclave

/-- A footprint carried up from one height to another. -/
structure Polygon (α : Type) where
  vertices : List (Vertex α)
  bottom : α
  top : α
  deriving BEq

/-- The part of the world that a region covers. -/
inductive Shape (α : Type) where
  | cuboid (box : Box α)
  | polygon (polygon : Polygon α)
  /-- The whole world. -/
  | everywhere
  deriving BEq

/-- The kinds of shape. -/
inductive ShapeKind where
  | cuboid
  | polygon
  | global
  deriving DecidableEq, Repr

def ShapeKind.name : ShapeKind → String
  | cuboid => "cuboid"
  | polygon => "polygon"
  | global => "global"

/-- What keeps a shape from being used. -/
inductive ShapeFault (α : Type) where
  | cuboid (box : Box α) (fault : BoxFault)
  | tooFewVertices (count : Nat)
  | nonFinite
  | heightsInverted (bottom top : α)
  | noArea
  /-- A fault found by a caller, in the caller's words. -/
  | other (reason : String)

namespace Polygon

variable {α : Type} [Coordinate α]

/-- The first fault of a polygon, if any. -/
def fault? (p : Polygon α) : Option (ShapeFault α) :=
  if p.vertices.length < 3 then some (.tooFewVertices p.vertices.length)
  else if p.vertices.any (fun v => !Coordinate.isFinite v.x || !Coordinate.isFinite v.z) ||
      !Coordinate.isFinite p.bottom || !Coordinate.isFinite p.top then some .nonFinite
  else if p.top < p.bottom then some (.heightsInverted p.bottom p.top)
  else if Footprint.signedArea p.vertices == Coordinate.zero then some .noArea
  else none

/-- The polygon over the given vertices, refused with its first fault. -/
def make (vertices : List (Vertex α)) (bottom top : α) : Except (ShapeFault α) (Polygon α) :=
  let p : Polygon α := ⟨vertices, bottom, top⟩
  match p.fault? with
  | some fault => .error fault
  | none => .ok p

/-- The least box over the polygon. -/
def bounds (p : Polygon α) : Box α :=
  let first := p.vertices.head?.getD ⟨Coordinate.zero, Coordinate.zero⟩
  p.vertices.foldl (fun b v => (b.expand ⟨v.x, p.bottom, v.z⟩).expand ⟨v.x, p.top, v.z⟩)
    (.ofPoint ⟨first.x, p.bottom, first.z⟩)

def contains (p : Polygon α) (q : Point α) : Bool :=
  p.bounds.contains q && Footprint.encloses p.vertices ⟨q.x, q.z⟩

end Polygon

namespace Shape

variable {α : Type} [Coordinate α]

def kind : Shape α → ShapeKind
  | cuboid _ => .cuboid
  | polygon _ => .polygon
  | everywhere => .global

def isGlobal : Shape α → Bool
  | everywhere => true
  | _ => false

/-- The first fault of a shape, if any. -/
def fault? : Shape α → Option (ShapeFault α)
  | cuboid b => b.fault?.map (.cuboid b)
  | polygon p => p.fault?
  | everywhere => none

/-- The least box over the shape; the whole world has none. -/
def bounds? : Shape α → Option (Box α)
  | cuboid b => some b
  | polygon p => some p.bounds
  | everywhere => none

def contains : Shape α → Point α → Bool
  | cuboid b, p => b.contains p
  | polygon g, p => g.contains p
  | everywhere, _ => true

/-- The outline on the ground; the whole world has none. -/
def footprint : Shape α → Footprint α
  | cuboid b => [⟨b.lo.x, b.lo.z⟩, ⟨b.hi.x, b.lo.z⟩, ⟨b.hi.x, b.hi.z⟩, ⟨b.lo.x, b.hi.z⟩]
  | polygon p => p.vertices
  | everywhere => []

/-- Whether two cuboids are compared. -/
def bothCuboids : Shape α → Shape α → Bool
  | cuboid _, cuboid _ => true
  | _, _ => false

/-- Whether two shapes overlap, of which neither is the whole world. Their boxes must overlap, which
settles the heights; unless both are cuboids, their footprints must overlap too. -/
def intersects (s t : Shape α) : Bool :=
  match s.bounds?, t.bounds? with
  | some b, some c => b.intersects c && (bothCuboids s t || s.footprint.overlaps t.footprint)
  | _, _ => false

end Shape

/-! ## How faults are told -/

/-- The coordinates of a point, as a message names them. -/
def Point.describe (p : Point Float) : String :=
  let write := Decimal.Style.explicit.write
  s!"[{write p.x}, {write p.y}, {write p.z}]"

/-- The corners of a box, as a message names them. -/
def Box.describe (b : Box Float) : String :=
  s!"Aabb \x7b min: {b.lo.describe}, max: {b.hi.describe} \x7d"

def BoxFault.message : BoxFault → String
  | nonFinite => "non-finite coordinate"
  | inverted => "inverted axis"

/-- Why a box is refused. -/
def BoxFault.explain (fault : BoxFault) (b : Box Float) : String :=
  s!"invalid bounding box {b.describe}: {fault.message}"

def ShapeFault.message : ShapeFault Float → String
  | cuboid b fault => s!"cuboid: {fault.explain b}"
  | tooFewVertices count => s!"polygon needs at least 3 vertices, got {count}"
  | nonFinite => "polygon has a non-finite coordinate"
  | heightsInverted bottom top =>
    let write := Decimal.Style.plain.write
    s!"polygon min_y {write bottom} exceeds max_y {write top}"
  | noArea => "polygon footprint has zero area"
  | other reason => reason

end Enclave
