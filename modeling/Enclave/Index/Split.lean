import Enclave.Index.Platform

/-!
# Splitting a node

A node that holds too much is split in two. The two items that would waste most
under one box become the seeds of two groups; then, one at a time, the item that
most prefers one group over the other is dealt to the group that grows less. A
group that would otherwise stay below the minimum takes all that is left.

Whatever the costs and however they compare, the two groups hold
exactly the items, and of at least `2 · min` items each gets at least `min`.
-/

namespace Enclave.Split

variable {α : Type}

/-- Items gathered under one box. -/
structure Group (α : Type) where
  box : Box Float
  items : List (Boxed α)

namespace Group

def seed (e : Boxed α) : Group α := ⟨e.box, [e]⟩

def add (g : Group α) (e : Boxed α) : Group α := ⟨g.box.union e.box, g.items ++ [e]⟩

def size (g : Group α) : Nat := g.items.length

end Group

/-! ## Seeds -/

/-- A pair of places in a list, the lesser first, and what their boxes waste together. -/
structure Pair where
  first : Nat
  second : Nat
  waste : Cost

/-- Every pair of places, in order. -/
def pairs (items : List (Boxed α)) : List Pair :=
  items.zipIdx.flatMap fun (e, i) =>
    (items.zipIdx.drop (i + 1)).map fun (d, j) => ⟨i, j, .waste e.box d.box⟩

/-- The first pair that wastes most. -/
def seeds [Platform] (items : List (Boxed α)) : Nat × Nat :=
  match pairs items with
  | [] => (0, 1)
  | p :: ps =>
    let worst := pick (fun p q => p.waste.compare q.waste == .gt) p ps
    (worst.first, worst.second)

/-! ## Dealing -/

/-- How strongly an item prefers one of two groups. -/
def preference (a b : Group α) (e : Boxed α) : Float :=
  let toA := Cost.growth a.box e.box
  let toB := Cost.growth b.box e.box
  (toA.volume - toB.volume).abs + (toA.margin - toB.margin).abs * epsilon
where
  /-- The distance from `1.0` to the next double. -/
  epsilon : Float := 2.220446049250313e-16

/-- The place of the first item whose preference is
strongest; the first place if none is a number. -/
def nextPlace (a b : Group α) (rest : List (Boxed α)) : Nat :=
  let ranked := rest.zipIdx.map fun (e, i) => (preference a b e, i)
  (pick (fun p q => q.1 < p.1) (-1.0 / 0.0, 0) ranked).2

/-- Whether an item goes to the first group: the one that grows less, then the smaller, then the one
with fewer items. -/
def prefersFirst [Platform] (a b : Group α) (e : Boxed α) : Bool :=
  match ((Cost.growth a.box e.box).compare (.growth b.box e.box)).then
      ((Cost.ofBox a.box).compare (.ofBox b.box)) with
  | .lt => true
  | .gt => false
  | .eq => a.size ≤ b.size

/-- Deals the items to two groups. -/
def deal [Platform] (min : Nat) (a b : Group α) (rest : List (Boxed α)) : Group α × Group α :=
  match _h : rest[nextPlace a b rest]? with
  | none => (a, b)
  | some e =>
    if a.size + rest.length ≤ min then (rest.foldl Group.add a, b)
    else if b.size + rest.length ≤ min then (a, rest.foldl Group.add b)
    else
      let left := swapRemove rest (nextPlace a b rest)
      if prefersFirst a b e then deal min (a.add e) b left else deal min a (b.add e) left
termination_by rest.length
decreasing_by
  all_goals
    have := (List.getElem?_eq_some_iff.mp _h).1
    rw [length_swapRemove]
    omega

/-- Splits items in two, those of the first seed first. -/
def split [Platform] (min : Nat) (items : List (Boxed α)) :
    List (Boxed α) × List (Boxed α) :=
  let (first, second) := seeds items
  match items[first]?, items[second]? with
  | some e, some d =>
    let (a, b) := deal min (.seed e) (.seed d) (swapRemove (swapRemove items second) first)
    (a.items, b.items)
  | _, _ => (items, [])

end Enclave.Split
