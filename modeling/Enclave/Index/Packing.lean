import Enclave.Index.Growth

/-!
# Packing

Many entries at once are packed into as few nodes as can hold them. They are sorted along `x` and
cut into slabs, each slab is sorted along `y` and cut into columns, each column along `z` and cut
into nodes; then the nodes are packed in the same way, until one node can hold what is left.

The sizes of the nodes of a level are fixed beforehand and differ by at most one, so that none stays
below half of the maximum. Slabs and columns are runs of these sizes, and everything is cut by them:
what is packed is a rearrangement of the entries, however many slabs there are.

The height is counted along: one level for the leaves, one for each round of packing, and one for the
root, unless a single node is left, which then is the root itself.
-/

namespace Enclave.Packing

variable {α κ : Type}

/-! ## Sizes -/

/-- The quotient rounded up. -/
def ceilDiv (n d : Nat) : Nat := (n + d - 1) / d

/-- Sizes of at most `max` for `count` items, as few as can
be and as even as can be, the greater first. -/
def evenSizes (count max : Nat) : List Nat :=
  let groups := Nat.max (ceilDiv count max) 1
  List.replicate (count % groups) (count / groups + 1) ++
    List.replicate (groups - count % groups) (count / groups)

/-- A list cut into runs of `length` items, at least one; the last run may be shorter. -/
def chunks (length : Nat) (items : List α) : List (List α) :=
  if _h : items = [] then []
  else items.take (Nat.max length 1) :: chunks length (items.drop (Nat.max length 1))
termination_by items.length
decreasing_by
  have := List.length_pos_iff.mpr _h
  have : 1 ≤ Nat.max length 1 := Nat.le_max_right _ _
  rw [List.length_drop]
  omega

/-- Sizes cut into at most `parts` runs of equal length, the last perhaps shorter. -/
def runs (parts : Nat) (sizes : List Nat) : List (List Nat) :=
  chunks (ceilDiv sizes.length (Nat.max parts 1)) sizes

/-- The slabs into which `groups` nodes are cut along each
axis, at least one: their cube root, rounded up. -/
def slabCount [Platform] (groups : Nat) : Nat := Nat.max (Platform.cubeRoot groups) 1

/-! ## Cutting -/

/-- Twice the middle of a box along an axis; only its order matters. -/
def middle (axis : Point Float → Float) (e : Boxed α) : Float := axis e.box.lo + axis e.box.hi

/-- The items in the order of their middles, equal ones as they stood. -/
def sortAlong (axis : Point Float → Float) (items : List (Boxed α)) : List (Boxed α) :=
  items.mergeSort fun e d => (place e).totalCompare (place d) != .gt
where
  place (e : Boxed α) : Double := .ofFloat (middle axis e)

/-- A list cut into pieces of the given lengths. -/
def cut : List Nat → List α → List (List α)
  | [], _ => []
  | size :: sizes, items => items.take size :: cut sizes (items.drop size)

/-- Each run of sizes with the piece of a list that it is for. -/
def share (sizes : List (List Nat)) (items : List α) : List (List Nat × List α) :=
  sizes.zip (cut (sizes.map fun run => run.foldr (· + ·) 0) items)

/-- Packs items into groups of the given sizes, with the given number of slabs along each axis. -/
def tile (slabs : Nat) (sizes : List Nat) (items : List (Boxed α)) : List (List (Boxed α)) :=
  (share (runs slabs sizes) (sortAlong (·.x) items)).flatMap fun (slabSizes, slab) =>
    (share (runs slabs slabSizes) (sortAlong (·.y) slab)).flatMap fun (columnSizes, column) =>
      cut columnSizes (sortAlong (·.z) column)

/-- Packs items into groups of at most `max`. -/
def pack [Platform] (max : Nat) (items : List (Boxed α)) : List (List (Boxed α)) :=
  let sizes := evenSizes items.length max
  tile (slabCount sizes.length) sizes items

/-! ## Levels -/

/-- The trunk over the nodes of the last level, of which a single one is the root itself. -/
def close {n : Nat} (height : Nat) (nodes : List (Node κ n)) : Trunk κ :=
  match nodes with
  | [node] => ⟨⟨n, node⟩, height⟩
  | nodes => ⟨⟨n + 1, .branch (nodes.map Node.boxed)⟩, height + 1⟩

/-- Packs the nodes of a level until one node can hold them. Each round leaves fewer nodes, so as
many rounds as there are nodes are enough. -/
def stack [Platform] (max : Nat) : (rounds : Nat) → {n : Nat} → (height : Nat) →
    List (Node κ n) → Trunk κ
  | 0, _, height, nodes => close height nodes
  | rounds + 1, _, height, nodes =>
    if nodes.length ≤ max then close height nodes
    else stack max rounds (height + 1) ((pack max (nodes.map Node.boxed)).map Node.branch)

/-- The trunk over the given entries. -/
def build [Platform] (max : Nat) (entries : List (Boxed κ)) : Trunk κ :=
  if entries.length ≤ max then ⟨⟨0, .leaf entries⟩, 1⟩
  else stack max entries.length 1 ((pack max entries).map Node.leaf)

end Enclave.Packing
