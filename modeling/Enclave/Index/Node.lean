import Enclave.Geometry.Box
import Enclave.Table

/-!
# Nodes

What an index keeps stands beside a box: a key beside its own box, a node beside the box that covers
everything below it. A node of level 0, a leaf, holds boxed keys; a node of level `n + 1` holds boxed
nodes of level `n`. The level is in the type, so every leaf below a node lies equally deep.

`Node.entries` is the view of a node: the boxed keys in the leaves below it, in order. `Node.holds`
and `Node.search` look for keys and boxes without descending into children whose boxes rule them
out; that is sound where every child's box covers what lies below it.
-/

namespace Enclave

/-! ## Boxed items -/

/-- An item and its box. -/
structure Boxed (α : Type) where
  box : Box Float
  item : α

/-- The least box over all the items, if there are any. -/
def Boxed.cover? {α : Type} (items : List (Boxed α)) : Option (Box Float) :=
  Box.cover? (items.map (·.box))

/-! ## Taking an item out of a list

The last item takes the place of the one taken out. -/

/-- The list without the item at `i`, whose place the last item takes. -/
def swapRemove {α : Type} (items : List α) (i : Nat) : List α :=
  match items.getLast? with
  | some last => (items.set i last).dropLast
  | none => []

theorem length_swapRemove {α : Type} (items : List α) (i : Nat) :
    (swapRemove items i).length = items.length - 1 := by
  unfold swapRemove
  split
  · simp
  next h => simp [List.getLast?_eq_none_iff.mp h]

/-! ## Nodes -/

/-- A node of the given level. -/
def Node (κ : Type) : Nat → Type
  | 0 => List (Boxed κ)
  | n + 1 => List (Boxed (Node κ n))

namespace Node

variable {κ : Type}

/-- A leaf of the given boxed keys. -/
def leaf (entries : List (Boxed κ)) : Node κ 0 := entries

/-- A node over the given boxed nodes. -/
def branch {n : Nat} (children : List (Boxed (Node κ n))) : Node κ (n + 1) := children

/-- How many items a node holds itself. -/
def size : {n : Nat} → Node κ n → Nat
  | 0, (entries : List (Boxed κ)) => entries.length
  | _ + 1, (children : List (Boxed (Node κ _))) => children.length

/-- The least box over everything below a node, if there is anything. -/
def cover? : {n : Nat} → Node κ n → Option (Box Float)
  | 0, (entries : List (Boxed κ)) => Boxed.cover? entries
  | _ + 1, (children : List (Boxed (Node κ _))) => Boxed.cover? children

/-- The node beside its cover. -/
def boxed {n : Nat} (node : Node κ n) : Boxed (Node κ n) := ⟨node.cover?.getD default, node⟩

/-- The boxed keys below a node, in order. -/
def entries : {n : Nat} → Node κ n → List (Boxed κ)
  | 0, (entries : List (Boxed κ)) => entries
  | _ + 1, (children : List (Boxed (Node κ _))) => children.flatMap fun c => c.item.entries

/-- The number of nodes at and below a node. -/
def count : {n : Nat} → Node κ n → Nat
  | 0, _ => 1
  | _ + 1, (children : List (Boxed (Node κ _))) => 1 + (children.map fun c => c.item.count).sum

/-! ## Searching -/

/-- What a search cost. -/
structure Effort where
  /-- Nodes looked into. -/
  visited : Nat
  /-- Boxed keys tested. -/
  tested : Nat
  deriving DecidableEq, Repr

def Effort.add (a b : Effort) : Effort := ⟨a.visited + b.visited, a.tested + b.tested⟩

/-- The boxed keys that pass a test, found through the children that pass it. -/
def search (test : Box Float → Bool) : {n : Nat} → Node κ n → List (Boxed κ)
  | 0, (entries : List (Boxed κ)) => entries.filter (test ·.box)
  | _ + 1, (children : List (Boxed (Node κ _))) =>
    (children.filter (test ·.box)).flatMap fun c => c.item.search test

/-- What the search for a test costs. -/
def effort (test : Box Float → Bool) : {n : Nat} → Node κ n → Effort
  | 0, (entries : List (Boxed κ)) => ⟨1, entries.length⟩
  | _ + 1, (children : List (Boxed (Node κ _))) =>
    ((children.filter (test ·.box)).map fun c => c.item.effort test).foldl Effort.add ⟨1, 0⟩

variable [Ord κ]

/-- Whether an entry is that of a key. -/
def isOf (k : κ) (e : Boxed κ) : Bool := compare e.item k == .eq

/-- Whether a key of the given box is found below a node. -/
def holds (k : κ) (b : Box Float) : {n : Nat} → Node κ n → Bool
  | 0, (entries : List (Boxed κ)) => entries.any (isOf k)
  | _ + 1, (children : List (Boxed (Node κ _))) =>
    children.any fun c => c.box.containsBox b && c.item.holds k b

end Node

/-- A node of any level, the root of an index. -/
structure Root (κ : Type) where
  level : Nat
  node : Node κ level

end Enclave
