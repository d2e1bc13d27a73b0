import Enclave.Index.Fault
import Enclave.Index.Node
import Enclave.Index.Split

/-!
# Growing and shrinking

How an entry enters the nodes of an index and how it leaves them. The height is counted beside the
nodes, in a `Trunk`: it is not read off them, but grows and falls as levels come and go.

An entry goes down through the child that grows least. A node that then holds too much is split, and
the part split off becomes a sibling; the root, when split, gets a new root above it.

An entry that leaves takes with it every node that is left with too little: such a node is
dissolved, and the entries below it are put in anew. A root with a single child gives way to it.
-/

namespace Enclave

variable {κ : Type}

/-- The nodes of an index from its root down, and the number of levels as it is counted. -/
structure Trunk (κ : Type) where
  root : Root κ
  height : Nat

/-! ## Putting in -/

/-- What speaks for a child: how little it grows, how small it is, how few items it holds. -/
structure Suitability where
  place : Nat
  growth : Cost
  cost : Cost
  items : Nat

def Suitability.better [Platform] (s t : Suitability) : Bool :=
  ((s.growth.compare t.growth).then (s.cost.compare t.cost)).then (compare s.items t.items) == .lt

/-- The place of the child that an entry of box `b` goes to. -/
def choosePlace [Platform] {n : Nat} (children : List (Boxed (Node κ n))) (b : Box Float) : Nat :=
  let ranked := children.zipIdx.map fun (c, i) =>
    Suitability.mk i (.growth c.box b) (.ofBox c.box) c.item.size
  match ranked with
  | [] => 0
  | s :: rest => (pick Suitability.better s rest).place

/-- The items of a node, and those split off if they are too many for one. -/
def Fanout.settle [Platform] {α : Type} (f : Fanout) (items : List (Boxed α)) :
    List (Boxed α) × Option (List (Boxed α)) :=
  if items.length ≤ f.max then (items, none)
  else
    let (keep, moved) := Split.split f.min items
    (keep, some moved)

/-- Puts an entry below a node; a sibling is split off where the node would hold too much. -/
def Node.insert [Platform] (f : Fanout) (e : Boxed κ) :
    {n : Nat} → Node κ n → Node κ n × Option (Node κ n)
  | 0, (entries : List (Boxed κ)) => f.settle (entries ++ [e])
  | _ + 1, (children : List (Boxed (Node κ _))) =>
    let place := choosePlace children e.box
    match children[place]? with
    | none => (children, none)
    | some c =>
      match c.item.insert f e with
      | (node, none) => (children.set place ⟨c.box.union e.box, node⟩, none)
      | (node, some sibling) => f.settle (children.set place node.boxed ++ [sibling.boxed])

/-- Puts an entry below the root. Where the root is split there is a level more. -/
def Trunk.insert [Platform] (f : Fanout) (e : Boxed κ) (s : Trunk κ) : Trunk κ :=
  match s.root.node.insert f e with
  | (node, none) => { s with root := ⟨s.root.level, node⟩ }
  | (node, some sibling) =>
    ⟨⟨s.root.level + 1, .branch [node.boxed, sibling.boxed]⟩, s.height + 1⟩

/-! ## Taking out -/

/-- Takes the entry of a key out from below a node. Children left with fewer than `min` items are
dissolved; their entries come second. -/
def Node.remove [Ord κ] (min : Nat) (k : κ) (b : Box Float) :
    {n : Nat} → Node κ n → Node κ n × List (Boxed κ)
  | 0, (entries : List (Boxed κ)) =>
    match entries.findIdx? (isOf k) with
    | none => (entries, [])
    | some place => (swapRemove entries place, [])
  | _ + 1, (children : List (Boxed (Node κ _))) =>
    let place := children.findIdx fun c => c.box.containsBox b && c.item.holds k b
    match children[place]? with
    | none => (children, [])
    | some c =>
      let (node, orphans) := c.item.remove min k b
      if node.size < min then (swapRemove children place, orphans ++ node.entries)
      else (children.set place node.boxed, orphans)

/-- Whether a node is a leaf without entries. -/
def Node.isBare : {n : Nat} → Node κ n → Bool
  | 0, (entries : List (Boxed κ)) => entries.isEmpty
  | _ + 1, _ => false

/-- The trunk without levels that no longer branch. Each is a level less,
and where nothing is left but a leaf without entries there is one level. -/
def Trunk.shrink : (n : Nat) → (height : Nat) → Node κ n → Trunk κ
  | 0, height, entries => ⟨⟨0, entries⟩, height⟩
  | n + 1, height, (children : List (Boxed (Node κ n))) =>
    match children with
    | [] => ⟨⟨0, .leaf []⟩, 1⟩
    | [c] => if c.item.isBare then ⟨⟨n, c.item⟩, 1⟩ else shrink n (height - 1) c.item
    | _ => ⟨⟨n + 1, .branch children⟩, height⟩

/-- Takes the entry of a key out from below the root. -/
def Trunk.remove [Ord κ] [Platform] (f : Fanout) (k : κ) (b : Box Float) (s : Trunk κ) : Trunk κ :=
  let (node, orphans) := s.root.node.remove f.min k b
  orphans.foldl (fun s e => s.insert f e) (.shrink s.root.level s.height node)

end Enclave
