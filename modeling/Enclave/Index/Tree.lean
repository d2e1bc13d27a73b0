import Enclave.Index.Fault
import Enclave.Index.Growth
import Enclave.Index.Packing

/-!
# The index

An `RTree` finds the keys whose boxes contain a point or meet a box, without looking at all of them.
It keeps, beside its nodes, a table of every key and its box: what the index holds is that table,
and the nodes answer for it. It keeps its height too, and does not count levels to tell it.

Every operation that is refused leaves the index as it was: it gives no new one.

An audit looks for flaws in the structure of an index: nodes that hold too much or too little, boxes
that do not cover what lies below them, leaves that do not lie as deep as the index is high, and
leaves that do not agree with the recorded boxes.
-/

namespace Enclave

/-- An index of keys by their boxes. -/
structure RTree (κ : Type) [Ord κ] where
  fanout : Fanout
  root : Root κ
  /-- The number of levels. -/
  height : Nat
  /-- Every key and its box. -/
  boxes : Table κ (Box Float)

namespace RTree

variable {κ : Type} [Ord κ]

/-- The index without keys. -/
def empty (f : Fanout) : RTree κ := ⟨f, ⟨0, .leaf []⟩, 1, ∅⟩

/-- The index without keys, refused where its bounds cannot be used. -/
def make (f : Fanout) : Except IndexFault (RTree κ) :=
  match f.faults with
  | [] => .ok (empty f)
  | faults => .error (.badFanout faults)

/-- The index without its keys. -/
def clear (t : RTree κ) : RTree κ := empty t.fanout

/-! ## What it holds -/

/-- The number of keys. -/
def size (t : RTree κ) : Nat := t.boxes.size

def isEmpty (t : RTree κ) : Bool := t.boxes.isEmpty

/-- The box recorded for a key. -/
def get? (t : RTree κ) (k : κ) : Option (Box Float) := t.boxes.get? k

def contains (t : RTree κ) (k : κ) : Bool := t.boxes.contains k

def keys (t : RTree κ) : List κ := t.boxes.keys

/-- The least box over all keys, if there are any. -/
def bounds? (t : RTree κ) : Option (Box Float) := t.root.node.cover?

/-- The number of nodes. -/
def nodeCount (t : RTree κ) : Nat := t.root.node.count

/-! ## Queries -/

/-- The keys whose boxes pass a test. -/
def search (t : RTree κ) (test : Box Float → Bool) : List κ :=
  (t.root.node.search test).map (·.item)

/-- The keys whose boxes contain a point. -/
def keysAt (t : RTree κ) (p : Point Float) : List κ := t.search (·.contains p)

/-- The keys whose boxes meet a box. -/
def keysMeeting (t : RTree κ) (b : Box Float) : List κ := t.search (·.intersects b)

/-- What it costs to find the keys whose boxes contain a point. -/
def effortAt (t : RTree κ) (p : Point Float) : Node.Effort := t.root.node.effort (·.contains p)

/-! ## Changes -/

section Changes

variable [Std.TransOrd κ] [ToString κ]

/-- The nodes and their height. -/
def trunk (t : RTree κ) : Trunk κ := ⟨t.root, t.height⟩

/-- The index with other nodes and other boxes. -/
def rebuilt (t : RTree κ) (s : Trunk κ) (boxes : Table κ (Box Float)) : RTree κ :=
  ⟨t.fanout, s.root, s.height, boxes⟩

/-- Records a key; its box must be valid and the key new. -/
def insert [Platform] (t : RTree κ) (k : κ) (b : Box Float) : Except IndexFault (RTree κ) :=
  match b.fault? with
  | some fault => .error (.invalidBox b fault)
  | none =>
    if t.contains k then .error (.duplicateKey (toString k))
    else .ok (t.rebuilt (t.trunk.insert t.fanout ⟨b, k⟩) (t.boxes.insert k b))

/-- Forgets a key; gives its box. -/
def remove [Platform] (t : RTree κ) (k : κ) : Except IndexFault (Box Float × RTree κ) :=
  match t.get? k with
  | none => .error (.missingKey (toString k))
  | some b =>
    if t.root.node.holds k b then
      .ok (b, t.rebuilt (t.trunk.remove t.fanout k b) (t.boxes.erase k))
    else .error (.corrupt (.lost (toString k)))

/-- Records keys one after the other; every box must be valid and every key new. -/
def record (boxes : Table κ (Box Float)) :
    List (κ × Box Float) → Except IndexFault (Table κ (Box Float))
  | [] => .ok boxes
  | (k, b) :: rest =>
    match b.fault? with
    | some fault => .error (.invalidBox b fault)
    | none =>
      if boxes.contains k then .error (.duplicateKey (toString k))
      else record (boxes.insert k b) rest

/-- The index of many keys at once, packed. -/
def ofList [Platform] (f : Fanout) (items : List (κ × Box Float)) :
    Except IndexFault (RTree κ) := do
  let start ← make f
  let boxes ← record start.boxes items
  return start.rebuilt (Packing.build f.max (items.map fun (k, b) => ⟨b, k⟩)) boxes

end Changes

end RTree

/-! ## Auditing -/

variable {κ : Type} [Ord κ] [ToString κ]

/-- A node with too much or too little in it. The root may hold little. -/
def Fanout.sizeFlaw? (f : Fanout) (depth : Nat) (isRoot : Bool) (count : Nat) : Option Flaw :=
  if f.max < count then some (.overfull depth count f.max)
  else if !isRoot && count < f.min then some (.underfull depth count f.min)
  else none

/-- A leaf entry that the recorded boxes do not bear out. -/
def Boxed.entryFlaw? (boxes : Table κ (Box Float)) (e : Boxed κ) : Option Flaw :=
  match boxes.get? e.item with
  | some recorded => if recorded == e.box then none else some (.boxDiffers (toString e.item))
  | none => some (.unrecorded (toString e.item))

/-- The first flaw at or below a node of an index of the given height. -/
def Node.flaw? (f : Fanout) (boxes : Table κ (Box Float)) (height : Nat) :
    {n : Nat} → (depth : Nat) → (isRoot : Bool) → Node κ n → Option Flaw
  | 0, depth, isRoot, (entries : List (Boxed κ)) =>
    ((f.sizeFlaw? depth isRoot entries.length).or
      (if depth = height then none else some (.unevenLeaf depth height))).or
      (entries.findSome? (·.entryFlaw? boxes))
  | _ + 1, depth, isRoot, (children : List (Boxed (Node κ _))) =>
    ((f.sizeFlaw? depth isRoot children.length).or
      (if isRoot && children.length < 2 then some .thinRoot else none)).or
      (children.findSome? fun c =>
        if c.item.cover? == some c.box then c.item.flaw? f boxes height (depth + 1) false
        else some (.looseCover depth))

/-- The first flaw of an index. -/
def RTree.flaw? (t : RTree κ) : Option Flaw :=
  (t.root.node.flaw? t.fanout t.boxes t.height 1 true).or
    (let held := t.root.node.entries.length
     if held = t.size then none else some (.countDiffers held t.size))

end Enclave
