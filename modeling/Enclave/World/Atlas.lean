import Enclave.Index.Tree
import Enclave.Region.Basic
import Enclave.Verdict.Basic

/-!
# Atlases

An `Atlas` is one generation of the regions of a world. Beside the table of its regions it keeps an
index of those that have a box, and a list of those that cover the whole world, so that what holds
at a point is found without looking at every region.

`Atlas.audit` looks for a place where the three do not agree, or where parents go wrong. An atlas
that was filled by the operations of this library has none.
-/

namespace Enclave

/-- One generation of the regions of a world. -/
structure Atlas where
  /-- How many changes were published before. It has no bound here; stored in sixty-four bits it has
  one that no world lives to reach, at a million changes a second for half a million years. -/
  generation : Nat
  regions : RegionTable
  /-- The regions of the whole world, in order of precedence. -/
  globals : List RegionId
  /-- The other regions, by their boxes. -/
  index : RTree RegionId

/-- Lifts a fault of the index to a refusal. -/
def Refusal.ofIndex {α : Type} : Except IndexFault α → Except Refusal α
  | .ok a => .ok a
  | .error fault => .error (.index fault)

namespace Region

/-- The id and the box of a region that has one: its entry in the index. -/
def indexEntry? (r : Region) : Option (RegionId × Box Float) := r.bounds?.map (r.id, ·)

end Region

namespace Atlas

/-- The ids in order of precedence of their regions. -/
def sortGlobals (t : RegionTable) (ids : List RegionId) : List RegionId :=
  ids.mergeSort fun a b =>
    match t.get? a, t.get? b with
    | some r, some s => (r.comparePrecedence s).isLE
    | _, _ => (compare a b).isLE

/-- The first atlas over an index without keys. -/
def blank (index : RTree RegionId) : Atlas := ⟨0, ∅, [], index⟩

/-- The atlas of the given regions, which the index must know. -/
def ofTable (generation : Nat) (t : RegionTable) (index : RTree RegionId) : Atlas where
  generation
  regions := t
  globals := sortGlobals t ((t.values.filter (·.isGlobal)).map (·.id))
  index

/-! ## Queries -/

/-- The number of regions. -/
def size (a : Atlas) : Nat := a.regions.size

def isEmpty (a : Atlas) : Bool := a.regions.isEmpty

def get? (a : Atlas) (id : RegionId) : Option Region := a.regions.get? id

def contains (a : Atlas) (id : RegionId) : Bool := a.regions.contains id

/-- The region of an id that must be there. -/
def region (a : Atlas) (id : RegionId) : Except Refusal Region :=
  match a.get? id with
  | some r => .ok r
  | none => .error (.notFound id)

/-- Every id, ascending. -/
def ids (a : Atlas) : List RegionId := a.regions.keys

/-- The regions that name `id` as their parent, by ascending id. -/
def childrenOf (a : Atlas) (id : RegionId) : List Region :=
  a.regions.values.filter (·.parent == some id)

/-- The regions of the whole world, in order of precedence. -/
def globalRegions (a : Atlas) : List Region := a.globals.filterMap a.get?

/-- The regions at a point, in order of precedence. -/
def regionsAt (a : Atlas) (p : Point Float) : List Region :=
  let found := (a.index.keysAt p).filterMap a.get?
  Region.inPrecedence (found.filter (·.contains p)) ++ a.globalRegions

/-- The regions whose boxes meet a box, in order of
precedence; those of the whole world have none. -/
def regionsMeeting (a : Atlas) (area : Box Float) : List Region :=
  Region.inPrecedence ((a.index.keysMeeting area).filterMap a.get?)

/-- The regions whose shapes overlap a shape, in order of precedence; those of the whole world are
left out, and none overlaps the whole world. -/
def regionsOverlapping (a : Atlas) (shape : Shape Float) : List Region :=
  match shape.bounds? with
  | some area => (a.regionsMeeting area).filter (·.shape.intersects shape)
  | none => []

/-- What is told of the regions at a point. -/
def summariesAt (a : Atlas) (p : Point Float) : List Summary := (a.regionsAt p).map (·.summary)

/-- What a flag comes to at a point. -/
def resolve (a : Atlas) (b : Bylaws) (p : Point Float) (flag : FlagName) (actor : Option Actor) :
    Verdict :=
  b.resolve a.regions (a.regionsAt p) flag actor

/-- Every region written down, by ascending id. -/
def declarations (a : Atlas) : List Declaration := a.regions.values.map (·.declaration)

/-! ## Audit -/

/-- What is wrong with where a region is kept. -/
def misplacement? (a : Atlas) (key : RegionId) (r : Region) : Option Inconsistency :=
  if r.id ≠ key then some (.misfiled r.id key)
  else
    match r.bounds?, a.index.get? key with
    | some b, some indexed => if indexed == b then none else some (.boxDiffers key)
    | some _, none => some (.notIndexed key)
    | none, _ => if a.globals.contains key then none else some (.globalNotListed key)

/-- What is wrong with the numbers of regions kept. -/
def miscount? (a : Atlas) : Option Inconsistency :=
  let indexable := (a.regions.values.filterMap Region.bounds?).length
  if a.index.size ≠ indexable then some (.indexCount a.index.size indexable)
  else if a.globals.length ≠ a.size - indexable then some .globalsOutdated
  else none

/-- What is wrong with the parent of a region. -/
def misparentage? (a : Atlas) (r : Region) : Option Inconsistency :=
  match r.parent.filter (!a.contains ·) with
  | some parent => some (.danglingParent r.id parent)
  | none => (Region.cycleFrom? a.regions r.id).map (.cycle r.id)

/-- The first inconsistency of an atlas. -/
def audit (a : Atlas) : Option Inconsistency :=
  (((a.regions.entries.findSome? fun e => a.misplacement? e.1 e.2).or a.miscount?).or
    (a.regions.values.findSome? a.misparentage?)).or
    (a.index.flaw?.map .index)

/-! ## Changes -/

/-- The atlas as the next generation. -/
def succ (a : Atlas) : Atlas := { a with generation := a.generation + 1 }

/-- Enters a region of a new id. -/
def insert [Platform] (a : Atlas) (r : Region) : Except Refusal Atlas := do
  let index ← match r.bounds? with
    | some b => Refusal.ofIndex (a.index.insert r.id b)
    | none => pure a.index
  let listed := if r.isGlobal then a.globals ++ [r.id] else a.globals
  let regions := a.regions.insert r.id r
  return { a with regions, index, globals := sortGlobals regions listed }

/-- Takes a region out. Regions that name it as their parent are left as they are. -/
def take [Platform] (a : Atlas) (id : RegionId) : Except Refusal (Region × Atlas) := do
  let r ← a.region id
  let regions := a.regions.erase id
  if r.isGlobal then
    return (r, { a with regions, globals := a.globals.filter (· ≠ id) })
  else
    let (_, index) ← Refusal.ofIndex (a.index.remove id)
    return (r, { a with regions, index })

/-- Puts a region in the place of the one of its id, which has the same extent. -/
def replace (a : Atlas) (r : Region) : Atlas :=
  let regions := a.regions.insert r.id r
  { a with regions, globals := if r.isGlobal then sortGlobals regions a.globals else a.globals }

/-- Changes a region in a way that keeps its extent. -/
def modify {α : Type} (a : Atlas) (id : RegionId) (change : Region → Except Refusal (α × Region)) :
    Except Refusal (α × Atlas) := do
  let (result, r) ← change (← a.region id)
  return (result, a.replace r)

/-- Leaves the regions that name `id` as their parent without one. -/
def orphanChildrenOf (a : Atlas) (id : RegionId) : Atlas :=
  { a with regions := a.regions.mapValues fun _ r =>
      if r.parent == some id then { r with parent := none } else r }

/-- Takes regions out, one after the other. -/
def takeAll [Platform] (a : Atlas) : List RegionId → Except Refusal Atlas
  | [] => .ok a
  | id :: rest => do
    let (_, a) ← a.take id
    a.takeAll rest

/-- The ids passed and those to do, followed by those of their descendants: for each id in turn, its
children that are not listed yet. A step passes one region of the atlas, so with one step more than
the atlas has regions nothing is left to do. -/
def addDescendants (a : Atlas) : (steps : Nat) → (done todo : List RegionId) → List RegionId
  | 0, done, todo => done ++ todo
  | _ + 1, done, [] => done
  | steps + 1, done, id :: todo =>
    let children := (a.childrenOf id).map (·.id)
    let fresh := children.filter fun c => !(done ++ id :: todo).contains c
    a.addDescendants steps (done ++ [id]) (todo ++ fresh)

/-- A region's id and those of its descendants, parents before their children. -/
def household (a : Atlas) (id : RegionId) : List RegionId := a.addDescendants (a.size + 1) [] [id]

end Atlas

end Enclave
