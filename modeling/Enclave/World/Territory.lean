import Enclave.World.Loading

/-!
# Territories

A `Territory` is the regions of one world as they stand, with the policy and the
catalogue that they answer to. Every change goes through `Territory.commit`: it
works on the current atlas, and what it gives becomes the next generation, or is
refused. A change that is refused leaves the territory as it was.

An atlas once taken from a territory stays as it is, whatever is changed later.
-/

namespace Enclave

/-- The regions of one world as they stand. -/
structure Territory where
  policy : Policy
  catalogue : Catalogue
  atlas : Atlas

/-- What becomes of the children of a region that is removed. -/
inductive Succession where
  /-- They stay and have no parent. -/
  | orphan
  /-- They are removed too, and so are their descendants. -/
  | remove
  deriving DecidableEq, Repr

instance : Inhabited Succession := ⟨.orphan⟩

namespace Territory

variable {α : Type}

/-- The territory without regions. -/
def make (p : Policy) (c : Catalogue) : Except Refusal Territory := do
  p.checkBounds
  return ⟨p, c, .blank (← Refusal.ofIndex (RTree.make p.fanout))⟩

/-- The territory of the declared regions. -/
def ofDeclarations [Platform] (p : Policy) (c : Catalogue) (ds : List Declaration) :
    Except Refusal Territory := do
  p.checkBounds
  return ⟨p, c, ← Atlas.ofDeclarations p c 0 ds⟩

/-! ## Views -/

def generation (t : Territory) : Nat := t.atlas.generation

/-- The number of regions. -/
def size (t : Territory) : Nat := t.atlas.size

def isEmpty (t : Territory) : Bool := t.atlas.isEmpty

/-- What verdicts are given by in this world. -/
def bylaws (t : Territory) : Bylaws := ⟨t.catalogue, t.policy.defaults⟩

/-- What a flag comes to at a point. -/
def resolve (t : Territory) (p : Point Float) (flag : FlagName) (actor : Option Actor) : Verdict :=
  t.atlas.resolve t.bylaws p flag actor

/-- What is told of the regions at a point. -/
def summariesAt (t : Territory) (p : Point Float) : List Summary := t.atlas.summariesAt p

/-! ## Committing changes -/

/-- Makes an atlas the current one, unless it is audited and fails. -/
def publish (t : Territory) (result : α) (next : Atlas) : Territory × Except Refusal α :=
  match if t.policy.verify then next.audit else none with
  | some found => (t, .error (.inconsistent found))
  | none => ({ t with atlas := next }, .ok result)

/-- Publishes what a change gives as the next generation. -/
def commit (t : Territory) (change : Except Refusal (α × Atlas)) : Territory × Except Refusal α :=
  match change with
  | .ok (result, next) => t.publish result next.succ
  | .error refusal => (t, .error refusal)

/-! ## Regions -/

/-- Adds a region. -/
def add [Platform] (t : Territory) (r : Region) : Territory × Except Refusal Unit :=
  t.commit do
    t.policy.checkRegion t.catalogue r
    if t.atlas.contains r.id then throw (.duplicateId r.id)
    if let some parent := r.parent then
      if !t.atlas.contains parent then throw (.unknownParent r.id parent)
    return ((), ← t.atlas.insert r)

/-- Removes a region; its children stay and have no parent. -/
def remove [Platform] (t : Territory) (id : RegionId) : Territory × Except Refusal Region :=
  t.commit do
    let (r, atlas) ← t.atlas.take id
    return (r, atlas.orphanChildrenOf id)

/-- Removes a region and provides for its children. Gives the ids of all that are removed, its own
first. -/
def removeWith [Platform] (t : Territory) (id : RegionId) :
    Succession → Territory × Except Refusal (List RegionId)
  | .orphan =>
    let (t, result) := t.remove id
    (t, result.map fun _ => [id])
  | .remove =>
    t.commit do
      let _ ← t.atlas.region id
      let removed := t.atlas.household id
      return (removed, ← t.atlas.takeAll removed)

/-- Gives a region another shape. A region cannot come to cover the whole world, nor cease to. -/
def redefine [Platform] (t : Territory) (id : RegionId) (shape : Shape Float) :
    Territory × Except Refusal Unit :=
  t.commit do
    Region.checkShape shape
    let r ← t.atlas.region id
    if r.isGlobal || shape.isGlobal then throw (.fixedField id .shape)
    let r ← r.withShape shape
    let (_, atlas) ← t.atlas.take id
    return ((), ← atlas.insert r)

/-- Sets or clears the parent of a region. -/
def setParent (t : Territory) (id : RegionId) (parent : Option RegionId) :
    Territory × Except Refusal Unit :=
  t.commit <| t.atlas.modify id fun r => do
    if let some p := parent then
      if !t.atlas.contains p then throw (.unknownParent id p)
      if Region.isAtOrAbove t.atlas.regions id p then throw (.circularParent id p)
    return ((), ← r.withParent parent)

/-- Sets the priority of a region. -/
def setPriority (t : Territory) (id : RegionId) (priority : Int) :
    Territory × Except Refusal Unit :=
  t.commit do
    t.policy.checkPriority priority
    t.atlas.modify id fun r => return ((), { r with priority })

/-- Sets a flag on a region. Gives what was set before. -/
def setFlag (t : Territory) (id : RegionId) (flag : FlagName) (setting : Setting) :
    Territory × Except Refusal (Option Setting) :=
  t.commit do
    t.catalogue.checkSetting flag setting
    t.atlas.modify id fun r => return r.putSetting flag setting

/-- Clears a flag on a region. Gives what was set before. -/
def clearFlag (t : Territory) (id : RegionId) (flag : FlagName) :
    Territory × Except Refusal (Option Setting) :=
  t.commit <| t.atlas.modify id fun r => return r.clearSetting flag

/-- The first field that an update changed and may not. -/
def changedField? (before after : Region) : Option FixedField :=
  if after.id ≠ before.id then some .id
  else if after.shape != before.shape then some .shape
  else if after.parent ≠ before.parent then some .parent
  else none

/-- Edits a region. Its id, its shape and its parent must stay: a shape and a parent are changed by
operations of their own, and an id never. -/
def update (t : Territory) (id : RegionId) (edit : Region → Region) :
    Territory × Except Refusal Unit :=
  t.commit <| t.atlas.modify id fun before => do
    let after := edit before
    if let some field := changedField? before after then throw (.fixedField id field)
    t.policy.checkRegion t.catalogue after
    return ((), after)

/-- Puts the declared regions in place of all there are. Gives their number. -/
def reload [Platform] (t : Territory) (ds : List Declaration) : Territory × Except Refusal Nat :=
  t.commit do
    let atlas ← Atlas.ofDeclarations t.policy t.catalogue t.generation ds
    return (atlas.size, atlas)

end Territory

end Enclave
