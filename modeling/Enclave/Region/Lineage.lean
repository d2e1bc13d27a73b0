import Enclave.Region.Basic

/-!
# Lineage

The lineage of a region is the region itself, its parent, the parent of that, and so on. It ends
where a parent is missing from the table, and where it would come to an id a second time, so it is
finite in every table.

A walk passes each id once, and beyond its start every region on it comes from the table; so one
step more than the table has entries is enough for every walk.

An actor's `standing` to a region counts the whole lineage:
an owner of any region on it owns the region.

Where only ids are asked for, the walk goes from id to id and looks each up: `reaches` counts its
steps, `isAtOrAbove` and `cycleFrom?` remember the ids that they have met.
-/

namespace Enclave

/-- Regions by id. -/
abbrev RegionTable := Table RegionId Region

namespace Region

/-- The region that a region names as its parent, if the table has it. -/
def parentIn (t : RegionTable) (r : Region) : Option Region := r.parent.bind t.get?

/-- Walks from a region to its ancestors, past none of the ids in `seen`. -/
def walk (t : RegionTable) : (steps : Nat) → (seen : List RegionId) → Region → List Region
  | 0, _, _ => []
  | steps + 1, seen, r =>
    if seen.contains r.id then []
    else
      match r.parentIn t with
      | some p => r :: walk t steps (r.id :: seen) p
      | none => [r]

/-- The region and its ancestors, nearest first. -/
def lineage (t : RegionTable) (r : Region) : List Region := walk t (t.size + 1) [] r

/-- The ancestors of a region, nearest first, itself left out. -/
def ancestors (t : RegionTable) (r : Region) : List Region := (r.lineage t).tail

/-- How an actor stands to a region: owner if an owner of any region of its lineage, else member if
a member of any. -/
def standing (t : RegionTable) (r : Region) (a : Actor) : Standing :=
  if a.isAnonymous then .nonMember
  else if (r.lineage t).any (·.owners.lists a) then .owner
  else if (r.lineage t).any (·.members.lists a) then .member
  else .nonMember

/-! ## Walks by ids -/

/-- The id that the table's region of an id names as its parent. -/
def parentOf? (t : RegionTable) (id : RegionId) : Option RegionId := (t.get? id).bind (·.parent)

/-- Whether the walk from an id comes to the target within a number of steps. -/
def reachesWithin (t : RegionTable) (target : RegionId) : (steps : Nat) → RegionId → Bool
  | 0, id => id == target
  | steps + 1, id => id == target || (parentOf? t id).any (reachesWithin t target steps)

/-- Whether the walk from one id comes to another. After as many steps as the table has entries it
is given up: there is nothing new to come to. -/
def reaches (t : RegionTable) (start target : RegionId) : Bool :=
  reachesWithin t target t.size start

/-- Whether the walk from an id comes to the target, past none of the ids in `seen`. -/
def comesTo (t : RegionTable) (target : RegionId) :
    (steps : Nat) → (seen : List RegionId) → RegionId → Bool
  | 0, _, _ => false
  | steps + 1, seen, id =>
    id == target ||
      (!seen.contains id && (parentOf? t id).any (comesTo t target steps (id :: seen)))

/-- Whether the first id is the second or lies above it. -/
def isAtOrAbove (t : RegionTable) (above id : RegionId) : Bool :=
  comesTo t above (t.size + 1) [] id

/-- The first id that the walk from an id meets twice, those in `seen` counted. -/
def metTwice? (t : RegionTable) :
    (steps : Nat) → (seen : List RegionId) → RegionId → Option RegionId
  | 0, _, _ => none
  | steps + 1, seen, id =>
    if seen.contains id then some id
    else (parentOf? t id).bind (metTwice? t steps (id :: seen))

/-- The id by which the walk from an id comes round, if it does. -/
def cycleFrom? (t : RegionTable) (id : RegionId) : Option RegionId :=
  metTwice? t (t.size + 1) [] id

end Region

end Enclave
