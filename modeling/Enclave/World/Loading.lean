import Enclave.World.Atlas
import Enclave.World.Policy

/-!
# Loading declared regions

Many declarations are made into an atlas at once. Each must describe a region that the policy and
the catalogue allow, and no two may have one id; the first fault refuses them all.

Parents are not refused but dropped where they cannot stand. They are attached after all regions are
known, in the order of the regions' ids: a declared parent that is no loaded region is dropped, and
so is one that would close a cycle. What is loaded does not depend on the order of the declarations.
-/

namespace Enclave

/-- Declared regions without their parents, and the parents they declare. -/
structure Draft where
  regions : RegionTable := ∅
  /-- The texts of the declared parents, by the ids of the children. -/
  parents : Table RegionId String := ∅

namespace Draft

/-- Enters the region of one declaration. -/
def enter (p : Policy) (c : Catalogue) (draft : Draft) (d : Declaration) :
    Except Refusal Draft := do
  let r ← Region.ofDeclaration { d with parent := none }
  p.checkRegion c r
  if draft.regions.contains r.id then throw (.duplicateId r.id)
  return {
    regions := draft.regions.insert r.id r
    parents := match d.parent with
      | some text => draft.parents.insert r.id text
      | none => draft.parents }

/-- The draft of all declarations. -/
def ofDeclarations (p : Policy) (c : Catalogue) (ds : List Declaration) : Except Refusal Draft :=
  ds.foldlM (enter p c) {}

/-- Attaches one declared parent, unless it is no region
of the table or the walk from it comes to the child. -/
def attach (t : RegionTable) (child : RegionId) (text : String) : RegionTable :=
  match RegionId.parse text with
  | .error _ => t
  | .ok parent =>
    if !t.contains parent || Region.reaches t parent child then t
    else
      match t.get? child with
      | some r => t.insert child { r with parent := some parent }
      | none => t

/-- The regions with all parents attached that can stand. -/
def table (draft : Draft) : RegionTable :=
  draft.parents.entries.foldl (fun t e => attach t e.1 e.2) draft.regions

end Draft

/-- The atlas of the declared regions. -/
def Atlas.ofDeclarations [Platform] (p : Policy) (c : Catalogue) (generation : Nat)
    (ds : List Declaration) : Except Refusal Atlas := do
  let t := (← Draft.ofDeclarations p c ds).table
  let entries := (Platform.listed t.values).filterMap Region.indexEntry?
  let index ← Refusal.ofIndex (RTree.ofList p.fanout entries)
  return .ofTable generation t index

end Enclave
