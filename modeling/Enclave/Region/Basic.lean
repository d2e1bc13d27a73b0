import Enclave.Actor
import Enclave.Refusal

/-!
# Regions

A `Region` is a part of a world with settings of its own, its owners and its members. It may name
another region as its parent; whether that region exists, and whether the chain of parents ends,
only the world can tell.

A `Declaration` is a region as it is written down: its id and the id of its parent are plain text,
and nothing in it has been checked. `Region.ofDeclaration` checks everything that can be checked
without the rest of the world, and `Region.declaration` writes a region down again.

Of the regions at a place, some come before others: those of higher priority first, regions of the
whole world after all others, and regions of one priority in the order of their ids. Regions of
different ids are never level in precedence. A region's `Level` is its precedence without its id:
regions of one level decide together.
-/

namespace Enclave

/-- A part of a world with settings of its own. -/
structure Region where
  id : RegionId
  shape : Shape Float
  priority : Int := 0
  settings : Settings := ∅
  owners : Roster := ∅
  members : Roster := ∅
  parent : Option RegionId := none

/-- A region as it is written down. -/
structure Declaration where
  id : String
  shape : Shape Float
  priority : Int := 0
  settings : List (FlagName × Setting) := []
  owners : Roster := ∅
  members : Roster := ∅
  parent : Option String := none

/-- What is told of a region at a glance. -/
structure Summary where
  id : RegionId
  kind : ShapeKind
  priority : Int
  bounds : Option (Box Float)
  parent : Option RegionId
  flagCount : Nat
  ownerCount : Nat
  memberCount : Nat

namespace Region

/-- Refuses a shape that cannot be used. -/
def checkShape (shape : Shape Float) : Except Refusal Unit :=
  match shape.fault? with
  | some fault => .error (.invalidShape fault)
  | none => .ok ()

/-- A region with nothing but an id and a shape. -/
def make (id : RegionId) (shape : Shape Float) : Except Refusal Region := do
  checkShape shape
  return { id, shape }

/-- The region of the whole world. -/
def everywhere : Region := { id := .global, shape := .everywhere }

/-! ## Views -/

def isGlobal (r : Region) : Bool := r.shape.isGlobal

def bounds? (r : Region) : Option (Box Float) := r.shape.bounds?

def contains (r : Region) (p : Point Float) : Bool := r.shape.contains p

/-- What the region sets for a flag. -/
def setting? (r : Region) (flag : FlagName) : Option Setting := r.settings.get? flag

/-- Whether the region has neither owners nor members. -/
def isUnclaimed (r : Region) : Bool := r.owners.isEmpty && r.members.isEmpty

/-- How an actor stands to the region by its own rosters. -/
def ownStanding (r : Region) (a : Actor) : Standing :=
  if r.owners.lists a then .owner
  else if r.members.lists a then .member
  else .nonMember

def summary (r : Region) : Summary where
  id := r.id
  kind := r.shape.kind
  priority := r.priority
  bounds := r.bounds?
  parent := r.parent
  flagCount := r.settings.size
  ownerCount := r.owners.size
  memberCount := r.members.size

/-! ## Changes -/

/-- The region under another parent; it cannot be its own. -/
def withParent (r : Region) (parent : Option RegionId) : Except Refusal Region :=
  match parent with
  | some p =>
    if p = r.id then .error (.circularParent r.id p) else .ok { r with parent := some p }
  | none => .ok { r with parent := none }

theorem withParent_eq_ok {r s : Region} {parent : Option RegionId}
    (h : r.withParent parent = .ok s) : parent ≠ some r.id ∧ s = { r with parent } := by
  cases parent with
  | none =>
    cases h
    exact ⟨nofun, rfl⟩
  | some p =>
    rw [withParent] at h
    split at h
    · cases h
    next other =>
      cases h
      exact ⟨fun same => other (Option.some.inj same), rfl⟩

/-- The region with another shape. -/
def withShape (r : Region) (shape : Shape Float) : Except Refusal Region := do
  checkShape shape
  return { r with shape }

/-- Sets a flag; tells what was set before. -/
def putSetting (r : Region) (flag : FlagName) (s : Setting) : Option Setting × Region :=
  let (previous, settings) := r.settings.put flag s
  (previous, { r with settings })

/-- Clears a flag; tells what was set before. -/
def clearSetting (r : Region) (flag : FlagName) : Option Setting × Region :=
  let (previous, settings) := r.settings.clear flag
  (previous, { r with settings })

/-! ## Writing down -/

/-- Reads an id that a request names. -/
def readId (text : String) : Except Refusal RegionId :=
  match RegionId.parse text with
  | .ok id => .ok id
  | .error fault => .error (.invalidId text fault)

/-- The region that a declaration describes. -/
def ofDeclaration (d : Declaration) : Except Refusal Region := do
  let region ← make (← readId d.id) d.shape
  let region := { region with
    priority := d.priority
    settings := .ofPairs d.settings
    owners := d.owners
    members := d.members }
  match d.parent with
  | some parent => region.withParent (some (← readId parent))
  | none => return region

/-- The region written down, its settings in the order of their flags. -/
def declaration (r : Region) : Declaration where
  id := r.id.text
  shape := r.shape
  priority := r.priority
  settings := r.settings.entries
  owners := r.owners
  members := r.members
  parent := r.parent.map (·.text)

end Region

/-! ## Precedence -/

/-- The level at which a region decides. -/
inductive Level where
  /-- Regions of the whole world, below every other. -/
  | global
  | priority (priority : Int)
  deriving DecidableEq, Repr

/-- Whether one level is below another. -/
def Level.isBelow : Level → Level → Bool
  | global, global => false
  | global, priority _ => true
  | priority _, global => false
  | priority p, priority q => p < q

namespace Region

def level (r : Region) : Level := if r.isGlobal then .global else .priority r.priority

/-- `.lt` where the first region comes before the second. -/
def comparePrecedence (r s : Region) : Ordering :=
  ((compare r.isGlobal s.isGlobal).then (compare s.priority r.priority)).then (compare r.id s.id)

/-- The regions in order of precedence, equal ones as they stood. -/
def inPrecedence (regions : List Region) : List Region :=
  regions.mergeSort fun r s => (r.comparePrecedence s).isLE

end Region

end Enclave
