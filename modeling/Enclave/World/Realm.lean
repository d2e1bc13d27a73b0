import Enclave.World.Territory

/-!
# Realms

An `Archive` keeps the declared regions of worlds between one loading and the next. Loading a world
that was never saved gives no regions. An archive may fail; a failed save leaves it as it was.
`MemoryArchive` keeps everything in memory, and fails for as long as it is made unavailable.

A `Realm` is the worlds that are loaded, the archives they are loaded from, and the catalogue that
they share. A loaded world remembers which generation of it was saved last; saving does nothing
where nothing has changed since, and otherwise stores all regions as they stand.

A change is made first and saved afterwards. If it cannot be saved it stands all the same, and the
fault of the archive is told beside its result; the next save catches up.
-/

namespace Enclave

/-! ## Archives -/

/-- Why an archive fails. -/
inductive ArchiveFault where
  /-- Reading or writing failed. -/
  | device (reason : String)
  /-- What is stored for a world cannot be understood. -/
  | corrupt (world : WorldName) (reason : String)
  /-- The archive cannot be reached at present. -/
  | unavailable (reason : String)
  /-- There is no archive of this name. -/
  | unknown (archive : String)
  deriving DecidableEq, Repr

namespace ArchiveFault

def message : ArchiveFault → String
  | device reason => s!"region store I/O error: {reason}"
  | corrupt world reason => s!"stored regions for world {world} are corrupt: {reason}"
  | unavailable reason => s!"region store unavailable: {reason}"
  | unknown archive => s!"there is no region store {archive}"

/-- Whether a later attempt may succeed. -/
def isTransient : ArchiveFault → Bool
  | device _ | unavailable _ => true
  | corrupt .. | unknown _ => false

end ArchiveFault

/-- What keeps the declared regions of worlds. -/
class Archive (σ : Type) where
  /-- The regions stored for a world. -/
  load : σ → WorldName → Except ArchiveFault (List Declaration)
  /-- The archive with these regions in place of what is stored for a world. -/
  save : σ → WorldName → List Declaration → Except ArchiveFault σ

/-- An archive in memory. -/
structure MemoryArchive where
  worlds : Table WorldName (List Declaration) := ∅
  available : Bool := true
  /-- How many times regions were saved. -/
  saves : Nat := 0

namespace MemoryArchive

/-- Fails while the archive is unavailable. -/
def check (a : MemoryArchive) : Except ArchiveFault Unit :=
  if a.available then .ok () else .error (.unavailable "memory store disabled")

/-- What is stored for a world, whether the archive is available or not. -/
def stored? (a : MemoryArchive) (world : WorldName) : Option (List Declaration) :=
  a.worlds.get? world

instance : Archive MemoryArchive where
  load a world := do
    a.check
    return (a.stored? world).getD []
  save a world ds := do
    a.check
    return { a with worlds := a.worlds.insert world ds, saves := a.saves + 1 }

end MemoryArchive

/-! ## Realms -/

/-- A world that is loaded. -/
structure LoadedWorld where
  territory : Territory
  /-- The name of the archive that it is saved to. -/
  archive : String
  /-- The generation that was loaded, or saved last. -/
  persisted : Nat

/-- The loaded worlds and their archives. -/
structure Realm (σ : Type) where
  catalogue : Catalogue
  archives : Table String σ
  worlds : Table WorldName LoadedWorld := ∅

/-- Why a world cannot be loaded. -/
inductive LoadFault where
  | archive (fault : ArchiveFault)
  | refused (refusal : Refusal)

/-- What a change gave that was made, whether it could be saved or not. -/
structure Applied (α : Type) where
  value : α
  /-- Why the change could not be saved. -/
  warning : Option ArchiveFault

namespace Realm

variable {σ α : Type}

/-! ## Worlds -/

/-- The archive of a name. -/
def archive (r : Realm σ) (name : String) : Except ArchiveFault σ :=
  match r.archives.get? name with
  | some a => .ok a
  | none => .error (.unknown name)

/-- A world that must be loaded. -/
def world (r : Realm σ) (name : WorldName) : Except Refusal LoadedWorld :=
  match r.worlds.get? name with
  | some w => .ok w
  | none => .error (.worldNotLoaded name)

/-- Loads a world, in place of what was loaded of it. -/
def load [Platform] [Archive σ] (r : Realm σ) (name : WorldName) (archive : String)
    (policy : Policy) : Except LoadFault (Realm σ) := do
  let stored := (r.archive archive).bind fun a => Archive.load a name
  let ds ← stored.mapError .archive
  let territory ← (Territory.ofDeclarations policy r.catalogue ds).mapError .refused
  return { r with worlds := r.worlds.insert name ⟨territory, archive, territory.generation⟩ }

/-- Forgets a loaded world. -/
def unload (r : Realm σ) (name : WorldName) : Realm σ := { r with worlds := r.worlds.erase name }

/-- The names of the loaded worlds, ascending. -/
def names (r : Realm σ) : List WorldName := r.worlds.keys

/-! ## Queries -/

/-- What a flag comes to at a point of a world. Where no world is loaded there are no regions. -/
def resolve (r : Realm σ) (name : WorldName) (p : Point Float) (flag : FlagName)
    (actor : Option Actor) : Verdict :=
  match r.worlds.get? name with
  | some w => w.territory.resolve p flag actor
  | none => Bylaws.resolve { catalogue := r.catalogue } ∅ [] flag actor

/-- What is told of the regions at a point of a world. -/
def summariesAt (r : Realm σ) (name : WorldName) (p : Point Float) : List Summary :=
  match r.worlds.get? name with
  | some w => w.territory.summariesAt p
  | none => []

/-! ## Saving -/

/-- Saves a loaded world if it has changed since it was saved last. -/
def saveWorld [Archive σ] (r : Realm σ) (name : WorldName) (w : LoadedWorld) :
    Realm σ × Except ArchiveFault Unit :=
  if w.territory.generation ≤ w.persisted then (r, .ok ())
  else
    let saved := (r.archive w.archive).bind fun a =>
      Archive.save a name w.territory.atlas.declarations
    match saved with
    | .ok a =>
      ({ r with
        archives := r.archives.insert w.archive a
        worlds := r.worlds.insert name { w with persisted := w.territory.generation } }, .ok ())
    | .error fault => (r, .error fault)

/-- Saves a world, if it is loaded. -/
def save? [Archive σ] (r : Realm σ) (name : WorldName) :
    Realm σ × Option (Except ArchiveFault Unit) :=
  match r.worlds.get? name with
  | some w => (r.saveWorld name w).map id some
  | none => (r, none)

/-! ## Changes -/

/-- Changes the territory of a loaded world, and saves nothing. -/
def edit (r : Realm σ) (name : WorldName) (change : Territory → Territory × Except Refusal α) :
    Realm σ × Except Refusal α :=
  match r.world name with
  | .error refusal => (r, .error refusal)
  | .ok w =>
    let (territory, result) := change w.territory
    ({ r with worlds := r.worlds.insert name { w with territory } }, result)

/-- Changes the territory of a loaded world, and saves it if its policy says so. -/
def change [Archive σ] (r : Realm σ) (name : WorldName)
    (change : Territory → Territory × Except Refusal α) : Realm σ × Except Refusal (Applied α) :=
  match r.edit name change with
  | (r, .error refusal) => (r, .error refusal)
  | (r, .ok value) =>
    match r.worlds.get? name with
    | some w =>
      if w.territory.policy.persist then
        match r.saveWorld name w with
        | (r, .ok ()) => (r, .ok ⟨value, none⟩)
        | (r, .error fault) => (r, .ok ⟨value, some fault⟩)
      else (r, .ok ⟨value, none⟩)
    | none => (r, .ok ⟨value, none⟩)

section Changes

variable [Archive σ] (r : Realm σ) (name : WorldName)

/-- Adds the declared region to a world. Gives its id. -/
def create [Platform] (d : Declaration) : Realm σ × Except Refusal (Applied RegionId) :=
  r.change name fun t =>
    match Region.ofDeclaration d with
    | .error refusal => (t, .error refusal)
    | .ok region => (t.add region).map id (·.map fun () => region.id)

/-- Removes a region of a world; its children stay and have no parent. -/
def remove [Platform] (region : RegionId) : Realm σ × Except Refusal (Applied Region) :=
  r.change name (·.remove region)

/-- Gives a region of a world another shape. -/
def redefine [Platform] (region : RegionId) (shape : Shape Float) :
    Realm σ × Except Refusal (Applied Unit) :=
  r.change name (·.redefine region shape)

/-- Sets or clears the parent of a region of a world. -/
def setParent (region : RegionId) (parent : Option RegionId) :
    Realm σ × Except Refusal (Applied Unit) :=
  r.change name (·.setParent region parent)

/-- Sets a flag on a region of a world. Gives what was set before. -/
def setFlag (region : RegionId) (flag : FlagName) (setting : Setting) :
    Realm σ × Except Refusal (Applied (Option Setting)) :=
  r.change name (·.setFlag region flag setting)

end Changes

end Realm

end Enclave
