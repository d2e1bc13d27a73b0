import Enclave.Table
import Enclave.Text

/-!
# Actors and rosters

An `Actor` is whoever an event is traced to: perhaps a player, and the permission groups that player
belongs to. A `Roster` lists players and groups; a region has one of owners and one of members. How
an actor stands to a region is its `Standing`.

Group names know no letter case: they are lower-cased wherever they enter.
-/

namespace Enclave

/-- Who acts. An actor without a player and without groups is anonymous. -/
structure Actor where
  player : Option Nat
  groups : List String
  deriving DecidableEq, Repr

namespace Actor

def anonymous : Actor := ⟨none, []⟩

def ofPlayer (player : Nat) : Actor := ⟨some player, []⟩

/-- The actor as a member of one more group. -/
def withGroup (a : Actor) (group : String) : Actor :=
  let name := Text.lowercase group
  if a.groups.contains name then a else { a with groups := a.groups ++ [name] }

def isAnonymous (a : Actor) : Bool := a.player.isNone && a.groups.isEmpty

end Actor

/-! ## Rosters -/

/-- A list of players and of groups, each once. -/
structure Roster where
  players : KeySet Nat
  groups : KeySet String

namespace Roster

def empty : Roster := ⟨∅, ∅⟩

instance : EmptyCollection Roster := ⟨empty⟩

/-- How many players and groups are listed. -/
def size (r : Roster) : Nat := r.players.size + r.groups.size

def isEmpty (r : Roster) : Bool := r.players.isEmpty && r.groups.isEmpty

def hasPlayer (r : Roster) (player : Nat) : Bool := r.players.contains player

def hasGroup (r : Roster) (group : String) : Bool := r.groups.contains (Text.lowercase group)

/-- Lists a player; tells whether it was new. -/
def addPlayer (r : Roster) (player : Nat) : Bool × Roster :=
  (!r.hasPlayer player, { r with players := r.players.add player })

/-- Strikes a player out; tells whether it was listed. -/
def removePlayer (r : Roster) (player : Nat) : Bool × Roster :=
  (r.hasPlayer player, { r with players := r.players.erase player })

/-- Lists a group; tells whether it was new. -/
def addGroup (r : Roster) (group : String) : Bool × Roster :=
  (!r.hasGroup group, { r with groups := r.groups.add (Text.lowercase group) })

/-- Strikes a group out; tells whether it was listed. -/
def removeGroup (r : Roster) (group : String) : Bool × Roster :=
  (r.hasGroup group, { r with groups := r.groups.erase (Text.lowercase group) })

/-- The roster of the given players and groups. -/
def of (players : List Nat) (groups : List String) : Roster :=
  ⟨KeySet.ofKeys players, KeySet.ofKeys (groups.map Text.lowercase)⟩

/-- Whether the actor is listed, by its player or by one of its groups. -/
def lists (r : Roster) (a : Actor) : Bool :=
  a.player.any r.players.contains || a.groups.any r.groups.contains

end Roster

/-! ## Standing -/

/-- How an actor stands to a region, the strongest first. -/
inductive Standing where
  | owner
  | member
  | nonMember
  deriving DecidableEq, Repr

/-- Whether an actor of this standing belongs to the region. -/
def Standing.belongs : Standing → Bool
  | owner | member => true
  | nonMember => false

end Enclave
