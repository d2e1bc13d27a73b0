import Enclave.Verdict.Grant

/-!
# Passing the regions of a place

The regions at a place are passed in order of precedence, and the values they grant are gathered
(`gather`). A region's value takes the place of any that its ancestors give as regions at the place
themselves: those gathered before are dropped, those still to come are ignored.

Where the first value stands, only one level counts: once a region has given a value, no lower level
is looked at. Where membership decides the flag, a region that does not pass through closes the
lower levels too, even without a value.

In the same order it is found whether an actor belongs to the place (`attend`): to every region
there that counts. A region counts unless it passes through, and only the highest level that has one
counts. Belonging to a region satisfies its ancestors too, whether they come before it or after.
-/

namespace Enclave

/-! ## Gathering values -/

/-- What has been gathered so far. -/
structure Gathering where
  /-- Levels below this one are closed. -/
  cutoff : Option Level := none
  /-- The values gathered, each with the region at the place that gave it. -/
  considered : List (RegionId × Value) := []
  /-- Ancestors of regions that gave values. -/
  ignored : List RegionId := []

namespace Gathering

/-- An ancestor gives way to the region whose value was just
found: its value is dropped, or will be ignored. -/
def giveWay (g : Gathering) (ancestor : RegionId) : Gathering :=
  if g.considered.any (·.1 == ancestor) then
    { g with considered := g.considered.eraseP (·.1 == ancestor) }
  else { g with ignored := g.ignored ++ [ancestor] }

/-- Adds the value that a region granted, unless the region is ignored. -/
def take (t : RegionTable) (g : Gathering) (r : Region) (v : Value) : Gathering :=
  if g.ignored.contains r.id then g
  else
    let g := ((r.ancestors t).map (·.id)).foldl giveWay { g with cutoff := some r.level }
    { g with considered := g.considered ++ [(r.id, v)] }

/-- Closes the levels below a region. -/
def close (g : Gathering) (r : Region) : Gathering := { g with cutoff := some r.level }

/-- Passes one region. -/
def visit (t : RegionTable) (terms : Terms) (actor : Option Actor) (g : Gathering) (r : Region) :
    Gathering :=
  let g := match r.grant t terms actor with
    | some (v, _) => g.take t r v
    | none => g
  if terms.isFirstMatch && terms.membershipDecides && g.cutoff != some r.level &&
      !r.passesThrough t actor then g.close r
  else g

/-- Whether nothing is looked at from this region on. -/
def isClosedTo (terms : Terms) (g : Gathering) (r : Region) : Bool :=
  terms.isFirstMatch && g.cutoff.any r.level.isBelow

/-- Passes the regions of a place. -/
def visitAll (t : RegionTable) (terms : Terms) (actor : Option Actor) :
    Gathering → List Region → Gathering
  | g, [] => g
  | g, r :: rest =>
    if g.isClosedTo terms r then g
    else visitAll t terms actor (g.visit t terms actor r) rest

end Gathering

/-- The values that count at a place, each with the region
there that gave it, in order of precedence. -/
def gather (t : RegionTable) (terms : Terms) (actor : Option Actor) (candidates : List Region) :
    List (RegionId × Value) :=
  (Gathering.visitAll t terms actor {} candidates).considered

/-! ## Belonging -/

/-- Whether an actor belongs to a place. -/
inductive Belonging where
  /-- No region counts. -/
  | unclaimed
  | outsider
  | insider
  deriving DecidableEq, Repr

/-- What has been found so far about an actor and the regions of a place. -/
structure Attendance where
  /-- Levels below this one do not count. -/
  cutoff : Option Level := none
  /-- The regions that count, in order. -/
  counted : List RegionId := []
  /-- Counted regions that the actor has still to be shown to belong to. -/
  pending : List RegionId := []
  /-- Regions that the actor belongs to through a descendant. -/
  satisfied : List RegionId := []

namespace Attendance

/-- The actor belongs to a descendant of the region. -/
def satisfy (a : Attendance) (ancestor : RegionId) : Attendance :=
  if a.pending.contains ancestor then { a with pending := a.pending.erase ancestor }
  else { a with satisfied := a.satisfied ++ [ancestor] }

/-- Passes one region. -/
def visit (t : RegionTable) (actor : Actor) (a : Attendance) (r : Region) : Attendance :=
  if r.passesThrough t (some actor) then a
  else
    let a := { a with cutoff := some r.level, counted := a.counted ++ [r.id] }
    if a.satisfied.contains r.id then a
    else if (r.standing t actor).belongs then ((r.ancestors t).map (·.id)).foldl satisfy a
    else { a with pending := a.pending ++ [r.id] }

/-- Passes the regions of a place. -/
def visitAll (t : RegionTable) (actor : Actor) : Attendance → List Region → Attendance
  | a, [] => a
  | a, r :: rest =>
    if a.cutoff.any r.level.isBelow then a
    else visitAll t actor (a.visit t actor r) rest

/-- What the regions passed come to. -/
def belonging (a : Attendance) : Belonging :=
  if a.counted.isEmpty then .unclaimed
  else if a.pending.isEmpty then .insider
  else .outsider

end Attendance

/-- Whether an actor belongs to a place, and the regions that count there. The candidates are the
regions of the place in order of precedence. -/
def attend (t : RegionTable) (actor : Actor) (candidates : List Region) :
    Belonging × List RegionId :=
  let a := Attendance.visitAll t actor {} candidates
  (a.belonging, a.counted)

end Enclave
