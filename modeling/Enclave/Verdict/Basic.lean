import Enclave.Verdict.Gathering

/-!
# Verdicts

A `Verdict` is what a flag comes to at a place, and why: regions there gave the value, or membership
decided it, or it is the flag's default, or nothing was said.

`Bylaws` are what a verdict is given by: the catalogue of flags, and the values that a world has in
place of the catalogue's defaults. Every question has a verdict; a flag that nobody knows is decided
by the first value and has no default.
-/

namespace Enclave

/-- Why a verdict is what it is. -/
inductive Source where
  /-- These regions gave the value, in order of precedence. -/
  | regions (ids : List RegionId)
  /-- No region gave a value; whether the actor belongs to these regions decided. -/
  | membership (ids : List RegionId)
  | default
  | unset
  deriving DecidableEq

/-- What a flag comes to at a place. -/
structure Verdict where
  flag : FlagName
  value : Option Value
  source : Source

namespace Verdict

/-- The regions that gave the value, or by which membership was judged. -/
def contributors (v : Verdict) : List RegionId :=
  match v.source with
  | .regions ids | .membership ids => ids
  | .default | .unset => []

def permission? (v : Verdict) : Option Permission := v.value.bind Value.permission?

/-- Whether the flag was expressly allowed, or is true. -/
def isAllowed (v : Verdict) : Bool :=
  match v.value with
  | some (.state p) => p == .allow
  | some (.bool b) => b
  | _ => false

/-- Whether the flag was expressly denied, or is false. -/
def isDenied (v : Verdict) : Bool :=
  match v.value with
  | some (.state p) => p == .deny
  | some (.bool b) => !b
  | _ => false

end Verdict

/-- What verdicts are given by. -/
structure Bylaws where
  catalogue : Catalogue
  /-- Values in place of the catalogue's defaults. -/
  defaults : Table FlagName Value := ∅

namespace Bylaws

/-- The value of a flag where no region gives one. -/
def default? (b : Bylaws) (flag : FlagName) : Option Value :=
  (b.defaults.get? flag).or ((b.catalogue.get? flag).bind (·.default))

/-- The terms on which a flag is decided. -/
def terms (b : Bylaws) (flag : FlagName) : Terms := .ofRule flag (b.catalogue.get? flag)

/-- The value that one region grants, and the region of its lineage whose setting it is. -/
def grant (b : Bylaws) (t : RegionTable) (r : Region) (flag : FlagName) (actor : Option Actor) :
    Option (Value × RegionId) :=
  (r.grant t (b.terms flag) actor).map fun (v, s) => (v, s.id)

/-- The regions that stand behind a combined value: the first, where the first value stands, and
otherwise all that gave an equal value. -/
def credited (c : Combinator) (value : Value) (gathered : List (RegionId × Value)) :
    List RegionId :=
  if c.isCombining then (gathered.filter (·.2 == value)).map (·.1)
  else (gathered.take 1).map (·.1)

/-- The verdict that the regions of a place give, if they give one. -/
def byRegions? (b : Bylaws) (t : RegionTable) (candidates : List Region) (flag : FlagName)
    (actor : Option Actor) : Option Verdict :=
  let combinator := (b.terms flag).combinator
  let gathered := gather t (b.terms flag) actor candidates
  (combinator.combine (gathered.map (·.2))).map fun value =>
    ⟨flag, some value, .regions (credited combinator value gathered)⟩

/-- The verdict that membership gives, if it decides the flag and some region counts. -/
def byMembership? (b : Bylaws) (t : RegionTable) (candidates : List Region) (flag : FlagName)
    (actor : Option Actor) : Option Verdict :=
  if (b.terms flag).membershipDecides then
    actor.bind fun a =>
      match attend t a candidates with
      | (.unclaimed, _) => none
      | (.insider, ids) => some ⟨flag, some (.state .allow), .membership ids⟩
      | (.outsider, ids) => some ⟨flag, some (.state .deny), .membership ids⟩
  else none

/-- The verdict where nothing at the place gives one. -/
def byDefault (b : Bylaws) (flag : FlagName) : Verdict :=
  match b.default? flag with
  | some v => ⟨flag, some v, .default⟩
  | none => ⟨flag, none, .unset⟩

/-- What a flag comes to, for an actor or for none, among regions in order of precedence. Without an
actor, values are given whomever they are meant for, and membership decides nothing. -/
def resolve (b : Bylaws) (t : RegionTable) (candidates : List Region) (flag : FlagName)
    (actor : Option Actor) : Verdict :=
  ((b.byRegions? t candidates flag actor).or (b.byMembership? t candidates flag actor)).getD
    (b.byDefault flag)

/-- What several permissions come to together: denied if one is, and nothing if none is settled. -/
def permission? (b : Bylaws) (t : RegionTable) (candidates : List Region) (flags : List FlagName)
    (actor : Option Actor) : Option Permission :=
  Permission.combine (flags.map fun flag => (b.resolve t candidates flag actor).permission?)

end Bylaws

end Enclave
