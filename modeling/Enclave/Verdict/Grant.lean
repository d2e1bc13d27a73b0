import Enclave.Flag.Catalogue
import Enclave.Region.Lineage

/-!
# What one region grants

The terms on which a flag is decided are what resolution needs of its rule. A flag that is not in
the catalogue is decided by the first value, of any kind and meant for everyone.

A region grants an actor the value of the nearest setting in its lineage that has one for the actor.
For whom a setting is meant is told by the actor's standing to the region itself, not to the
ancestor whose setting it is.

A region of the whole world is special in two ways. It lets other regions decide unless it is
claimed or denies it; and where membership decides a flag, an allow of its own counts for nothing
there.
-/

namespace Enclave

/-! ## Terms -/

/-- On what terms a flag is decided. -/
structure Terms where
  flag : FlagName
  /-- The kind of value that counts; if not given, any kind. -/
  kind : Option Kind := none
  combinator : Combinator := .firstMatch
  audience : Option Audience := none
  membershipDecides : Bool := false

namespace Terms

/-- The terms of a flag, given its rule if it has one. -/
def ofRule (flag : FlagName) : Option FlagRule → Terms
  | some r => ⟨flag, some r.kind, r.combinator, r.audience, r.membershipDecides⟩
  | none => { flag }

/-- The terms on which a region lets the regions around it decide, whatever the catalogue says. -/
def passthrough : Terms := { flag := .of Catalogue.passthroughText, kind := some .state }

/-- Whether the flag is the one by which a region lets the regions around it decide. -/
def isPassthrough (t : Terms) : Bool := t.flag.text == Catalogue.passthroughText

/-- Whether a value counts. -/
def accepts (t : Terms) (v : Value) : Bool := t.kind.all (v.kind == ·)

/-- Whether only the values of one level count, the first of them. -/
def isFirstMatch (t : Terms) : Bool := !t.combinator.isCombining

end Terms

/-! ## Granting -/

namespace Region

/-- The value that a region of the whole world sets for itself, of the kind that counts. -/
def ownValue? (terms : Terms) (r : Region) : Option Value :=
  (r.setting? terms.flag).bind (·.value)

/-- The value that a region's lineage grants an actor, and the region whose setting it is. -/
def inherited (t : RegionTable) (terms : Terms) (actor : Option Actor) (r : Region) :
    Option (Value × Region) :=
  let standing := actor.map (r.standing t)
  (r.lineage t).findSome? fun s =>
    match (s.setting? terms.flag).bind (·.valueFor terms.audience standing) with
    | some v => if terms.accepts v then some (v, s) else none
    | none => none

/-- The value that a region grants an actor, and the region whose setting it is. -/
def grant (t : RegionTable) (terms : Terms) (actor : Option Actor) (r : Region) :
    Option (Value × Region) :=
  if r.isGlobal && terms.isPassthrough then
    let denied := ((r.ownValue? terms).bind Value.permission?) == some .deny
    if r.isUnclaimed && !denied then some (.state .allow, r) else none
  else if r.isGlobal && terms.membershipDecides then
    match r.ownValue? terms with
    | some v =>
      if terms.accepts v && v.permission? != some .allow then some (v, r) else none
    | none => none
  else r.inherited t terms actor

/-- Whether the region lets the regions around it decide. -/
def passesThrough (t : RegionTable) (actor : Option Actor) (r : Region) : Bool :=
  ((r.grant t .passthrough actor).bind (·.1.permission?)) == some .allow

end Region

end Enclave
