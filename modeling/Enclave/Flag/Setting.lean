import Enclave.Actor
import Enclave.Flag.Value

/-!
# Settings and rules

A flag is known by its name, which knows no letter case. A region sets a flag by a `Setting`: a
value, perhaps for one audience only, and values that override it for other audiences. `Settings`
are those of one region, by flag; a setting that gives no value at all is not kept.

A `FlagRule` says what a flag means: the kind of its values, the value it has where no region gives
one, how the values of several regions combine, for whom a bare value is meant, and whether
membership decides where no region does.
-/

namespace Enclave

/-! ## Names -/

/-- The name of a flag, in lower case. -/
structure FlagName where
  text : String
  deriving DecidableEq, Repr

namespace FlagName

/-- The flag that goes by a name. -/
def of (name : String) : FlagName := ⟨Text.lowercase name⟩

instance : ToString FlagName := ⟨text⟩
instance : Ord FlagName := ⟨compareOn text⟩
instance : Std.TransOrd FlagName := inferInstanceAs (Std.TransCmp (compareOn _))
instance : Std.LawfulEqOrd FlagName where
  eq_of_compare {a b} h := by
    have same : compare a.text b.text = .eq := h
    cases a
    cases b
    exact congrArg mk (Std.LawfulEqCmp.eq_of_compare same)

end FlagName

/-! ## Audiences

A value may be meant for some actors only: the audience is told apart by standing. -/

/-- Whom a value is meant for, in order of precedence. -/
inductive Audience where
  | owners
  | members
  | nonOwners
  | nonMembers
  | everyone
  | nobody
  deriving DecidableEq, Repr

namespace Audience

def name : Audience → String
  | owners => "owners"
  | members => "members"
  | nonOwners => "nonowners"
  | nonMembers => "nonmembers"
  | everyone => "all"
  | nobody => "none"

/-- Whether an actor of the given standing is meant. Owners count as members. -/
def includes : Audience → Standing → Bool
  | owners, s => s == .owner
  | members, s => s.belongs
  | nonOwners, s => s != .owner
  | nonMembers, s => !s.belongs
  | everyone, _ => true
  | nobody, _ => false

/-- The place in the order of precedence. -/
def place : Audience → Nat
  | owners => 0
  | members => 1
  | nonOwners => 2
  | nonMembers => 3
  | everyone => 4
  | nobody => 5

theorem place_injective {a b : Audience} (h : a.place = b.place) : a = b := by
  cases a <;> cases b <;> simp [place] at h ⊢

instance : Ord Audience := ⟨compareOn place⟩
instance : Std.TransOrd Audience := inferInstanceAs (Std.TransCmp (compareOn _))
instance : Std.LawfulEqOrd Audience where
  eq_of_compare {a b} h := by
    have : compare a.place b.place = .eq := h
    exact place_injective (Std.LawfulEqCmp.eq_of_compare this)

end Audience

/-! ## What a region sets -/

/-- What a region sets for one flag. -/
structure Setting where
  value : Option Value := none
  audience : Option Audience := none
  overrides : Table Audience Value := ∅

namespace Setting

/-- Whether no value is given. -/
def isEmpty (s : Setting) : Bool := s.value.isNone && s.overrides.isEmpty

/-- Every value given, the base value first. -/
def values (s : Setting) : List Value := s.value.toList ++ s.overrides.values

/-- The value given to an actor of the given standing. The first override meant for it wins; else
the base value, if it is meant for it: for the setting's own audience, or the flag's usual audience,
or everyone. Without an actor the base value is given. -/
def valueFor (s : Setting) (usual : Option Audience) : Option Standing → Option Value
  | none => s.value
  | some standing =>
    match s.overrides.entries.find? (·.1.includes standing) with
    | some (_, v) => some v
    | none => if ((s.audience.or usual).getD .everyone).includes standing then s.value else none

end Setting

/-- The settings of a region, by flag. -/
abbrev Settings := Table FlagName Setting

namespace Settings

/-- Sets a flag; an empty setting clears it. Tells what was set before. -/
def put (s : Settings) (flag : FlagName) (setting : Setting) : Option Setting × Settings :=
  (s.get? flag, if setting.isEmpty then s.erase flag else s.insert flag setting)

/-- Clears a flag. Tells what was set before. -/
def clear (s : Settings) (flag : FlagName) : Option Setting × Settings :=
  (s.get? flag, s.erase flag)

/-- The settings listed, a later one of the same flag in place of an earlier. -/
def ofPairs (pairs : List (FlagName × Setting)) : Settings :=
  pairs.foldl (fun s e => (s.put e.1 e.2).2) ∅

end Settings

/-! ## What a flag means -/

/-- What a flag means. -/
structure FlagRule where
  name : FlagName
  kind : Kind
  default : Option Value := none
  combinator : Combinator := .firstMatch
  /-- For whom a value is meant whose setting does not say. -/
  audience : Option Audience := none
  /-- Whether, where no region gives a value, members are allowed and others denied. -/
  membershipDecides : Bool := false

/-- What keeps a rule from being registered. -/
inductive RuleFault where
  /-- The combinator cannot use values of the kind. -/
  | unsuited (combinator : Combinator) (kind : Kind)
  /-- Only a permission can be decided by membership. -/
  | membershipNeedsState
  | alreadyRegistered
  /-- A fault found by a caller, in the caller's words. -/
  | other (reason : String)
  deriving DecidableEq, Repr

def RuleFault.message : RuleFault → String
  | unsuited combinator kind => s!"combinator {combinator.name} cannot combine {kind.name} values"
  | membershipNeedsState => "membership fallback needs a state flag"
  | alreadyRegistered => "already registered"
  | other reason => reason

end Enclave
