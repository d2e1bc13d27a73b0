import Enclave.Refusal

/-!
# The catalogue of flags

A `Catalogue` holds the rules of the flags that are known. A rule
enters it once, and only if its combinator suits its kind, its default
has its kind, and it is a permission if membership decides it.

A flag that is not in the catalogue may hold values of any kind.
-/

namespace Enclave

namespace FlagRule

/-- Refuses a value of another kind than the flag's. -/
def checkValue (r : FlagRule) (v : Value) : Except Refusal Unit :=
  if v.kind = r.kind then .ok () else .error (.kindMismatch r.name r.kind v.kind)

/-- Refuses a rule that contradicts itself. -/
def check (r : FlagRule) : Except Refusal Unit :=
  if !r.combinator.suits r.kind then .error (.flagConflict r.name (.unsuited r.combinator r.kind))
  else if r.membershipDecides && r.kind != .state then
    .error (.flagConflict r.name .membershipNeedsState)
  else
    match r.default with
    | some v => r.checkValue v
    | none => .ok ()

end FlagRule

/-- The rules of the known flags. -/
abbrev Catalogue := Table FlagName FlagRule

namespace Catalogue

/-- Enters a rule. -/
def register (c : Catalogue) (r : FlagRule) : Except Refusal Catalogue := do
  r.check
  if c.contains r.name then throw (.flagConflict r.name .alreadyRegistered)
  return c.insert r.name r

/-- The rule of a flag that must be known. -/
def rule (c : Catalogue) (flag : FlagName) : Except Refusal FlagRule :=
  match c.get? flag with
  | some r => .ok r
  | none => .error (.unknownFlag flag)

/-- Refuses a value that a known flag cannot have. -/
def checkValue (c : Catalogue) (flag : FlagName) (v : Value) : Except Refusal Unit :=
  match c.get? flag with
  | some r => r.checkValue v
  | none => .ok ()

/-- Refuses a setting with a value that a known flag cannot have. -/
def checkSetting (c : Catalogue) (flag : FlagName) (s : Setting) : Except Refusal Unit :=
  s.values.forM (c.checkValue flag)

/-- Refuses settings of which one has a value that its flag cannot have. -/
def checkSettings (c : Catalogue) (s : Settings) : Except Refusal Unit :=
  s.entries.forM fun e => c.checkSetting e.1 e.2

/-! ## The flags that every world has -/

/-- The text of the flag by which a region lets the regions around it decide. -/
def passthroughText : String := "passthrough"

/-- The rules of the flags that every world has. -/
def builtinRules : List FlagRule :=
  [rule "build" .state (some allowed) .firstMatch none true,
   rule passthroughText .state, rule "pvp" .state, rule "block-break" .state,
   rule "block-place" .state, rule "use" .state, rule "mob-spawning" .state (some allowed),
   rule "entry" .state (some allowed) .firstMatch (some .nonMembers),
   rule "exit" .state (some allowed) .firstMatch (some .nonMembers),
   rule "tnt" .state none .denyOverrides,
   rule "creeper-explosion" .state (some allowed) .denyOverrides,
   rule "fire-spread" .state (some allowed) .denyOverrides,
   rule "lava-fire" .state (some allowed) .denyOverrides,
   rule "lightning" .state (some allowed) .denyOverrides,
   rule "invincible" .state, rule "greeting" .text, rule "farewell" .text,
   rule "heal-amount" .integer none .greatest, rule "heal-delay" .integer none .least,
   rule "send-chat" .state (some allowed), rule "notify-enter" .boolean, rule "walk-speed" .float]
where
  allowed : Value := .state .allow
  rule (name : String) (kind : Kind) (value : Option Value := none)
      (combinator : Combinator := .firstMatch) (audience : Option Audience := none)
      (membershipDecides : Bool := false) : FlagRule :=
    ⟨.of name, kind, value, combinator, audience, membershipDecides⟩

/-- The catalogue of the flags that every world has. -/
def builtin : Catalogue := .ofList (builtinRules.map fun r => (r.name, r))

end Catalogue

end Enclave
