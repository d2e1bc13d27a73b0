import Enclave.Index.Fault
import Enclave.Flag.Catalogue
import Enclave.Region.Basic

/-!
# Policies

A `Policy` is what one world prescribes: the fanout of its index, values
in place of the catalogue's defaults, the priorities that a region may
have, whether every change is audited, and whether it is saved at once.
-/

namespace Enclave

/-- What one world prescribes. -/
structure Policy where
  fanout : Fanout := {}
  /-- Values in place of the catalogue's defaults. -/
  defaults : Table FlagName Value := ∅
  minPriority : Int := -2147483648
  maxPriority : Int := 2147483647
  /-- Whether every change is audited before it is published. -/
  verify : Bool := true
  /-- Whether every change is saved at once. -/
  persist : Bool := true

/-- What keeps a policy from being used. -/
inductive PolicyFault where
  | fanout (fault : FanoutFault)
  | prioritiesInverted (min max : Int)
  deriving DecidableEq, Repr

def PolicyFault.message : PolicyFault → String
  | fanout fault => s!"index: {fault.message}"
  | prioritiesInverted min max => s!"min_priority ({min}) exceeds max_priority ({max})"

namespace Policy

/-- Everything wrong with a policy. -/
def faults (p : Policy) : List PolicyFault :=
  p.fanout.faults.map .fanout ++
    if p.maxPriority < p.minPriority then [.prioritiesInverted p.minPriority p.maxPriority] else []

/-- Whether a region may have a priority. -/
def allows (p : Policy) (priority : Int) : Bool :=
  p.minPriority ≤ priority && priority ≤ p.maxPriority

/-- Refuses a priority that no region may have. -/
def checkPriority (p : Policy) (priority : Int) : Except Refusal Unit :=
  if p.allows priority then .ok ()
  else .error (.invalidPriority priority p.minPriority p.maxPriority)

/-- Refuses a policy under which no region could have any priority. -/
def checkBounds (p : Policy) : Except Refusal Unit :=
  if p.maxPriority < p.minPriority then
    .error (.invalidPriority p.minPriority p.minPriority p.maxPriority)
  else .ok ()

/-- Refuses a region whose priority or settings are not allowed. -/
def checkRegion (p : Policy) (c : Catalogue) (r : Region) : Except Refusal Unit := do
  p.checkPriority r.priority
  c.checkSettings r.settings

end Policy

end Enclave
