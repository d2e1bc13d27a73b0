import Enclave.Geometry.Shape

/-!
# Bounds on nodes, and faults of an index

How many entries a node of an index may hold, and how many it must. A node is split into two when it
holds one entry too many, so the minimum may be at most half of the maximum.

An index refuses bounds that cannot be used, boxes that are not valid, and keys that it holds already
or does not hold. Its audit tells what may be found wrong with its structure.
-/

namespace Enclave

/-! ## Bounds -/

/-- The bounds on the entries of a node. -/
structure Fanout where
  max : Nat := 16
  min : Nat := 6
  deriving DecidableEq, Repr, Inhabited

/-- What keeps bounds from being used. -/
inductive FanoutFault where
  | maxTooSmall (max : Nat)
  | minTooSmall (min : Nat)
  | minTooLarge (min max : Nat)
  /-- A fault found by a caller, in the caller's words. -/
  | other (reason : String)
  deriving DecidableEq, Repr

def FanoutFault.message : FanoutFault → String
  | maxTooSmall max => s!"max_children must be at least 4, got {max}"
  | minTooSmall min => s!"min_children must be at least 2, got {min}"
  | minTooLarge min max => s!"min_children ({min}) must not exceed half of max_children ({max})"
  | other reason => reason

namespace Fanout

/-- Everything wrong with the bounds. -/
def faults (f : Fanout) : List FanoutFault :=
  (if f.max < 4 then [.maxTooSmall f.max] else []) ++
    (if f.min < 2 then [.minTooSmall f.min] else []) ++
    (if f.max / 2 < f.min then [.minTooLarge f.min f.max] else [])

/-- Bounds that may be used: at least four entries at most, at least two at least, and room for two
nodes in what one may not hold. -/
structure Usable (f : Fanout) : Prop where
  four_le_max : 4 ≤ f.max
  two_le_min : 2 ≤ f.min
  min_le_half : f.min ≤ f.max / 2

theorem faults_eq_nil_iff (f : Fanout) : f.faults = [] ↔ f.Usable := by
  simp only [faults, List.append_eq_nil_iff, ite_eq_right_iff, List.cons_ne_nil, imp_false,
    Nat.not_lt]
  exact ⟨fun ⟨⟨h₁, h₂⟩, h₃⟩ => ⟨h₁, h₂, h₃⟩, fun ⟨h₁, h₂, h₃⟩ => ⟨⟨h₁, h₂⟩, h₃⟩⟩

end Fanout

/-! ## Faults -/

/-- What may be wrong with the structure of an index. -/
inductive Flaw where
  | overfull (depth count max : Nat)
  | underfull (depth count min : Nat)
  /-- A leaf does not lie as deep as the index is high. -/
  | unevenLeaf (depth height : Nat)
  /-- A leaf holds a key with a box other than the recorded one. -/
  | boxDiffers (key : String)
  /-- A leaf holds a key that is not recorded. -/
  | unrecorded (key : String)
  /-- A recorded key is in no leaf. -/
  | lost (key : String)
  /-- The root has children, but fewer than two. -/
  | thinRoot
  /-- A child's box is not the cover of what lies below it. -/
  | looseCover (depth : Nat)
  | countDiffers (held recorded : Nat)
  /-- A flaw found by a caller, in the caller's words. -/
  | other (reason : String)
  deriving DecidableEq, Repr

def Flaw.message : Flaw → String
  | overfull depth count max => s!"node at depth {depth} holds {count} entries, max is {max}"
  | underfull depth count min => s!"node at depth {depth} holds {count} entries, min is {min}"
  | unevenLeaf depth height => s!"leaf at depth {depth}, tree height is {height}"
  | boxDiffers key => s!"leaf box for {key} differs from the recorded box"
  | unrecorded key => s!"leaf holds unrecorded key {key}"
  | lost key => s!"key {key} is recorded but no leaf holds it"
  | thinRoot => "internal root has fewer than two children"
  | looseCover depth => s!"child box at depth {depth} does not match its contents"
  | countDiffers held recorded => s!"leaves hold {held} entries but {recorded} keys are recorded"
  | other reason => reason

/-- Why an index refuses a request. -/
inductive IndexFault where
  | invalidBox (box : Box Float) (fault : BoxFault)
  | duplicateKey (key : String)
  | missingKey (key : String)
  | badFanout (faults : List FanoutFault)
  | corrupt (flaw : Flaw)

namespace IndexFault

def message : IndexFault → String
  | invalidBox b fault => fault.explain b
  | duplicateKey key => s!"key {key} is already indexed"
  | missingKey key => s!"key {key} is not indexed"
  | badFanout faults =>
    "invalid index configuration: " ++ String.intercalate "; " (faults.map FanoutFault.message)
  | corrupt flaw => s!"corrupt tree: {flaw.message}"

/-- Whether the request named something that is not there. -/
def isMissing : IndexFault → Bool
  | missingKey _ => true
  | _ => false

/-- Whether the request itself was at fault. -/
def isInvalid : IndexFault → Bool
  | invalidBox .. | duplicateKey _ | badFanout _ => true
  | _ => false

end IndexFault

end Enclave
