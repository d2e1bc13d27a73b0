import Enclave.Flag.Setting
import Enclave.Index.Fault
import Enclave.Region.Id
import Enclave.Text

/-!
# Refusals

Why a request about regions is refused: a `Refusal` names the cause, `Refusal.message` tells it in
words, and `Refusal.category` sorts it into the four classes that callers act on.

An `Inconsistency` is what an audit of a world's regions may find. No request leads to one; the
audit is a check on this library itself.
-/

namespace Enclave

/-- What an audit of a world's regions may find wrong. -/
inductive Inconsistency where
  /-- A region is kept under an id that is not its own. -/
  | misfiled (region key : RegionId)
  | boxDiffers (region : RegionId)
  | notIndexed (region : RegionId)
  | globalNotListed (region : RegionId)
  | indexCount (indexed indexable : Nat)
  | globalsOutdated
  | danglingParent (region parent : RegionId)
  /-- The parent chain of a region comes back to an id on it. -/
  | cycle (region again : RegionId)
  | index (flaw : Flaw)
  /-- An inconsistency found by a caller, in the caller's words. -/
  | other (reason : String)
  deriving DecidableEq

def Inconsistency.message : Inconsistency → String
  | misfiled region key => s!"region {region} stored under id {key}"
  | boxDiffers region => s!"indexed box of {region} does not match its shape"
  | notIndexed region => s!"region {region} is missing from the index"
  | globalNotListed region => s!"global region {region} is not listed"
  | indexCount indexed indexable =>
    s!"index holds {indexed} ids but {indexable} regions are indexable"
  | globalsOutdated => "globals list is out of date"
  | danglingParent region parent => s!"parent {parent} of {region} does not exist"
  | cycle region again => s!"parent chain of {region} loops back to {again}"
  | index flaw => s!"spatial index: {(IndexFault.corrupt flaw).message}"
  | other reason => reason

/-- The fields of a region that an update may not change. -/
inductive FixedField where
  | id
  | shape
  | parent
  deriving DecidableEq, Repr

def FixedField.name : FixedField → String
  | id => "id"
  | shape => "shape"
  | parent => "parent"

/-- Why a request is refused. -/
inductive Refusal where
  | invalidId (text : String) (fault : IdFault)
  | invalidShape (fault : ShapeFault Float)
  | duplicateId (id : RegionId)
  | invalidPriority (priority min max : Int)
  | notFound (id : RegionId)
  /-- The parent descends from the region. -/
  | circularParent (region parent : RegionId)
  | unknownParent (region parent : RegionId)
  | kindMismatch (flag : FlagName) (expected found : Kind)
  | unknownFlag (flag : FlagName)
  | flagConflict (flag : FlagName) (fault : RuleFault)
  | inconsistent (found : Inconsistency)
  | worldNotLoaded (world : WorldName)
  | fixedField (region : RegionId) (field : FixedField)
  | index (fault : IndexFault)

/-- The classes of refusal. -/
inductive RefusalCategory where
  | validation
  | notFound
  | cycle
  | inconsistentState
  deriving DecidableEq, Repr

namespace Refusal

def message : Refusal → String
  | invalidId text fault => s!"invalid region id {Text.quoted text}: {fault.message}"
  | invalidShape fault => s!"invalid shape: {fault.message}"
  | duplicateId id => s!"region {id} already exists"
  | invalidPriority priority min max =>
    s!"priority {priority} is outside the allowed range {min}..={max}"
  | notFound id => s!"region {id} not found"
  | circularParent region parent =>
    s!"setting the parent of {region} to {parent} would create a cycle"
  | unknownParent region parent => s!"parent {parent} of region {region} does not exist"
  | kindMismatch flag expected found =>
    s!"flag {flag} expects a {expected.name} value, got {found.name}"
  | unknownFlag flag => s!"flag {flag} is not registered"
  | flagConflict flag fault => s!"flag {flag}: {fault.message}"
  | inconsistent found => s!"inconsistent state: {found.message}"
  | worldNotLoaded world => s!"world {world} is not loaded"
  | fixedField region field => s!"field {field.name} of region {region} cannot be changed in place"
  | index fault => fault.message

def category : Refusal → RefusalCategory
  | notFound _ | unknownParent .. | worldNotLoaded _ | index (.missingKey _) => .notFound
  | circularParent .. => .cycle
  | inconsistent _ | index (.corrupt _) => .inconsistentState
  | _ => .validation

end Refusal

end Enclave
