import Enclave.Proofs.World.Household
import Enclave.Proofs.World.Parentage
import Enclave.World.Territory

/-!
# Requests

A `Request` is what may be asked of a territory, and `Territory.serve` the answer to it. Of each
request it is said when it can be granted (`Request.Admissible`), what it then changes and gives
(`Request.Change`), and what it is refused for otherwise (`Request.Grounds`). What there are grounds
to refuse cannot be granted, and the grounds are never a fault of the library itself.
-/

namespace Enclave

open Region (Names)
open Relation (ReflTransGen)

/-! ## Requests -/

/-- What may be asked of a territory. -/
inductive Request where
  | add (r : Region)
  | remove (id : RegionId)
  | removeWith (id : RegionId) (succession : Succession)
  | redefine (id : RegionId) (shape : Shape Float)
  | setParent (id : RegionId) (parent : Option RegionId)
  | setPriority (id : RegionId) (priority : Int)
  | setFlag (id : RegionId) (flag : FlagName) (setting : Setting)
  | clearFlag (id : RegionId) (flag : FlagName)
  | update (id : RegionId) (edit : Region → Region)
  | reload (ds : List Declaration)

/-- Whether a refusal tells of a fault of the library itself. -/
def Refusal.isInternal : Refusal → Bool
  | .inconsistent _ | .index _ => true
  | _ => false

/-- Whether a refusal is for what was asked alone, whatever regions there are. -/
def Refusal.isFormal : Refusal → Bool
  | .invalidId .. | .invalidShape _ | .duplicateId _ | .invalidPriority .. | .kindMismatch .. => true
  | _ => false

/-- An edit left the region's id, its shape and its parent as they were. -/
structure Region.SamePlace (before after : Region) : Prop where
  id : after.id = before.id
  shape : (after.shape == before.shape) = true
  parent : after.parent = before.parent

/-- The second table has not the region of the id, and its children are without a parent. -/
structure Orphaned (t t' : RegionTable) (id : RegionId) : Prop where
  here : t'.get? id = none
  elsewhere : ∀ id', id' ≠ id → t'.get? id' = (t.get? id').map (Atlas.orphanFrom id)

namespace Request

/-- What a request gives. -/
def Result : Request → Type
  | add _ | redefine .. | setParent .. | setPriority .. | update .. => Unit
  | remove _ => Region
  | removeWith .. => List RegionId
  | setFlag .. | clearFlag .. => Option Setting
  | reload _ => Nat

/-- The request can be granted. -/
def Admissible (t : Territory) : Request → Prop
  | add r => t.policy.Admits t.catalogue r ∧ t.atlas.contains r.id = false ∧
    ∀ parent, r.parent = some parent → t.atlas.contains parent = true
  | remove id | removeWith id _ | clearFlag id _ => t.atlas.contains id = true
  | redefine id shape => shape.fault? = none ∧ shape.isGlobal = false ∧
    ∃ r, t.atlas.get? id = some r ∧ r.isGlobal = false
  | setParent id parent => t.atlas.contains id = true ∧ ∀ p, parent = some p →
    t.atlas.contains p = true ∧ ¬ ReflTransGen (Names t.atlas.regions) p id
  | setPriority id priority => t.policy.allows priority = true ∧ t.atlas.contains id = true
  | setFlag id flag setting => t.catalogue.Permits flag setting ∧ t.atlas.contains id = true
  | update id edit => ∃ r, t.atlas.get? id = some r ∧ r.SamePlace (edit r) ∧
    t.policy.Admits t.catalogue (edit r)
  | reload ds => Loadable t.policy t.catalogue ds

/-- What a request changes and gives. Regions that are not spoken of stay as they are. -/
def Change (old new : RegionTable) : (request : Request) → request.Result → Prop
  | add r, _ => old.DiffersAt new r.id (some r)
  | remove id, r => old.get? id = some r ∧ Orphaned old new id
  | removeWith id .orphan, ids => ids = [id] ∧ Orphaned old new id
  | removeWith id .remove, (ids : List RegionId) => Atlas.Household old id ids ∧
    ∀ id', new.get? id' = if id' ∈ ids then none else old.get? id'
  | redefine id shape, _ => ∃ r, old.get? id = some r ∧
    old.DiffersAt new id (some { r with shape })
  | setParent id parent, _ => ∃ r, old.get? id = some r ∧
    old.DiffersAt new id (some { r with parent })
  | setPriority id priority, _ => ∃ r, old.get? id = some r ∧
    old.DiffersAt new id (some { r with priority })
  | setFlag id flag setting, previous => ∃ r, old.get? id = some r ∧ previous = r.setting? flag ∧
    ∃ settings, r.settings.DiffersAt settings flag (if setting.isEmpty then none else setting) ∧
      old.DiffersAt new id (some { r with settings })
  | clearFlag id flag, previous => ∃ r, old.get? id = some r ∧ previous = r.setting? flag ∧
    ∃ settings, r.settings.DiffersAt settings flag none ∧
      old.DiffersAt new id (some { r with settings })
  | update id edit, _ => ∃ r, old.get? id = some r ∧ r.SamePlace (edit r) ∧
    old.DiffersAt new id (some (edit r))
  | reload ds, count => count = ds.length ∧ Loaded ds new

/-- The region that must be there for the request. -/
def subject? : Request → Option RegionId
  | add _ | reload _ => none
  | remove id | removeWith id _ | redefine id _ | setParent id _ | setPriority id _ | setFlag id _ _
  | clearFlag id _ | update id _ => some id

/-- What a request is refused for. -/
inductive Grounds (t : Territory) : Request → Refusal → Prop
  | missing {request : Request} {id : RegionId} : request.subject? = some id →
    t.atlas.contains id = false → Grounds t request (.notFound id)
  | rejected {r : Region} {e : Refusal} : t.policy.Rejects t.catalogue r e → Grounds t (add r) e
  | taken {r : Region} : t.atlas.contains r.id = true → Grounds t (add r) (.duplicateId r.id)
  | unknown {r : Region} {parent : RegionId} : r.parent = some parent →
    t.atlas.contains parent = false → Grounds t (add r) (.unknownParent r.id parent)
  | misshapen {id : RegionId} {shape : Shape Float} {fault : ShapeFault Float} :
    shape.fault? = some fault → Grounds t (redefine id shape) (.invalidShape fault)
  | unbounded {id : RegionId} {shape : Shape Float} {r : Region} : t.atlas.get? id = some r →
    (r.isGlobal || shape.isGlobal) = true → Grounds t (redefine id shape) (.fixedField id .shape)
  | unknownParent {id parent : RegionId} : t.atlas.contains parent = false →
    Grounds t (setParent id (some parent)) (.unknownParent id parent)
  | circular {id parent : RegionId} : t.atlas.contains id = true →
    t.atlas.contains parent = true → ReflTransGen (Names t.atlas.regions) parent id →
    Grounds t (setParent id (some parent)) (.circularParent id parent)
  | outOfBounds {id : RegionId} {priority : Int} {e : Refusal} : t.policy.OutOfBounds priority e →
    Grounds t (setPriority id priority) e
  | mismatch {id : RegionId} {flag : FlagName} {setting : Setting} {e : Refusal} :
    t.catalogue.Mismatch flag setting e → Grounds t (setFlag id flag setting) e
  | moved {id : RegionId} {edit : Region → Region} {r : Region} {field : FixedField} :
    t.atlas.get? id = some r → Territory.changedField? r (edit r) = some field →
    Grounds t (update id edit) (.fixedField id field)
  | rejectedEdit {id : RegionId} {edit : Region → Region} {r : Region} {e : Refusal} :
    t.atlas.get? id = some r → t.policy.Rejects t.catalogue (edit r) e → Grounds t (update id edit) e
  | unloadable {ds : List Declaration} {e : Refusal} : Unloadable t.policy t.catalogue ds e →
    Grounds t (reload ds) e

/-- A region that is to be added has a sound shape, which `Region.make` and `Region.withShape` see
to. -/
def Sound : Request → Prop
  | add r => r.shape.fault? = none
  | _ => True

end Request

/-- What a territory makes of a request. -/
def Territory.serve [Platform] (t : Territory) :
    (request : Request) → Territory × Except Refusal request.Result
  | .add r => t.add r
  | .remove id => t.remove id
  | .removeWith id succession => t.removeWith id succession
  | .redefine id shape => t.redefine id shape
  | .setParent id parent => t.setParent id parent
  | .setPriority id priority => t.setPriority id priority
  | .setFlag id flag setting => t.setFlag id flag setting
  | .clearFlag id flag => t.clearFlag id flag
  | .update id edit => t.update id edit
  | .reload ds => t.reload ds

/-! ## Refusals -/

theorem Catalogue.Mismatch.isFormal {c : Catalogue} {flag : FlagName} {s : Setting} {e : Refusal}
    (h : c.Mismatch flag s e) : e.isFormal = true := by
  obtain ⟨_, _, _, _, _, rfl⟩ := h
  rfl

theorem Policy.OutOfBounds.isFormal {p : Policy} {priority : Int} {e : Refusal}
    (h : p.OutOfBounds priority e) : e.isFormal = true := by
  obtain ⟨-, rfl⟩ := h
  rfl

theorem Policy.Rejects.isFormal {p : Policy} {c : Catalogue} {r : Region} {e : Refusal}
    (h : p.Rejects c r e) : e.isFormal = true := by
  cases h with
  | priority out => exact out.isFormal
  | setting _ _ _ mismatch => exact mismatch.isFormal

theorem Unloadable.isFormal {p : Policy} {c : Catalogue} {ds : List Declaration} {e : Refusal}
    (h : Unloadable p c ds e) : e.isFormal = true := by
  cases h with
  | faulty d _ faulty =>
    cases faulty with
    | id fault _ he => exact he ▸ rfl
    | shape fault _ he => exact he ▸ rfl
    | region id rejects => exact rejects.isFormal
  | duplicate id _ he => exact he ▸ rfl

theorem Territory.changedField?_eq_none_iff {before after : Region} :
    changedField? before after = none ↔ before.SamePlace after := by
  rw [changedField?]
  constructor
  · intro h
    split at h
    · cases h
    next id =>
      split at h
      · cases h
      next shape =>
        split at h
        · cases h
        next parent => exact ⟨not_not.mp id, by simpa [bne] using shape, not_not.mp parent⟩
  · rintro ⟨id, shape, parent⟩
    rw [if_neg (not_not.mpr id), if_neg (by simp [bne, shape]), if_neg (not_not.mpr parent)]

namespace Request

variable {t : Territory} {request : Request} {e : Refusal} {id : RegionId}

theorem Admissible.contains (h : request.Admissible t) (subject : request.subject? = some id) :
    t.atlas.contains id = true := by
  cases request <;> cases subject
  case remove | removeWith | clearFlag => exact h
  case redefine =>
    obtain ⟨-, -, r, found, -⟩ := h
    exact Table.contains_iff_get?.mpr ⟨r, found⟩
  case setParent => exact h.1
  case setPriority | setFlag => exact h.2
  case update =>
    obtain ⟨r, found, -⟩ := h
    exact Table.contains_iff_get?.mpr ⟨r, found⟩

/-- What there are grounds to refuse cannot be granted. -/
theorem Grounds.not_admissible (grounds : request.Grounds t e) : ¬ request.Admissible t := by
  intro h
  cases grounds with
  | missing subject absent => exact Bool.false_ne_true (absent.symm.trans (h.contains subject))
  | rejected rejects => exact rejects.not_admits h.1
  | taken taken => exact Bool.false_ne_true (h.2.1.symm.trans taken)
  | unknown parent absent => exact Bool.false_ne_true (absent.symm.trans (h.2.2 _ parent))
  | misshapen fault => exact nomatch fault.symm.trans h.1
  | @unbounded id shape r found either =>
    obtain ⟨-, bounded, r', found', bounded'⟩ := h
    obtain rfl := Option.some.inj (found.symm.trans found')
    simp [bounded, bounded'] at either
  | unknownParent absent => exact Bool.false_ne_true (absent.symm.trans (h.2 _ rfl).1)
  | circular _ _ path => exact (h.2 _ rfl).2 path
  | outOfBounds out => exact Bool.false_ne_true (out.1.symm.trans h.1)
  | mismatch mismatch => exact mismatch.not_permits h.1
  | moved found changed =>
    obtain ⟨r, found', same, -⟩ := h
    obtain rfl := Option.some.inj (found.symm.trans found')
    exact nomatch changed.symm.trans (Territory.changedField?_eq_none_iff.mpr same)
  | rejectedEdit found rejects =>
    obtain ⟨r, found', -, admits⟩ := h
    obtain rfl := Option.some.inj (found.symm.trans found')
    exact rejects.not_admits admits
  | unloadable unloadable => exact unloadable.not_loadable h

/-- The grounds for a refusal are never a fault of the library itself. -/
theorem Grounds.isInternal_eq_false (grounds : request.Grounds t e) : e.isInternal = false := by
  have formal : e.isFormal = true → e.isInternal = false := by
    cases e <;> first | exact fun _ => rfl | exact nofun
  cases grounds with
  | rejected h => exact formal h.isFormal
  | outOfBounds h => exact formal h.isFormal
  | mismatch h => exact formal h.isFormal
  | rejectedEdit _ h => exact formal h.isFormal
  | unloadable h => exact formal h.isFormal
  | _ => rfl

/-- Only a parent at or below the region is refused as circular. -/
theorem Grounds.circular_iff {child parent : RegionId} :
    request.Grounds t (.circularParent child parent) ↔
      request = .setParent child (some parent) ∧ t.atlas.contains child = true ∧
        t.atlas.contains parent = true ∧ ReflTransGen (Names t.atlas.regions) parent child := by
  constructor
  · intro grounds
    cases grounds with
    | circular child parent path => exact ⟨rfl, child, parent, path⟩
    | rejected h => exact nomatch h.isFormal
    | outOfBounds h => exact nomatch h.isFormal
    | mismatch h => exact nomatch h.isFormal
    | rejectedEdit _ h => exact nomatch h.isFormal
    | unloadable h => exact nomatch h.isFormal
  · rintro ⟨rfl, child, parent, path⟩
    exact .circular child parent path

end Request

end Enclave
