import Mathlib.Data.List.Basic
import Enclave.Proofs.Outcome
import Enclave.Proofs.Table
import Enclave.World.Policy

/-!
# What the checks let through

A region is admitted if its priority lies within the bounds of the policy and every value that it
gives to a known flag has the flag's kind (`Policy.Admits`). A declaration is valid if its id can be
read, its shape is sound, and the region that it describes is admitted (`Declaration.Valid`); its
parent is not looked at. Each check lets through exactly what is so, and otherwise refuses it by
naming what is not (`Policy.Rejects`, `Declaration.Faulty`).

Of what a region sets, an empty setting is not kept, whatever is put (`Settings.Full`). So settings
that are written down in a list are read back from it as they were (`Settings.ofPairs_entries`).
-/

namespace Enclave

/-! ## Settings that are kept -/

namespace Settings

variable {s s' : Settings} {flag : FlagName}

/-- None of the settings is empty. -/
def Full (s : Settings) : Prop :=
  ∀ flag setting, s.get? flag = some setting → setting.isEmpty = false

theorem differsAt_put (s : Settings) (flag : FlagName) (setting : Setting) :
    s.DiffersAt (s.put flag setting).2 flag (if setting.isEmpty then none else setting) := by
  rw [put]
  cases setting.isEmpty with
  | true => exact Table.differsAt_erase s flag
  | false => exact Table.differsAt_insert s flag setting

theorem Full.of_differsAt (full : s.Full) {found : Option Setting}
    (differs : s.DiffersAt s' flag found)
    (here : ∀ setting, found = some setting → setting.isEmpty = false) : s'.Full := by
  intro flag' setting h
  by_cases same : flag' = flag
  · subst same
    exact here setting (differs.here.symm.trans h)
  · exact full flag' setting ((differs.elsewhere flag' same).symm.trans h)

theorem Full.put (full : s.Full) (flag : FlagName) (setting : Setting) :
    (s.put flag setting).2.Full :=
  full.of_differsAt (differsAt_put s flag setting) fun setting' h => by
    split at h
    · cases h
    next given =>
      cases h
      exact Bool.eq_false_iff.mpr given

theorem full_ofPairs (pairs : List (FlagName × Setting)) : (ofPairs pairs).Full :=
  List.foldlRecOn (motive := Full) pairs _ (fun _ _ h => nomatch h) fun _ full e _ =>
    full.put e.1 e.2

/-- Settings are read back as they were written down. -/
theorem ofPairs_entries (full : s.Full) : ofPairs s.entries = s := by
  have put_eq_insert : ∀ (s' : Settings), ∀ e ∈ s.entries, (s'.put e.1 e.2).2 = s'.insert e.1 e.2 :=
    fun s' e he => by
      rw [put, full e.1 e.2 ((Table.get?_eq_some_iff ..).mpr he)]
      rfl
  calc ofPairs s.entries = Table.ofList s.entries := List.foldl_ext _ _ _ put_eq_insert
    _ = s := s.ofList_entries

end Settings

/-! ## Settings that are permitted -/

namespace Catalogue

variable {c : Catalogue} {flag : FlagName} {s : Setting}

/-- Every value of the setting has the kind of its flag, if the flag is known. -/
def Permits (c : Catalogue) (flag : FlagName) (s : Setting) : Prop :=
  ∀ rule, c.get? flag = some rule → ∀ v ∈ s.values, v.kind = rule.kind

/-- The refusal names a value of the setting that has not the kind of its flag. -/
def Mismatch (c : Catalogue) (flag : FlagName) (s : Setting) (e : Refusal) : Prop :=
  ∃ rule, c.get? flag = some rule ∧
    ∃ v ∈ s.values, v.kind ≠ rule.kind ∧ e = .kindMismatch rule.name rule.kind v.kind

theorem Mismatch.not_permits {e : Refusal} (h : c.Mismatch flag s e) : ¬ c.Permits flag s := by
  obtain ⟨rule, known, v, hv, ne, -⟩ := h
  exact fun permits => ne (permits rule known v hv)

theorem ends_checkSetting (c : Catalogue) (flag : FlagName) (s : Setting) :
    Ends (c.checkSetting flag s) (fun _ => c.Permits flag s) (c.Mismatch flag s) := by
  have each : ∀ v, Ends (c.checkValue flag v)
      (fun _ => ∀ rule, c.get? flag = some rule → v.kind = rule.kind)
      fun e => ∃ rule, c.get? flag = some rule ∧ v.kind ≠ rule.kind ∧
        e = .kindMismatch rule.name rule.kind v.kind := by
    intro v
    rw [checkValue]
    split
    next rule known =>
      rw [FlagRule.checkValue]
      split
      next same => exact .pure fun _ known' => Option.some.inj (known.symm.trans known') ▸ same
      next differs => exact .throw ⟨rule, known, differs, rfl⟩
    next unknown => exact .pure fun _ known => nomatch unknown.symm.trans known
  refine (Ends.forM each).imp (fun _ h rule known v hv => h v hv rule known) ?_
  rintro e ⟨v, hv, rule, known, differs, rfl⟩
  exact ⟨rule, known, v, hv, differs, rfl⟩

/-- All settings have values of the right kinds only. -/
def PermitsAll (c : Catalogue) (s : Settings) : Prop :=
  ∀ flag setting, s.get? flag = some setting → c.Permits flag setting

theorem ends_checkSettings (c : Catalogue) (s : Settings) :
    Ends (c.checkSettings s) (fun _ => c.PermitsAll s)
      fun e => ∃ flag setting, s.get? flag = some setting ∧ c.Mismatch flag setting e := by
  refine (Ends.forM fun e : FlagName × Setting => c.ends_checkSetting e.1 e.2).imp ?_ ?_
  · exact fun _ h flag setting found => h (flag, setting) ((Table.get?_eq_some_iff ..).mp found)
  · rintro e ⟨⟨flag, setting⟩, he, mismatch⟩
    exact ⟨flag, setting, (Table.get?_eq_some_iff ..).mpr he, mismatch⟩

end Catalogue

/-! ## Regions -/

namespace Policy

variable {p : Policy} {c : Catalogue} {r : Region}

/-- The refusal names a priority that the policy does not allow. -/
def OutOfBounds (p : Policy) (priority : Int) (e : Refusal) : Prop :=
  p.allows priority = false ∧ e = .invalidPriority priority p.minPriority p.maxPriority

theorem ends_checkPriority (p : Policy) (priority : Int) :
    Ends (p.checkPriority priority) (fun _ => p.allows priority = true)
      (p.OutOfBounds priority) := by
  rw [checkPriority]
  split
  next allowed => exact .pure allowed
  next refused => exact .throw ⟨Bool.eq_false_iff.mpr refused, rfl⟩

theorem ends_checkBounds (p : Policy) :
    Ends p.checkBounds (fun _ => p.minPriority ≤ p.maxPriority)
      fun _ => p.maxPriority < p.minPriority := by
  rw [checkBounds]
  split
  next inverted => exact .throw inverted
  next bounds => exact .pure (Int.not_lt.mp bounds)

/-- The region may have its priority and its settings. -/
structure Admits (p : Policy) (c : Catalogue) (r : Region) : Prop where
  priority : p.allows r.priority = true
  settings : c.PermitsAll r.settings

/-- The refusal names the region's priority or one of its settings, which it may not have. -/
inductive Rejects (p : Policy) (c : Catalogue) (r : Region) (e : Refusal) : Prop
  | priority : p.OutOfBounds r.priority e → Rejects p c r e
  | setting (flag : FlagName) (s : Setting) :
    r.settings.get? flag = some s → c.Mismatch flag s e → Rejects p c r e

theorem Rejects.not_admits {e : Refusal} (h : p.Rejects c r e) : ¬ p.Admits c r := by
  intro admits
  cases h with
  | priority out => exact Bool.false_ne_true (out.1.symm.trans admits.priority)
  | setting flag s found mismatch => exact mismatch.not_permits (admits.settings flag s found)

theorem ends_checkRegion (p : Policy) (c : Catalogue) (r : Region) :
    Ends (p.checkRegion c r) (fun _ => p.Admits c r) (p.Rejects c r) := by
  refine ((p.ends_checkPriority r.priority).imp_refused fun _ => .priority).bind ?_
  intro _ allowed
  refine (c.ends_checkSettings r.settings).imp (fun _ settings => ⟨allowed, settings⟩) ?_
  rintro e ⟨flag, s, found, mismatch⟩
  exact .setting flag s found mismatch

end Policy

theorem Region.ends_checkShape (shape : Shape Float) :
    Ends (checkShape shape) (fun _ => shape.fault? = none)
      fun e => ∃ fault, shape.fault? = some fault ∧ e = .invalidShape fault := by
  rw [checkShape]
  split
  next fault found => exact .throw ⟨fault, found, rfl⟩
  next sound => exact .pure sound

/-! ## Declarations -/

namespace Declaration

variable {p : Policy} {c : Catalogue} {d : Declaration}

/-- The region that a declaration describes under an id, without its parent. -/
def plain (d : Declaration) (id : RegionId) : Region where
  id
  shape := d.shape
  priority := d.priority
  settings := .ofPairs d.settings
  owners := d.owners
  members := d.members

/-- The id can be read, the shape is sound, and the region described is admitted. -/
structure Valid (p : Policy) (c : Catalogue) (d : Declaration) : Prop where
  id : ∃ id, RegionId.parse d.id = .ok id
  shape : d.shape.fault? = none
  priority : p.allows d.priority = true
  settings : c.PermitsAll (.ofPairs d.settings)

/-- The refusal names what is not valid. -/
inductive Faulty (p : Policy) (c : Catalogue) (d : Declaration) (e : Refusal) : Prop
  | id (fault : IdFault) :
    RegionId.parse d.id = .error fault → e = .invalidId d.id fault → Faulty p c d e
  | shape (fault : ShapeFault Float) :
    d.shape.fault? = some fault → e = .invalidShape fault → Faulty p c d e
  | region (id : RegionId) : p.Rejects c (d.plain id) e → Faulty p c d e

theorem Faulty.not_valid {e : Refusal} (h : d.Faulty p c e) : ¬ d.Valid p c := by
  intro valid
  cases h with
  | id fault unread _ =>
    obtain ⟨id, read⟩ := valid.id
    cases unread.symm.trans read
  | shape fault found _ => cases found.symm.trans valid.shape
  | region id rejects => exact rejects.not_admits ⟨valid.priority, valid.settings⟩

theorem ends_readId (text : String) : Ends (Region.readId text)
    (fun id => RegionId.parse text = .ok id)
    fun e => ∃ fault, RegionId.parse text = .error fault ∧ e = .invalidId text fault := by
  rw [Region.readId]
  split
  next id read => exact .pure read
  next fault unread => exact .throw ⟨fault, unread, rfl⟩

/-- Without its parent, a declaration is refused for its id or its shape only. -/
theorem ends_ofDeclaration (d : Declaration) :
    Ends (Region.ofDeclaration { d with parent := none })
      (fun r => ∃ id, RegionId.parse d.id = .ok id ∧ d.shape.fault? = none ∧ r = d.plain id)
      (d.Faulty p c) := by
  refine ((ends_readId d.id).imp_refused ?_).bind fun id read => ?_
  · rintro e ⟨fault, unread, he⟩
    exact .id fault unread he
  · have made : Ends (Region.make id d.shape)
        (fun r => d.shape.fault? = none ∧ r = { id, shape := d.shape }) (d.Faulty p c) := by
      refine ((Region.ends_checkShape d.shape).imp_refused ?_).bind
        fun _ sound => .pure ⟨sound, rfl⟩
      rintro e ⟨fault, found, he⟩
      exact .shape fault found he
    refine made.bind ?_
    rintro _ ⟨sound, rfl⟩
    exact .pure ⟨id, read, sound, rfl⟩

end Declaration

end Enclave
