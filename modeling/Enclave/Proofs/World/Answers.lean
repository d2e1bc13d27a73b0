import Enclave.Proofs.World.Validation
import Enclave.Proofs.World.Loading
import Enclave.Proofs.World.Requests

/-!
# How requests are answered

Every operation answers its request as is said of the request (`Territory.answered_serve`): what is
granted is admissible, makes its change and nothing else, and gives the next generation; what is
refused has its grounds, and leaves the territory as it is. No audit stands in the way, for what an
operation gives is consistent. Between the two halves of a change an atlas need not be: where a
region is taken out to be entered anew, its children have no parent in between.
-/

namespace Enclave

open Region (Names)
open Relation (ReflTransGen)

/-! ## What each change keeps -/

namespace Atlas

variable {a : Atlas} {r before : Region} {id : RegionId} {t : RegionTable}

/-- A consistent atlas of the same generation, with other regions. -/
structure Revises (a : Atlas) (t : RegionTable) (a' : Atlas) : Prop extends a'.Consistent where
  generation_eq : a'.generation = a.generation
  regions_eq : a'.regions = t

theorem Consistent.succ (consistent : a.Consistent) : a.succ.Consistent :=
  ⟨⟨consistent.keyed, consistent.indexed, consistent.listed⟩, consistent.forest⟩

theorem Consistent.ends_insert [Platform] (consistent : a.Consistent)
    (fresh : a.contains r.id = false)
    (known : ∀ parent, r.parent = some parent → a.contains parent = true) :
    Ends (a.insert r) (a.Revises (a.regions.insert r.id r)) fun _ => r.shape.fault? ≠ none := by
  have missing : a.get? r.id = none := Option.not_isSome_iff_eq_none.mp (Bool.eq_false_iff.mp fresh)
  refine (consistent.toInStep.ends_insert missing).imp_given fun a' ⟨inStep, generation, regions⟩ =>
    ⟨⟨inStep, ?_⟩, generation, regions⟩
  rw [regions]
  exact consistent.forest.insert fresh known

/-- A region may take the place of one with an equal box and the same parent. -/
theorem Consistent.replace (consistent : a.Consistent) (found : a.get? r.id = some before)
    (same : (before.bounds? == r.bounds?) = true) (parent : r.parent = before.parent) :
    a.Revises (a.regions.insert r.id r) (a.replace r) where
  toInStep := consistent.toInStep.replace found same
  forest := consistent.forest.replace found fun _ names => parent.symm.trans names
  generation_eq := rfl
  regions_eq := rfl

/-- A region goes, and its children name no parent any more. -/
theorem Consistent.ends_take [Platform] (consistent : a.Consistent) (id : RegionId) :
    Ends (a.take id) (fun x => a.get? id = some x.1 ∧
        a.Revises ((a.regions.erase id).mapValues fun _ => orphanFrom id)
          (x.2.orphanChildrenOf id))
      (a.Missing id) := by
  refine (consistent.toInStep.ends_take id).imp_given fun x ⟨inStep, generation, found, without⟩ =>
    ⟨found, ⟨inStep.orphanChildrenOf id, ?_⟩, generation, ?_⟩
  · refine consistent.forest.mono ?_
    rintro child parent ⟨s, found, names⟩
    rw [regions_orphanChildrenOf, without.regions_eq_erase, Table.get?_mapValues] at found
    obtain ⟨s, left, rfl⟩ := Option.map_eq_some_iff.mp found
    rw [orphanFrom_eq] at names
    obtain ⟨names, ne⟩ := Option.filter_eq_some_iff.mp names
    have old : Names a.regions child parent := ⟨s, Table.get?_of_get?_erase left, names⟩
    rw [regions_orphanChildrenOf, without.regions_eq_erase, Table.contains_mapValues,
      Table.contains_erase_of_ne (of_decide_eq_true ne)]
    exact ⟨old, consistent.forest.parent_mem old⟩
  · rw [regions_orphanChildrenOf, without.regions_eq_erase]

theorem orphaned_erase (t : RegionTable) (id : RegionId) :
    Orphaned t ((t.erase id).mapValues fun _ => orphanFrom id) id where
  here := by rw [Table.get?_mapValues, Table.get?_erase_self, Option.map_none]
  elsewhere id' ne := by rw [Table.get?_mapValues, Table.get?_erase_of_ne ne]

/-- A household goes, and nobody is left who named one of it as a parent. -/
theorem Consistent.ends_takeAll [Platform] {ids : List RegionId} (consistent : a.Consistent)
    (household : Household a.regions id ids) (known : a.contains id = true) : Ends (a.takeAll ids)
      (fun a' => a'.Consistent ∧ a'.generation = a.generation ∧ a.Without ids a')
      fun _ => False := by
  refine (consistent.toInStep.ends_takeAll household.nodup fun _ => household.known known).imp_given
    fun a' ⟨inStep, generation, without⟩ =>
      ⟨⟨inStep, consistent.forest.mono ?_⟩, generation, without⟩
  have left := without.get?_eq
  rintro child parent ⟨s, found, names⟩
  rw [show a'.regions.get? child = _ from left child] at found
  split at found
  · cases found
  next outside =>
    have old : Names a.regions child parent := ⟨s, found, names⟩
    have stays : parent ∉ ids := fun h => outside (household.closed h old)
    have same : a'.regions.get? parent = a.regions.get? parent := (left parent).trans (if_neg stays)
    exact ⟨old, (congrArg Option.isSome same).trans (consistent.forest.parent_mem old)⟩

/-- A region that was taken out is entered anew with another shape. -/
theorem Consistent.ends_reinsert [Platform] (consistent : a.Consistent)
    (found : a.get? r.id = some before)
    (parent : r.parent = before.parent) (sound : r.shape.fault? = none) {next : Atlas}
    (inStep : next.InStep) (generation : next.generation = a.generation)
    (regions : next.regions = a.regions.erase r.id) :
    Ends (next.insert r) (a.Revises ((a.regions.erase r.id).insert r.id r)) fun _ => False := by
  have missing : next.get? r.id = none := by rw [get?, regions, Table.get?_erase_self]
  refine (inStep.ends_insert missing).imp (fun a' entered => ?_) fun _ refused => refused sound
  obtain ⟨inStep', generation', regions'⟩ := entered
  refine ⟨⟨inStep', ?_⟩, generation'.trans generation, regions ▸ regions'⟩
  refine consistent.forest.mono fun child above edge => ?_
  rw [regions', regions] at edge ⊢
  have old : Names a.regions child above := by
    rcases Region.names_insert_iff.mp edge with ⟨rfl, names⟩ | ⟨-, s, left, names⟩
    · exact ⟨before, found, parent.symm.trans names⟩
    · exact ⟨s, Table.get?_of_get?_erase left, names⟩
  refine ⟨old, Table.contains_insert_iff.mpr ?_⟩
  by_cases same : above = r.id
  · exact .inl same
  · rw [Table.contains_erase_of_ne same]
    exact .inr (consistent.forest.parent_mem old)

/-- What a region is changed into takes its place. -/
theorem ends_modify {α : Type} {change : Region → Except Refusal (α × Region)}
    {given : α × Atlas → Prop} {refused : Refusal → Prop}
    (missing : ∀ e, a.Missing id e → refused e)
    (changed : ∀ r, a.get? id = some r →
      Ends (change r) (fun x => given (x.1, a.replace x.2)) refused) :
    Ends (a.modify id change) given refused :=
  ((a.ends_region id).imp_refused missing).bind fun r found =>
    (changed r found).bind fun _ h => .pure h

end Atlas

/-! ## Answers -/

namespace Territory

variable {t : Territory} {request : Request}

/-- The request can be granted, and the atlas has its change made and no other. -/
structure Grants (t : Territory) (request : Request) (x : request.Result × Atlas) : Prop
    extends x.2.Consistent where
  admissible : request.Admissible t
  generation_eq : x.2.generation = t.generation
  change : request.Change t.atlas.regions x.2.regions x.1

/-- What is granted is published as the next generation; what is refused leaves the territory as it
is, and there are grounds to refuse it. -/
structure Answered (t : Territory) (request : Request)
    (outcome : Territory × Except Refusal request.Result) : Prop where
  granted : ∀ x, outcome.2 = .ok x →
    ∃ a : Atlas, outcome.1 = { t with atlas := a.succ } ∧ t.Grants request (x, a)
  refused : ∀ e, outcome.2 = .error e → outcome.1 = t ∧ (request.Sound → request.Grounds t e)

/-- An audit never stands in the way of a consistent atlas. -/
theorem commit_eq_of_consistent {α : Type} {a : Atlas} (consistent : a.Consistent) (x : α) :
    t.commit (.ok (x, a)) = ({ t with atlas := a.succ }, .ok x) := by
  rw [commit, publish, consistent.succ.audit_eq_none, ite_self]

theorem answered_commit {change : Except Refusal (request.Result × Atlas)}
    (ends : Ends change (t.Grants request) fun e => request.Sound → request.Grounds t e) :
    t.Answered request (t.commit change) := by
  cases change with
  | error e => exact ⟨nofun, fun _ eq => by cases eq; exact ⟨rfl, ends.error e rfl⟩⟩
  | ok x =>
    obtain ⟨x, a⟩ := x
    have grants := ends.ok (x, a) rfl
    rw [commit_eq_of_consistent grants.toConsistent]
    exact ⟨fun y eq => by cases eq; exact ⟨a, rfl, grants⟩, nofun⟩

theorem grounds_of_missing {id : RegionId} (subject : request.subject? = some id) :
    ∀ e, t.atlas.Missing id e → request.Sound → request.Grounds t e := by
  rintro e ⟨absent, rfl⟩ -
  exact .missing subject absent

theorem answered_add [Platform] (consistent : t.atlas.Consistent) (r : Region) :
    t.Answered (.add r) (t.add r) := by
  refine answered_commit ?_
  refine ((t.policy.ends_checkRegion t.catalogue r).imp_refused fun e rejects _ =>
    .rejected rejects).bind fun _ admits => ?_
  dsimp only
  split
  next taken => exact .throw_bind fun _ => .taken taken
  next fresh =>
    have fresh := Bool.eq_false_of_not_eq_true fresh
    -- What is left to do once the parent, if any, has been found.
    have enter (known : ∀ parent, r.parent = some parent → t.atlas.contains parent = true) :
        Ends (do return ((), ← t.atlas.insert r)) (t.Grants (.add r))
          fun e => (Request.add r).Sound → (Request.add r).Grounds t e := by
      refine ((consistent.ends_insert fresh known).imp_refused fun e unsound sound =>
        absurd sound unsound).bind fun a revises => .pure ?_
      refine ⟨revises.toConsistent, ⟨admits, fresh, known⟩, revises.generation_eq, ?_⟩
      exact revises.regions_eq ▸ Table.differsAt_insert ..
    cases hparent : r.parent with
    | none => exact enter fun _ h => nomatch hparent.symm.trans h
    | some parent =>
      dsimp only
      split
      next unknown => exact .throw_bind fun _ => .unknown hparent (by simpa using unknown)
      next known =>
        refine enter fun p hp => ?_
        obtain rfl := Option.some.inj (hparent.symm.trans hp)
        simpa using known

theorem answered_remove [Platform] (consistent : t.atlas.Consistent) (id : RegionId) :
    t.Answered (.remove id) (t.remove id) := by
  refine answered_commit ?_
  refine ((consistent.ends_take id).imp_refused (grounds_of_missing rfl)).bind
    fun x ⟨found, revises⟩ => .pure ?_
  refine ⟨revises.toConsistent, Table.contains_iff_get?.mpr ⟨_, found⟩, revises.generation_eq,
    found, ?_⟩
  exact revises.regions_eq ▸ Atlas.orphaned_erase t.atlas.regions id

theorem answered_removeWith [Platform] (consistent : t.atlas.Consistent) (id : RegionId) :
    ∀ succession, t.Answered (.removeWith id succession) (t.removeWith id succession)
  | .orphan => by
    -- The change is that of `remove`; only what is told of it differs.
    have removed := answered_remove consistent id
    have outcome : t.removeWith id .orphan = ((t.remove id).1, (t.remove id).2.map fun _ => [id]) :=
      rfl
    rw [outcome]
    generalize t.remove id = answer at removed ⊢
    obtain ⟨next, e | r⟩ := answer
    · refine ⟨nofun, fun _ refused => ?_⟩
      cases refused
      obtain ⟨same, grounds⟩ := removed.refused e rfl
      refine ⟨same, fun _ => ?_⟩
      cases grounds trivial with
      | missing subject absent => exact .missing subject absent
    · refine ⟨fun _ granted => ?_, nofun⟩
      cases granted
      obtain ⟨a, same, grants⟩ := removed.granted r rfl
      exact ⟨a, same, grants.toConsistent, grants.admissible, grants.generation_eq, rfl,
        grants.change.2⟩
  | .remove => by
    refine answered_commit ?_
    refine ((t.atlas.ends_region id).imp_refused (grounds_of_missing rfl)).bind fun r found => ?_
    have known := Table.contains_iff_get?.mpr ⟨r, found⟩
    have household := Atlas.household_household consistent.keyed known
    refine ((consistent.ends_takeAll household known).imp_refused fun _ => False.elim).bind
      fun a ⟨consistent', generation, without⟩ => .pure ?_
    exact ⟨consistent', known, generation, household, without.get?_eq⟩

theorem answered_redefine [Platform] (consistent : t.atlas.Consistent) (id : RegionId)
    (shape : Shape Float) : t.Answered (.redefine id shape) (t.redefine id shape) := by
  have checked := Region.ends_checkShape shape
  refine answered_commit ?_
  refine (checked.imp_refused fun e ⟨fault, found, he⟩ _ =>
    he ▸ .misshapen found).bind fun _ sound => ?_
  refine ((t.atlas.ends_region id).imp_refused (grounds_of_missing rfl)).bind fun r found => ?_
  dsimp only
  split
  next global => exact .throw_bind fun _ => .unbounded found global
  next bounded =>
    simp only [Bool.or_eq_true, not_or, Bool.not_eq_true] at bounded
    obtain rfl := consistent.keyed id r found
    have shaped : r.withShape shape = .ok { r with shape } := by
      rw [Region.withShape, Region.checkShape, sound]
      rfl
    -- Between the two steps the region is gone, and its children have no parent.
    have reinserted {next : Atlas} (inStep : next.InStep) :=
      consistent.ends_reinsert (r := { r with shape }) found rfl sound inStep
    rw [shaped]
    refine ((consistent.toInStep.ends_take r.id).imp_refused (grounds_of_missing rfl)).bind
      fun x taken => ?_
    obtain ⟨inStep, generation, -, without⟩ := taken
    have regions := without.regions_eq_erase
    refine ((reinserted inStep generation regions).imp_refused fun _ => False.elim).bind
      fun a revises => .pure ?_
    refine ⟨revises.toConsistent, ⟨sound, bounded.2, r, found, bounded.1⟩, revises.generation_eq,
      r, found, ?_⟩
    exact revises.regions_eq ▸ (Table.differsAt_erase ..).trans (Table.differsAt_insert ..)

/-- A region may be changed in all that does not place it. -/
theorem grants_replace (consistent : t.atlas.Consistent) {id : RegionId} {before r : Region}
    {x : request.Result} (found : t.atlas.get? id = some before) (own : r.id = before.id)
    (same : (before.bounds? == before.bounds?) = true → (before.bounds? == r.bounds?) = true)
    (parent : r.parent = before.parent) (admissible : request.Admissible t)
    (change : ∀ new, t.atlas.regions.DiffersAt new id (some r) →
      request.Change t.atlas.regions new x) :
    t.Grants request (x, t.atlas.replace r) := by
  obtain rfl := consistent.keyed id before found
  have revises := consistent.replace (own ▸ found) (same (consistent.bounds?_beq_self found)) parent
  refine ⟨revises.toConsistent, admissible, rfl, change _ ?_⟩
  exact own ▸ Table.differsAt_insert t.atlas.regions r.id r

theorem answered_setPriority (consistent : t.atlas.Consistent) (id : RegionId) (priority : Int) :
    t.Answered (.setPriority id priority) (t.setPriority id priority) := by
  refine answered_commit ?_
  refine ((t.policy.ends_checkPriority priority).imp_refused fun e out _ =>
    .outOfBounds out).bind fun _ allowed => ?_
  refine Atlas.ends_modify (grounds_of_missing rfl) fun r found => .pure ?_
  have known := Table.contains_iff_get?.mpr ⟨r, found⟩
  exact grants_replace consistent found rfl (fun same => same) rfl ⟨allowed, known⟩
    fun _ differs => ⟨r, found, differs⟩

theorem answered_setFlag (consistent : t.atlas.Consistent) (id : RegionId) (flag : FlagName)
    (setting : Setting) : t.Answered (.setFlag id flag setting) (t.setFlag id flag setting) := by
  refine answered_commit ?_
  refine ((t.catalogue.ends_checkSetting flag setting).imp_refused fun e mismatch _ =>
    .mismatch mismatch).bind fun _ permits => ?_
  refine Atlas.ends_modify (grounds_of_missing rfl) fun r found => .pure ?_
  have known := Table.contains_iff_get?.mpr ⟨r, found⟩
  exact grants_replace consistent found rfl (fun same => same) rfl ⟨permits, known⟩
    fun _ differs => ⟨r, found, rfl, _, Settings.differsAt_put r.settings flag setting, differs⟩

theorem answered_clearFlag (consistent : t.atlas.Consistent) (id : RegionId) (flag : FlagName) :
    t.Answered (.clearFlag id flag) (t.clearFlag id flag) := by
  refine answered_commit ?_
  refine Atlas.ends_modify (grounds_of_missing rfl) fun r found => .pure ?_
  have known := Table.contains_iff_get?.mpr ⟨r, found⟩
  exact grants_replace consistent found rfl (fun same => same) rfl known
    fun _ differs => ⟨r, found, rfl, _, Table.differsAt_erase r.settings flag, differs⟩

/-- An edit may do anything but change what places a region: its id, its shape and its parent. -/
theorem answered_update (consistent : t.atlas.Consistent) (id : RegionId)
    (edit : Region → Region) : t.Answered (.update id edit) (t.update id edit) := by
  refine answered_commit ?_
  refine Atlas.ends_modify (grounds_of_missing rfl) fun r found => ?_
  dsimp only
  split
  next field changed => exact .throw_bind fun _ => .moved found changed
  next unchanged =>
    have place := changedField?_eq_none_iff.mp (Option.eq_none_iff_forall_ne_some.mpr unchanged)
    refine ((t.policy.ends_checkRegion t.catalogue (edit r)).imp_refused fun e rejects _ =>
      .rejectedEdit found rejects).bind fun _ admits => .pure ?_
    exact grants_replace consistent found place.id
      (fun _ => BEq.symm (Shape.bounds?_congr place.shape)) place.parent
      ⟨r, found, place, admits⟩ fun _ differs => ⟨r, found, place, differs⟩

theorem answered_setParent (consistent : t.atlas.Consistent) (id : RegionId)
    (parent : Option RegionId) : t.Answered (.setParent id parent) (t.setParent id parent) := by
  refine answered_commit ?_
  refine Atlas.ends_modify (grounds_of_missing rfl) fun r found => ?_
  obtain rfl := consistent.keyed id r found
  have same := consistent.bounds?_beq_self found
  have known := Table.contains_iff_get?.mpr ⟨r, found⟩
  have differs (parent : Option RegionId) := Table.differsAt_insert t.atlas.regions r.id
    { r with parent }
  cases parent with
  | none =>
    refine .pure ⟨⟨consistent.toInStep.replace found same, ?_⟩, ⟨known, nofun⟩, rfl, r, found,
      differs none⟩
    exact consistent.forest.replace found nofun
  | some p =>
    dsimp only
    split
    next unknown => exact .throw_bind fun _ => .unknownParent (by simpa using unknown)
    next knownParent =>
      have knownParent : t.atlas.contains p = true := by simpa using knownParent
      have above_iff := Region.isAtOrAbove_iff t.atlas.regions r.id p
      split
      next above => exact .throw_bind fun _ => .circular known knownParent (above_iff.mp above)
      next apart =>
        have notAbove := mt above_iff.mpr apart
        -- The walk meets its own start, so a region that is to be its own parent went before.
        have other : p ≠ r.id := fun eq => notAbove (eq ▸ .refl)
        rw [Region.withParent, if_neg other]
        have admissible : (Request.setParent r.id (some p)).Admissible t :=
          ⟨known, fun p hp => Option.some.inj hp ▸ ⟨knownParent, notAbove⟩⟩
        refine .pure ⟨⟨consistent.toInStep.replace found same, ?_⟩, admissible, rfl, r, found,
          differs (some p)⟩
        exact consistent.forest.attach knownParent rfl notAbove

theorem answered_reload [Platform] (usable : t.policy.fanout.Usable) (ds : List Declaration) :
    t.Answered (.reload ds) (t.reload ds) := by
  refine answered_commit ?_
  refine ((Atlas.ends_ofDeclarations t.policy t.catalogue t.generation ds).imp_refused
    fun e h _ => .unloadable (h usable)).bind fun a from' => .pure ?_
  exact ⟨from'.toConsistent, from'.loadable, from'.generation_eq, from'.loaded.size_eq,
    from'.loaded⟩

/-- Every request is answered so, on a consistent atlas and under a policy that can be used. -/
theorem answered_serve [Platform] (consistent : t.atlas.Consistent)
    (usable : t.policy.fanout.Usable) : ∀ request, t.Answered request (t.serve request)
  | .add r => answered_add consistent r
  | .remove id => answered_remove consistent id
  | .removeWith id succession => answered_removeWith consistent id succession
  | .redefine id shape => answered_redefine consistent id shape
  | .setParent id parent => answered_setParent consistent id parent
  | .setPriority id priority => answered_setPriority consistent id priority
  | .setFlag id flag setting => answered_setFlag consistent id flag setting
  | .clearFlag id flag => answered_clearFlag consistent id flag
  | .update id edit => answered_update consistent id edit
  | .reload ds => answered_reload usable ds

end Territory

end Enclave
