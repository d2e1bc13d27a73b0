import Enclave.Proofs.World.Locality

/-!
# Allows of the whole world

Where membership decides a flag, a region of the whole world can deny it, but an allow of its own
counts for nothing. So an allow that regions give comes from a region that is not of the whole world
(`Region.AllowedBy`), and whether a region of the whole world sets an allow or nothing makes no
difference to any verdict (`Territory.Reachable.unopened`).

Both hold save below such a region. Of a region of the whole world its own setting is passed over
where it is a candidate itself; but a region that has it as a parent looks through its whole
lineage, and inherits the allow like any other value.
-/

namespace Enclave

open Region (Alike)

variable {terms : Terms} {flag : FlagName} {actor : Option Actor} {r : Region}

/-! ## Where an allow comes from -/

theorem Value.eq_of_beq_state {u : Value} {p : Permission} (h : (u == .state p) = true) :
    u = .state p := by
  cases u with
  | state q => exact congrArg Value.state (eq_of_beq h)
  | _ => cases h

namespace Region

variable {t : RegionTable} {s : Region}

/-- Whose setting allows a flag that membership decides, as one candidate grants it. -/
inductive AllowedBy (t : RegionTable) (terms : Terms) (r s : Region) : Prop
  | bounded : s.isGlobal = false → AllowedBy t terms r s
  /-- A region inherits the allow of the whole world. -/
  | inherited : r.isGlobal = false → s.isGlobal = true → r.Below t s → AllowedBy t terms r s
  /-- Nobody's setting: a region of the whole world that nobody claims lets others decide. -/
  | passthrough : r.IsOpen terms → terms.isPassthrough = true → s = r → AllowedBy t terms r s

/-- A region of the whole world does not grant an allow of its own. -/
theorem allowedBy_of_grant (keyed : Keyed t) (acyclic : ∀ id, ¬ Relation.TransGen (Names t) id id)
    (agrees : Agrees t r) (decides : terms.membershipDecides = true)
    (h : r.grant t terms actor = some (.state .allow, s)) : r.AllowedBy t terms s := by
  cases global : r.isGlobal with
  | false =>
    rw [grant_of_bounded global] at h
    have above := (mem_lineage_iff keyed acyclic agrees).mp (inherited_cases h).1
    cases global' : s.isGlobal with
    | false => exact .bounded global'
    | true =>
      rcases atOrBelow_iff.mp above with rfl | below
      · exact absurd (global'.symm.trans global) Bool.false_ne_true.symm
      · exact .inherited global global' below
  | true =>
    cases passthrough : terms.isPassthrough with
    | true =>
      obtain ⟨same, isOpen⟩ := isOpen_of_grant global passthrough h
      exact .passthrough isOpen passthrough same
    | false =>
      rw [grant_of_membershipDecides global passthrough decides] at h
      obtain ⟨u, -, h⟩ := Option.bind_eq_some_iff.mp h
      split at h
      next counts =>
        cases h
        simp [Value.permission?] at counts
      next => cases h

/-! ## What an allow of the whole world changes -/

/-- The region sets no value for the flag but an allow. -/
def Permissive (flag : FlagName) (r : Region) : Prop :=
  ∀ setting u, r.setting? flag = some setting → setting.value = some u → u = .state .allow

/-- A permissive region of the whole world grants an allow for `passthrough`, if nobody claims it,
and no other flag that membership decides. -/
theorem value?_of_permissive (global : r.isGlobal = true) (permissive : r.Permissive terms.flag)
    (special : terms.isPassthrough = true ∨ terms.membershipDecides = true) :
    r.value? t terms actor =
      if terms.isPassthrough && r.isUnclaimed then some (.state .allow) else none := by
  have own : ∀ u, r.ownValue? terms = some u → u = .state .allow := fun u h => by
    obtain ⟨setting, set, value⟩ := Option.bind_eq_some_iff.mp h
    exact permissive setting u set value
  cases passthrough : terms.isPassthrough with
  | true =>
    rw [value?, grant_of_passthrough global passthrough, Bool.true_and]
    cases value : r.ownValue? terms with
    | none => cases r.isUnclaimed <;> rfl
    | some u =>
      obtain rfl := own u value
      cases r.isUnclaimed <;> rfl
  | false =>
    have decides := special.resolve_left (passthrough ▸ Bool.false_ne_true)
    rw [value?, grant_of_membershipDecides global passthrough decides, Bool.false_and]
    cases value : r.ownValue? terms with
    | none => rfl
    | some u =>
      obtain rfl := own u value
      simp [Value.permission?]

/-- The value that a region of the whole world grants is told by its own setting, where membership
decides the flag or it is `passthrough`. -/
theorem value?_of_isGlobal (global : r.isGlobal = true) (t' : RegionTable)
    (special : terms.isPassthrough = true ∨ terms.membershipDecides = true) :
    r.value? t terms actor = r.value? t' terms actor := by
  rw [value?, value?]
  cases passthrough : terms.isPassthrough with
  | true => rw [grant_of_passthrough global passthrough, grant_of_passthrough global passthrough]
  | false =>
    have decides := special.resolve_left (passthrough ▸ Bool.false_ne_true)
    rw [grant_of_membershipDecides global passthrough decides,
      grant_of_membershipDecides global passthrough decides]

end Region

instance : Nontrivial FlagName := ⟨⟨"a"⟩, ⟨"b"⟩, by decide⟩

namespace Territory

variable {t t' : Territory} {g g' : Region} {p : Point Float}

/-- Two territories that differ in what one region sets for one flag. -/
structure Resets (t t' : Territory) (flag : FlagName) (g g' : Region) : Prop where
  reachable : t.Reachable
  reachable' : t'.Reachable
  catalogue : t'.catalogue = t.catalogue
  policy : t'.policy = t.policy
  held : t.atlas.get? g.id = some g
  differs : t.atlas.regions.DiffersAt t'.atlas.regions g.id (some g')
  shape : g'.shape = g.shape
  unset : ∀ other, other ≠ flag → Alike other g g'

namespace Resets

variable (resets : t.Resets t' flag g g')
include resets

theorem get?_of_ne {id : RegionId} (ne : id ≠ g.id) : t'.atlas.get? id = t.atlas.get? id :=
  resets.differs.elsewhere id ne

theorem get?_of_mem (hr : r ∈ t.atlas.scanAt p) : t.atlas.get? r.id = some r :=
  (resets.reachable.consistent.mem_scanAt_iff.mp hr).1

/-- The same ids hold a point. -/
theorem mem_map_id_iff (id : RegionId) :
    id ∈ (t.atlas.scanAt p).map (·.id) ↔ id ∈ (t'.atlas.scanAt p).map (·.id) := by
  rw [resets.reachable.consistent.mem_map_id_scanAt_iff,
    resets.reachable'.consistent.mem_map_id_scanAt_iff]
  by_cases here : id = g.id
  · subst here
    have held' : t'.atlas.get? g.id = some g' := resets.differs.here
    simp only [resets.held, held', Option.some.injEq, exists_eq_left', Region.contains,
      resets.shape]
  · rw [resets.get?_of_ne here]

/-- A region that does not lie below the one that differs has a lineage alike for every flag, and
every region for every other flag. -/
theorem forall₂_lineage (other : FlagName) (hr : r ∈ t.atlas.scanAt p)
    (alike : r.AtOrBelow t.atlas.regions g → Alike other g g') :
    List.Forall₂ (Alike other) (r.lineage t.atlas.regions)
      ((t'.atlas.counterpart r).lineage t'.atlas.regions) ∧
      Alike other r (t'.atlas.counterpart r) :=
  resets.reachable.consistent.forall₂_lineage_counterpart resets.reachable'.consistent
    resets.mem_map_id_iff hr (Region.alikeAbove_of_differsAt resets.reachable.consistent.keyed
      (resets.get?_of_mem hr) resets.held resets.differs alike)

/-- A candidate of the whole world grants what it granted, if the setting was permissive and is. -/
theorem value?_eq_of_isGlobal (before : g.Permissive terms.flag) (after : g'.Permissive terms.flag)
    (special : terms.isPassthrough = true ∨ terms.membershipDecides = true)
    (hr : r ∈ t.atlas.scanAt p) (global : r.isGlobal = true) :
    r.value? t.atlas.regions terms actor =
      (t'.atlas.counterpart r).value? t'.atlas.regions terms actor := by
  by_cases here : r.id = g.id
  · obtain rfl := Option.some.inj (resets.held.symm.trans (here ▸ resets.get?_of_mem hr))
    obtain ⟨other, ne⟩ := exists_ne flag
    have alike := resets.unset other ne
    have held' : t'.atlas.get? g.id = some g' := resets.differs.here
    rw [Atlas.counterpart, held', Option.getD_some, Region.value?_of_permissive global before
      special, Region.value?_of_permissive (alike.isGlobal ▸ global) after special,
      alike.isUnclaimed_eq]
  · rw [Atlas.counterpart, resets.get?_of_ne here, resets.get?_of_mem hr, Option.getD_some]
    exact Region.value?_of_isGlobal global _ special

section Apart

variable (before : g.Permissive flag) (after : g'.Permissive flag) (global : g.isGlobal = true)
  (apart : ∀ r ∈ t.atlas.regionsAt p, r.isGlobal = false → ¬ r.Below t.atlas.regions g)
include before after global apart

/-- No candidate grants another value: those of the whole world pass over the settings that differ,
and no other inherits them. -/
theorem value?_eq (special : terms.isPassthrough = true ∨ terms.membershipDecides = true)
    (hr : r ∈ t.atlas.scanAt p) : r.value? t.atlas.regions terms actor =
      (t'.atlas.counterpart r).value? t'.atlas.regions terms actor := by
  by_cases same : terms.flag = flag
  · subst same
    cases whole : r.isGlobal with
    | true => exact resets.value?_eq_of_isGlobal before after special hr whole
    | false =>
      have hr' := (resets.reachable.consistent.regionsAt_perm_scanAt p).mem_iff.mpr hr
      obtain ⟨likes, alike⟩ := resets.forall₂_lineage terms.flag hr fun above => by
        rcases Region.atOrBelow_iff.mp above with rfl | below
        · exact absurd (global.symm.trans whole) Bool.false_ne_true.symm
        · exact absurd below (apart r hr' whole)
      exact Region.value?_eq likes alike
  · obtain ⟨likes, alike⟩ := resets.forall₂_lineage terms.flag hr fun _ => resets.unset _ same
    exact Region.value?_eq likes alike

theorem resolve_eq (decides : (t.bylaws.terms flag).membershipDecides = true)
    (actor : Option Actor) : t'.resolve p flag actor = t.resolve p flag actor := by
  obtain ⟨other, ne⟩ := exists_ne flag
  have likes (r : Region) (hr : r ∈ t.atlas.scanAt p) :=
    resets.forall₂_lineage other hr fun _ => resets.unset other ne
  refine (resets.reachable.resolve_eq_of_views resets.reachable' resets.catalogue.symm
    (congrArg Policy.defaults resets.policy.symm) resets.mem_map_id_iff
    (fun r hr => (likes r hr).2) fun r hr => ?_).symm
  obtain ⟨likes, alike⟩ := likes r hr
  have passes : r.passesThrough t.atlas.regions actor =
      (t'.atlas.counterpart r).passesThrough t'.atlas.regions actor := by
    rw [Region.passesThrough_eq, Region.passesThrough_eq,
      resets.value?_eq before after global apart (.inl rfl) hr]
  exact ⟨alike.id, alike.level_eq, Region.map_id_ancestors_eq likes,
    resets.value?_eq before after global apart (.inr decides) hr, Region.standing_eq likes,
    fun _ => passes⟩

end Apart

end Resets

end Territory

/-! ## Requests for an allow -/

/-- The request sets the flag with an allow or without a base value, or clears it. -/
inductive Request.Allows (id : RegionId) (flag : FlagName) : Request → Prop
  | setFlag {setting : Setting} : (∀ u, setting.value = some u → u = .state .allow) →
    Allows id flag (.setFlag id flag setting)
  | clearFlag : Allows id flag (.clearFlag id flag)

namespace Territory

variable {t : Territory} {g : Region} {p : Point Float}

/-- A granted request of this kind leaves a permissive setting, and everything else as it was. -/
theorem Reachable.exists_resets [Platform] (h : t.Reachable) (held : t.atlas.get? g.id = some g)
    {request : Request} (allows : request.Allows g.id flag) {x : request.Result}
    (granted : (t.serve request).2 = .ok x) :
    ∃ g', t.Resets (t.serve request).1 flag g g' ∧ g'.Permissive flag := by
  obtain ⟨a, next, grants⟩ :=
    (answered_serve h.consistent h.sound.usable request).granted x granted
  have policy : (t.serve request).1.policy = t.policy := by rw [next]
  have catalogue : (t.serve request).1.catalogue = t.catalogue := by rw [next]
  have change : request.Change t.atlas.regions (t.serve request).1.atlas.regions x := by
    rw [next]
    exact grants.change
  have reset {settings : Settings} {found : Option Setting}
      (here : g.settings.DiffersAt settings flag found)
      (differs : t.atlas.regions.DiffersAt (t.serve request).1.atlas.regions g.id
        (some { g with settings })) :
      t.Resets (t.serve request).1 flag g { g with settings } :=
    ⟨h, h.serve request, catalogue, policy, held, differs, rfl,
      fun other ne => ⟨rfl, rfl, rfl, rfl, rfl, rfl, (here.elsewhere other ne).symm⟩⟩
  cases allows with
  | setFlag permissive =>
    obtain ⟨r, held', -, settings, here, differs⟩ := change
    obtain rfl := Option.some.inj (held.symm.trans held')
    refine ⟨_, reset here differs, fun setting u set value => ?_⟩
    have set := here.here.symm.trans set
    split at set
    · cases set
    · cases set
      exact permissive u value
  | clearFlag =>
    obtain ⟨r, held', -, settings, here, differs⟩ := change
    obtain rfl := Option.some.inj (held.symm.trans held')
    exact ⟨_, reset here differs, fun setting u set => nomatch here.here.symm.trans set⟩

/-- An allow of the whole world does not open a flag at a point. -/
structure Unopened [Platform] (t : Territory) (p : Point Float) (flag : FlagName)
    (actor : Option Actor) : Prop where
  /-- Whoever is credited with an allow grants the setting of a bounded region, or has inherited
  it. -/
  allowedBy : ∀ ids, t.resolve p flag actor = ⟨flag, some (.state .allow), .regions ids⟩ →
    ∀ id ∈ ids, ∃ r ∈ t.atlas.regionsAt p, r.id = id ∧
      ∃ s, r.grant t.atlas.regions (t.bylaws.terms flag) actor = some (.state .allow, s) ∧
        r.AllowedBy t.atlas.regions (t.bylaws.terms flag) s
  /-- Whether a region of the whole world sets an allow or none makes no difference to those that do
  not lie below it. -/
  unaffected : ∀ g, t.atlas.get? g.id = some g → g.isGlobal = true → g.Permissive flag →
    (∀ r ∈ t.atlas.regionsAt p, r.isGlobal = false → ¬ r.Below t.atlas.regions g) →
    ∀ request : Request, request.Allows g.id flag →
      (t.serve request).1.resolve p flag actor = t.resolve p flag actor

/-- Where membership decides a flag, no allow of the whole world opens it, save to those that lie
below and inherit it. -/
theorem Reachable.unopened [Platform] (h : t.Reachable) (flag : FlagName)
    (decides : (t.bylaws.terms flag).membershipDecides = true) (p : Point Float)
    (actor : Option Actor) : t.Unopened p flag actor := by
  constructor
  case allowedBy =>
    intro ids resolved id hid
    have lineup := h.consistent.lineup_regionsAt p
    obtain ⟨r, hr, same, u, value, equal⟩ :=
      Bylaws.exists_value?_of_mem_ids (Bylaws.resolve_eq_regions_iff.mp resolved) hid
    obtain rfl : u = .state .allow := equal.elim (fun same => same) Value.eq_of_beq_state
    obtain ⟨s, granted⟩ := Region.value?_eq_some_iff.mp value
    exact ⟨r, hr, same, s, granted, Region.allowedBy_of_grant lineup.keyed lineup.acyclic
      (lineup.agrees r hr) decides granted⟩
  case unaffected =>
    intro g held global permissive apart request allows
    cases outcome : (t.serve request).2 with
    | error e =>
      have answered := answered_serve h.consistent h.sound.usable request
      rw [(answered.refused e outcome).1]
    | ok x =>
      obtain ⟨g', resets, permissive'⟩ := h.exists_resets held allows outcome
      exact resets.resolve_eq permissive permissive' global apart decides actor

/-- A plot where everyone may build, in a world that allows it too: the plot allows it, whatever
becomes of the allow of the world. -/
theorem unopened_of_plot : letI := Platform.reference
    ∃ t : Territory, t.Reachable ∧
    (t.bylaws.terms ⟨"build"⟩).membershipDecides = true ∧
    (t.atlas.scanAt ⟨1, 1, 1⟩).map (fun r => (r.id.text, r.isGlobal,
      (t.bylaws.grant t.atlas.regions r ⟨"build"⟩ (some (.ofPlayer 8))).map (·.2.text))) =
        [("__global__", true, none), ("plot", false, some "plot")] ∧
    t.Unopened ⟨1, 1, 1⟩ ⟨"build"⟩ (some (.ofPlayer 8)) ∧
    (t.serve (.clearFlag .global ⟨"build"⟩)).1.resolve ⟨1, 1, 1⟩ ⟨"build"⟩ (some (.ofPlayer 8)) =
      t.resolve ⟨1, 1, 1⟩ ⟨"build"⟩ (some (.ofPlayer 8)) := by
  let := Platform.reference
  let allow : Setting := { value := some (.state .allow) }
  let settings : Settings := .ofPairs [(⟨"build"⟩, allow)]
  let blank : Territory := ⟨{}, .insert ∅ ⟨"build"⟩
    { name := ⟨"build"⟩, kind := .state, membershipDecides := true }, .blank (.empty {})⟩
  let t := ((blank.add { Region.everywhere with settings }).1.add
    { id := ⟨"plot", by decide +kernel⟩, shape := .cuboid ⟨⟨0, 0, 0⟩, ⟨2, 2, 2⟩⟩, settings }).1
  have reachable : t.Reachable := ((reachable_blank _).add _).add _
  have unopened := reachable.unopened ⟨"build"⟩ (by decide +kernel) ⟨1, 1, 1⟩ (some (.ofPlayer 8))
  have scanned := reachable.consistent.regionsAt_perm_scanAt ⟨1, 1, 1⟩
  have rootless : ∀ r ∈ t.atlas.scanAt ⟨1, 1, 1⟩, r.parent = none := by decide +kernel
  have apart : ∀ r ∈ t.atlas.regionsAt ⟨1, 1, 1⟩, ∀ g, ¬ r.Below t.atlas.regions g := by
    intro r hr g below
    obtain ⟨above, parent, -⟩ := Relation.TransGen.head'_iff.mp below
    rw [Region.HasParent, Region.parentIn, rootless r (scanned.mem_iff.mp hr)] at parent
    cases parent
  have world : (t.atlas.get? .global).any (fun g => decide (g.id = .global ∧ g.isGlobal = true ∧
      g.setting? ⟨"build"⟩ = some allow)) = true := by decide +kernel
  obtain ⟨g, held, told⟩ := (Option.any_eq_true _ _).mp world
  obtain ⟨id, global, set⟩ := of_decide_eq_true told
  refine ⟨t, reachable, by decide +kernel, by decide +kernel, unopened, ?_⟩
  rw [← id] at held ⊢
  refine unopened.unaffected g held global (fun setting u set' value => ?_)
    (fun r hr _ => apart r hr g) _ .clearFlag
  cases set.symm.trans set'
  exact (Option.some.inj value).symm

/-- A camp in a world that allows everyone to build: the camp inherits the allow, and a stranger may
build in it, who may not once the world sets nothing. -/
theorem opened_of_camp : ∃ t : Territory, t.Reachable ∧ t.catalogue.Registered ∧
    (t.bylaws.terms ⟨"build"⟩).membershipDecides = true ∧
    (t.atlas.scanAt ⟨1, 1, 1⟩).map (fun r => (r.id.text, r.isGlobal,
      (t.bylaws.grant t.atlas.regions r ⟨"build"⟩ (some (.ofPlayer 8))).map (·.2.text))) =
        [("__global__", true, none), ("camp", false, some "__global__")] ∧
    (t.resolve ⟨1, 1, 1⟩ ⟨"build"⟩ (some (.ofPlayer 8))).permission? = some .allow ∧
    (t.resolve ⟨1, 1, 1⟩ ⟨"build"⟩ (some (.ofPlayer 8))).contributors.map (·.text) = ["camp"] ∧
    ((t.clearFlag .global ⟨"build"⟩).1.resolve ⟨1, 1, 1⟩ ⟨"build"⟩
      (some (.ofPlayer 8))).permission? = some .deny := by
  let := Platform.reference
  have reachable := (reachable_blank
    (.insert ∅ ⟨"build"⟩ { name := ⟨"build"⟩, kind := .state, membershipDecides := true })).add
      { Region.everywhere with
        settings := .ofPairs [(⟨"build"⟩, { value := some (.state .allow) })] }
  have reachable := reachable.add
    { id := ⟨"camp", by decide +kernel⟩
      shape := .cuboid ⟨⟨0, 0, 0⟩, ⟨2, 2, 2⟩⟩
      members := .of [7] []
      parent := some .global }
  refine ⟨_, reachable, ?_, by decide +kernel, by decide +kernel, by decide +kernel,
    by decide +kernel, by decide +kernel⟩
  simp only [Territory.catalogue_add]
  exact .insert .empty rfl rfl rfl

end Territory

end Enclave
