import Enclave.Proofs.Verdict.Attendance
import Enclave.Proofs.Verdict.Resolution

/-!
# Where a verdict comes from

Regions come first, then membership, then the default of the world, then that of the catalogue, and
what none of them settles is unset (`Bylaws.Sourced`).

Regions settle a flag if a value was gathered, for what was gathered is of use: values are granted of
the kind that the combinator of a registered rule suits. The one exception is a catalogue that lets
values of another kind combine for the flag `passthrough` (`Bylaws.Misfits`). The allow of a region
of the whole world is gathered there too, and only the values of other regions are of use.

Gathering and membership look for the level that decides independently. Where the first value stands
and membership decides, they agree: the region whose value stands is not below any that counts.
-/

namespace Enclave

open Region (Lineup Precedes IsTop Upholds)

variable {b : Bylaws} {t : RegionTable} {terms : Terms} {actor : Option Actor} {r : Region}
  {candidates upheld : List Region} {flag : FlagName} {v : Verdict}

/-- The permission that belonging to a place amounts to. -/
def Belonging.permission? : Belonging → Option Permission
  | .unclaimed => none
  | .outsider => some .deny
  | .insider => some .allow

theorem Belonging.exists_permission?_iff {belonging : Belonging} :
    (∃ p, belonging.permission? = some p) ↔ belonging ≠ .unclaimed := by
  cases belonging <;> simp [permission?]

namespace Verdict

/-- Regions gave the value. -/
def IsByRegions (v : Verdict) : Prop := ∃ ids, v.source = .regions ids

/-- Membership gave the value. -/
def IsByMembership (v : Verdict) : Prop := ∃ ids, v.source = .membership ids

end Verdict

namespace Bylaws

/-- The catalogue lets values combine for the flag `passthrough` that are no permissions. -/
def Misfits (b : Bylaws) (flag : FlagName) : Prop :=
  (b.terms flag).isPassthrough = true ∧ (b.terms flag).combinator.isCombining = true ∧
    (b.terms flag).kind ≠ some .state

/-- From where a verdict has its value. What comes later is asked only if what comes before gives
none. -/
structure Sourced (b : Bylaws) (t : RegionTable) (candidates : List Region) (flag : FlagName)
    (actor : Option Actor) (v : Verdict) : Prop where
  byRegions_iff : ¬ b.Misfits flag →
    (v.IsByRegions ↔ gather t (b.terms flag) actor candidates ≠ [])
  byRegions_iff_of_misfits : b.Misfits flag → (v.IsByRegions ↔ ∃ r ∈ candidates,
    r.isGlobal = false ∧ r.id ∈ (gather t (b.terms flag) actor candidates).map (·.1))
  membership_iff : ∀ ids, v.source = .membership ids ↔ ¬ v.IsByRegions ∧
    (b.terms flag).membershipDecides = true ∧ ∃ a, actor = some a ∧
      (attend t a candidates).1 ≠ .unclaimed ∧ (attend t a candidates).2 = ids
  /-- Insiders are allowed, and outsiders denied. -/
  judged : v.IsByMembership → ∀ a, actor = some a →
    ((attend t a candidates).1 = .insider ∧ v.value = some (.state .allow)) ∨
      ((attend t a candidates).1 = .outsider ∧ v.value = some (.state .deny))
  default_iff : v.source = .default ↔ ¬ v.IsByRegions ∧ ¬ v.IsByMembership ∧
    ((∃ u, b.defaults.get? flag = some u) ∨
      ∃ rule u, b.catalogue.get? flag = some rule ∧ rule.default = some u)
  /-- The default of the world takes the place of that of the catalogue. -/
  default_eq : v.source = .default → ∀ u, v.value = some u ↔ b.defaults.get? flag = some u ∨
    (b.defaults.get? flag = none ∧
      ∃ rule, b.catalogue.get? flag = some rule ∧ rule.default = some u)
  unset_iff : v.source = .unset ↔ v.value = none
  /-- A lower level decides nothing over a region that does not pass through. -/
  outranks : (b.terms flag).isFirstMatch = true → (b.terms flag).membershipDecides = true →
    ∀ a ids, actor = some a → v.source = .regions ids → ∃ w ∈ candidates, ids = [w.id] ∧
      (∀ r ∈ candidates, r.id ∈ (attend t a candidates).2 → w.level.isBelow r.level = false) ∧
      ∀ r ∈ candidates, r.passesThrough t actor = false → w.level.isBelow r.level = false

/-! ## One after the other -/

theorem byMembership?_eq_some_iff : b.byMembership? t candidates flag actor = some v ↔
    (b.terms flag).membershipDecides = true ∧ ∃ a, actor = some a ∧
      ∃ p, (attend t a candidates).1.permission? = some p ∧
        v = ⟨flag, some (.state p), .membership (attend t a candidates).2⟩ := by
  unfold byMembership?
  split
  next decides =>
    cases actor with
    | none => simp
    | some a =>
      simp only [decides, Option.bind_some, Option.some.injEq, exists_eq_left', true_and]
      obtain ⟨belonging, ids⟩ := attend t a candidates
      cases belonging <;> simp [Belonging.permission?, eq_comm]
  next not => simp [not]

theorem default?_eq_some_iff {u : Value} : b.default? flag = some u ↔
    b.defaults.get? flag = some u ∨ (b.defaults.get? flag = none ∧
      ∃ rule, b.catalogue.get? flag = some rule ∧ rule.default = some u) := by
  rw [default?, Option.or_eq_some_iff, Option.bind_eq_some_iff]

theorem exists_default?_iff : (∃ u, b.default? flag = some u) ↔
    (∃ u, b.defaults.get? flag = some u) ∨
      ∃ rule u, b.catalogue.get? flag = some rule ∧ rule.default = some u := by
  simp only [default?_eq_some_iff]
  cases b.defaults.get? flag with
  | some u => simp
  | none =>
    simp only [reduceCtorEq, false_or, true_and, exists_false]
    exact exists_comm

/-- A verdict that one source gives and none before it. -/
inductive Gives (b : Bylaws) (t : RegionTable) (candidates : List Region) (flag : FlagName)
    (actor : Option Actor) : Verdict → Prop
  | regions {u : Value} {ids : List RegionId} :
    b.byRegions? t candidates flag actor = some ⟨flag, some u, .regions ids⟩ →
    Gives b t candidates flag actor ⟨flag, some u, .regions ids⟩
  | membership {a : Actor} {p : Permission} : b.byRegions? t candidates flag actor = none →
    (b.terms flag).membershipDecides = true → actor = some a →
    (attend t a candidates).1.permission? = some p →
    Gives b t candidates flag actor
      ⟨flag, some (.state p), .membership (attend t a candidates).2⟩
  | default {u : Value} : b.byRegions? t candidates flag actor = none →
    b.byMembership? t candidates flag actor = none → b.default? flag = some u →
    Gives b t candidates flag actor ⟨flag, some u, .default⟩
  | unset : b.byRegions? t candidates flag actor = none →
    b.byMembership? t candidates flag actor = none → b.default? flag = none →
    Gives b t candidates flag actor ⟨flag, none, .unset⟩

theorem gives_resolve (b : Bylaws) (t : RegionTable) (candidates : List Region) (flag : FlagName)
    (actor : Option Actor) :
    b.Gives t candidates flag actor (b.resolve t candidates flag actor) := by
  unfold resolve
  cases regions : b.byRegions? t candidates flag actor with
  | some v =>
    obtain ⟨u, -, rfl⟩ := Option.map_eq_some_iff.mp regions
    exact .regions regions
  | none =>
    cases membership : b.byMembership? t candidates flag actor with
    | some v =>
      obtain ⟨decides, a, rfl, p, belongs, rfl⟩ := byMembership?_eq_some_iff.mp membership
      exact .membership regions decides rfl belongs
    | none =>
      change Gives b t candidates flag actor (b.byDefault flag)
      unfold byDefault
      cases default : b.default? flag with
      | some u => exact .default regions membership default
      | none => exact .unset regions membership default

namespace Gives

variable (gives : b.Gives t candidates flag actor v)
include gives

theorem isByRegions_iff : v.IsByRegions ↔ b.byRegions? t candidates flag actor ≠ none := by
  cases gives with
  | regions found => exact iff_of_true ⟨_, rfl⟩ (found ▸ Option.some_ne_none _)
  | membership none | default none | unset none =>
    exact iff_of_false (fun ⟨_, other⟩ => nomatch other) (not_not_intro none)

theorem source_eq_membership_iff (ids : List RegionId) : v.source = .membership ids ↔
    ¬ v.IsByRegions ∧ (b.terms flag).membershipDecides = true ∧ ∃ a, actor = some a ∧
      (attend t a candidates).1 ≠ .unclaimed ∧ (attend t a candidates).2 = ids := by
  cases gives with
  | regions => exact iff_of_false nofun fun h => h.1 ⟨_, rfl⟩
  | membership none decides given belongs =>
    constructor
    · intro source
      cases source
      exact ⟨(fun ⟨_, other⟩ => nomatch other), decides, _, given,
        Belonging.exists_permission?_iff.mp ⟨_, belongs⟩, rfl⟩
    · rintro ⟨-, -, a, same, -, rfl⟩
      cases given.symm.trans same
      rfl
  | default _ nobody | unset _ nobody =>
    refine iff_of_false nofun fun ⟨_, decides, a, given, claimed, _⟩ => ?_
    obtain ⟨p, belongs⟩ := Belonging.exists_permission?_iff.mpr claimed
    cases nobody.symm.trans (byMembership?_eq_some_iff.mpr ⟨decides, a, given, p, belongs, rfl⟩)

theorem judged (byMembership : v.IsByMembership) (a : Actor) (given : actor = some a) :
    ((attend t a candidates).1 = .insider ∧ v.value = some (.state .allow)) ∨
      ((attend t a candidates).1 = .outsider ∧ v.value = some (.state .deny)) := by
  obtain ⟨ids, source⟩ := byMembership
  cases gives with
  | regions | default | unset => cases source
  | membership _ _ same belongs =>
    cases same.symm.trans given
    cases belonging : (attend t a candidates).1 with
    | unclaimed =>
      rw [belonging] at belongs
      cases belongs
    | insider =>
      rw [belonging] at belongs
      cases belongs
      exact .inl ⟨rfl, rfl⟩
    | outsider =>
      rw [belonging] at belongs
      cases belongs
      exact .inr ⟨rfl, rfl⟩

theorem source_eq_default_iff : v.source = .default ↔ ¬ v.IsByRegions ∧ ¬ v.IsByMembership ∧
    ∃ u, b.default? flag = some u := by
  cases gives with
  | regions => exact iff_of_false nofun fun h => h.1 ⟨_, rfl⟩
  | membership => exact iff_of_false nofun fun h => h.2.1 ⟨_, rfl⟩
  | default _ _ found =>
    exact iff_of_true rfl
      ⟨(fun ⟨_, other⟩ => nomatch other), (fun ⟨_, other⟩ => nomatch other), _, found⟩
  | unset _ _ nothing =>
    refine iff_of_false nofun fun ⟨_, _, u, found⟩ => ?_
    cases nothing.symm.trans found

theorem default_eq (byDefault : v.source = .default) : v.value = b.default? flag := by
  cases gives with
  | regions | membership | unset => cases byDefault
  | default _ _ found => exact found.symm

theorem source_eq_unset_iff : v.source = .unset ↔ v.value = none := by
  cases gives with
  | regions | membership | default => exact iff_of_false nofun nofun
  | unset => exact iff_of_true rfl rfl

end Gives

/-! ## Values of use -/

/-- Where the first value stands, every value is of use. -/
theorem byRegions?_eq_none_iff_of_isFirstMatch (first : (b.terms flag).isFirstMatch = true) :
    b.byRegions? t candidates flag actor = none ↔ gather t (b.terms flag) actor candidates = [] := by
  rw [byRegions?_of_isFirstMatch first, Option.map_eq_none_iff, List.head?_eq_none_iff]

/-- What is gathered of upheld regions bears the ids of all of them. -/
theorem map_id_upheld {field : List Region} (upholds : Upholds t terms actor field upheld) :
    (upheld.filterMap (Region.given? t terms actor)).map (·.1) = upheld.map (·.id) := by
  rw [Region.map_filterMap_given?, List.filter_eq_self.mpr]
  intro r hr
  exact ((upholds.mem_iff r).mp hr).grants

/-- Where values combine, only the allow of a region of the whole world may be of no use. -/
theorem byRegions?_eq_none_iff_of_isCombining (registered : b.catalogue.Registered)
    (lineup : Lineup t candidates) (combining : (b.terms flag).combinator.isCombining = true) :
    ∃ upheld, Upholds t (b.terms flag) actor candidates upheld ∧
      (gather t (b.terms flag) actor candidates).map (·.1) = upheld.map (·.id) ∧
      (b.byRegions? t candidates flag actor = none ↔
        ∀ r ∈ upheld, r.isGlobal = true ∧ b.Misfits flag) := by
  have every : (b.terms flag).isFirstMatch = false := by rw [Terms.isFirstMatch, combining]; rfl
  obtain ⟨upheld, upholds, gathered⟩ := gather_of_isCombining actor lineup every
  have granting := fun r hr => ((upholds.mem_iff r).mp hr).grants
  refine ⟨upheld, upholds, by rw [gathered, map_id_upheld upholds], ?_⟩
  rw [byRegions?_of_isCombining upheld gathered combining, Option.map_eq_none_iff,
    combine_eq_none_iff_forall registered combining granting]
  simp only [Misfits, combining, true_and]

/-- Unless the catalogue misfits, whatever is gathered is of use. -/
theorem byRegions?_eq_none_iff (registered : b.catalogue.Registered) (lineup : Lineup t candidates)
    (fits : ¬ b.Misfits flag) : b.byRegions? t candidates flag actor = none ↔
      gather t (b.terms flag) actor candidates = [] := by
  cases combining : (b.terms flag).combinator.isCombining with
  | false => exact byRegions?_eq_none_iff_of_isFirstMatch (by rw [Terms.isFirstMatch, combining]; rfl)
  | true =>
    obtain ⟨upheld, -, ids, useless⟩ :=
      byRegions?_eq_none_iff_of_isCombining registered lineup combining
    rw [useless, ← List.map_eq_nil_iff, ids, List.map_eq_nil_iff, List.eq_nil_iff_forall_not_mem]
    exact forall₂_congr fun r _ => iff_of_false (fun h => fits h.2) id

theorem byRegions?_eq_none_iff_of_misfits (registered : b.catalogue.Registered)
    (lineup : Lineup t candidates) (misfits : b.Misfits flag) :
    b.byRegions? t candidates flag actor = none ↔ ∀ r ∈ candidates,
      r.id ∈ (gather t (b.terms flag) actor candidates).map (·.1) → r.isGlobal = true := by
  obtain ⟨upheld, upholds, ids, useless⟩ :=
    byRegions?_eq_none_iff_of_isCombining registered lineup misfits.2.1
  rw [useless, ids]
  constructor
  · intro allows r hr mem
    obtain ⟨s, hs, same⟩ := List.mem_map.mp mem
    obtain rfl := List.inj_on_of_nodup_map lineup.distinct (upholds.sublist.subset hs) hr same
    exact (allows s hs).1
  · intro global r hr
    exact ⟨global r (upholds.sublist.subset hr) (List.mem_map_of_mem hr), misfits⟩

/-! ## Levels -/

/-- A candidate of the ids that membership counts does not pass through. -/
theorem passesThrough_of_counted {a : Actor} (lineup : Lineup t candidates)
    (sorted : candidates.Pairwise Precedes) (hr : r ∈ candidates)
    (counted : r.id ∈ (attend t a candidates).2) : r.passesThrough t (some a) = false := by
  rw [(judges a lineup (Region.descending_of_precedes sorted)).ids] at counted
  obtain ⟨s, hs, same⟩ := List.mem_map.mp counted
  obtain ⟨mem, stands⟩ := List.mem_filter.mp hs
  obtain rfl := List.inj_on_of_nodup_map lineup.distinct mem hr same
  simpa [Region.stands] using (Bool.and_eq_true_iff.mp stands).1

/-- Where the first value stands, it comes from the level that decides. -/
theorem exists_isTop_of_byRegions (lineup : Lineup t candidates)
    (sorted : candidates.Pairwise Precedes) (first : (b.terms flag).isFirstMatch = true)
    {ids : List RegionId} (source : (b.resolve t candidates flag actor).source = .regions ids) :
    ∃ top, IsTop (Region.decides t (b.terms flag) actor) candidates top ∧
      ∃ w ∈ candidates, w.level = top ∧ ids = [w.id] := by
  have gives := b.gives_resolve t candidates flag actor
  have found : gather t (b.terms flag) actor candidates ≠ [] := fun nothing =>
    gives.isByRegions_iff.mp ⟨ids, source⟩
      ((byRegions?_eq_none_iff_of_isFirstMatch first).mpr nothing)
  have granted : ∃ top, IsTop (Region.decides t (b.terms flag) actor) candidates top ∧
      ∃ r ∈ candidates, r.level = top ∧ r.grants t (b.terms flag) actor = true := by
    by_contra nobody
    refine found (gather_eq_nil lineup (Region.descending_of_precedes sorted) first ?_)
    intro top isTop r hr level
    exact Bool.eq_false_of_not_eq_true fun grants => nobody ⟨top, isTop, r, hr, level, grants⟩
  obtain ⟨top, isTop, granted⟩ := granted
  obtain ⟨w, wins⟩ := exists_wins lineup sorted first isTop granted
  obtain ⟨mem, level⟩ := List.mem_filter.mp wins.isUpheld.mem
  obtain ⟨u, -, won⟩ := wins.resolve_eq
  rw [won] at source
  cases source
  exact ⟨top, isTop, w, mem, of_decide_eq_true level, rfl⟩

/-- Every verdict has its value from the first source that gives one. Where values combine for the
flag `passthrough` that are no permissions, what is gathered of the whole world alone gives none. -/
theorem sourced (registered : b.catalogue.Registered) (lineup : Lineup t candidates)
    (sorted : candidates.Pairwise Precedes) (flag : FlagName) (actor : Option Actor) :
    b.Sourced t candidates flag actor (b.resolve t candidates flag actor) := by
  have gives := b.gives_resolve t candidates flag actor
  constructor
  case byRegions_iff =>
    intro fits
    exact gives.isByRegions_iff.trans (byRegions?_eq_none_iff registered lineup fits).not
  case byRegions_iff_of_misfits =>
    intro misfits
    rw [gives.isByRegions_iff, ne_eq, byRegions?_eq_none_iff_of_misfits registered lineup misfits]
    simp only [not_forall, exists_prop, Bool.not_eq_true, and_comm]
  case membership_iff => exact gives.source_eq_membership_iff
  case judged => exact gives.judged
  case default_iff =>
    rw [gives.source_eq_default_iff, exists_default?_iff]
  case default_eq =>
    intro byDefault u
    rw [gives.default_eq byDefault, default?_eq_some_iff]
  case unset_iff => exact gives.source_eq_unset_iff
  case outranks =>
    rintro first decides a ids rfl source
    obtain ⟨top, isTop, w, hw, rfl, same⟩ :=
      exists_isTop_of_byRegions lineup sorted first source
    have opposed : ∀ r ∈ candidates, r.passesThrough t (some a) = false →
        w.level.isBelow r.level = false := by
      intro r hr stands
      exact isTop.highest r hr (by simp [Region.decides, decides, stands])
    exact ⟨w, hw, same,
      fun r hr counted => opposed r hr (passesThrough_of_counted lineup sorted hr counted), opposed⟩

/-- A castle on the ground of a village that lets everyone build: who does not belong to the castle is
denied, though only the village gives the flag a value. -/
theorem sourced_of_castle : ∃ t : Territory,
    (t.atlas.scanAt ⟨1, 1, 1⟩).map (fun r => (r.id.text, r.priority,
      r.grants t.atlas.regions (t.bylaws.terms ⟨"build"⟩) (some (.ofPlayer 8)))) =
        [("castle", 2, false), ("village", 1, true)] ∧
    (t.bylaws.resolve t.atlas.regions (t.atlas.scanAt ⟨1, 1, 1⟩) ⟨"build"⟩
      (some (.ofPlayer 8))).contributors.map (·.text) = ["castle"] ∧
    (t.bylaws.resolve t.atlas.regions (t.atlas.scanAt ⟨1, 1, 1⟩) ⟨"build"⟩
      (some (.ofPlayer 8))).isDenied = true ∧
    t.catalogue.Registered ∧ Lineup t.atlas.regions (t.atlas.scanAt ⟨1, 1, 1⟩) ∧
    (t.atlas.scanAt ⟨1, 1, 1⟩).Pairwise Precedes ∧
    t.bylaws.Sourced t.atlas.regions (t.atlas.scanAt ⟨1, 1, 1⟩) ⟨"build"⟩ (some (.ofPlayer 8))
      (t.bylaws.resolve t.atlas.regions (t.atlas.scanAt ⟨1, 1, 1⟩) ⟨"build"⟩
        (some (.ofPlayer 8))) := by
  let := Platform.reference
  have reachable := Territory.reachable_blank
    (.insert ∅ ⟨"build"⟩ { name := ⟨"build"⟩, kind := .state, membershipDecides := true })
  have reachable := reachable.add
    { id := ⟨"village", by decide +kernel⟩
      shape := .cuboid ⟨⟨0, 0, 0⟩, ⟨8, 8, 8⟩⟩
      priority := 1
      settings := .ofPairs [(⟨"build"⟩, { value := some (.state .allow) })] }
  have reachable := reachable.add
    { id := ⟨"castle", by decide +kernel⟩
      shape := .cuboid ⟨⟨0, 0, 0⟩, ⟨2, 2, 2⟩⟩
      priority := 2
      members := .of [7] [] }
  have lineup := reachable.consistent.lineup_scanAt ⟨1, 1, 1⟩
  refine ⟨_, by decide +kernel, by decide +kernel, by decide +kernel, ?registered, lineup,
    by decide +kernel, sourced ?registered lineup (by decide +kernel) ⟨"build"⟩ _⟩
  simp only [Territory.catalogue_add]
  exact .insert .empty rfl rfl rfl

/-- In a catalogue that gives `passthrough` integers, the allow of the region of the whole world is
gathered and of no use, so that the flag is unset. -/
theorem unset_of_everywhere_passthrough : ∃ c : Catalogue, c.Registered ∧
    Lineup ∅ [Region.everywhere] ∧ [Region.everywhere].Pairwise Precedes ∧
    gather ∅ ((Bylaws.mk c ∅).terms ⟨Catalogue.passthroughText⟩) none [Region.everywhere] =
      [(.global, .state .allow)] ∧
    (Bylaws.mk c ∅).resolve ∅ [Region.everywhere] ⟨Catalogue.passthroughText⟩ none =
      ⟨⟨Catalogue.passthroughText⟩, none, .unset⟩ := by
  refine ⟨.insert ∅ ⟨Catalogue.passthroughText⟩
    ⟨⟨Catalogue.passthroughText⟩, .integer, none, .greatest, none, false⟩,
    .insert .empty rfl rfl rfl, Region.lineup_everywhere, List.pairwise_singleton _ _, ?_, ?_⟩
  · rfl
  · rfl

end Bylaws

end Enclave
