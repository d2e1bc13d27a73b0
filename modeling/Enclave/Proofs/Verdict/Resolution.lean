import Enclave.Proofs.Flag.Combining
import Enclave.Proofs.Verdict.Gathering
import Enclave.Proofs.World.Queries
import Enclave.Verdict.Basic

/-!
# What regions make of a flag

A flag comes to what its combinator makes of the values gathered, and only if it makes nothing of
them, to what membership and the defaults give.

Where values combine, those of the upheld candidates do (`Bylaws.combines`). The combinator of a rule
that was registered can use every value of the rule's kind, and regions grant no others, with one
exception: the allow of a region of the whole world for the flag `passthrough` is a permission,
whatever kind the catalogue gives to that flag (`Region.grant_cases`).

Where the first value stands, it is that of the first upheld candidate of the level that decides
(`Bylaws.firstStands`), and what is below that level has no part in it.
-/

namespace Enclave

open Region (Lineup Precedes Descending IsTop IsUpheld Upholds downTo given?)

variable {b : Bylaws} {t : RegionTable} {terms : Terms} {actor : Option Actor} {r s : Region}
  {candidates upheld : List Region} {flag : FlagName} {v : Value}

/-! ## The values of regions -/

namespace Region

/-- The value that a region grants. -/
def value? (t : RegionTable) (terms : Terms) (actor : Option Actor) (r : Region) : Option Value :=
  (r.grant t terms actor).map (·.1)

theorem given?_eq (r : Region) :
    r.given? t terms actor = (r.value? t terms actor).map fun v => (r.id, v) := by
  rw [given?, value?, Option.map_map]
  rfl

theorem value?_eq_some_iff :
    r.value? t terms actor = some v ↔ ∃ s, r.grant t terms actor = some (v, s) := by
  simp [value?, Option.map_eq_some_iff]

theorem exists_value? (grants : r.grants t terms actor = true) :
    ∃ v, r.value? t terms actor = some v := by
  obtain ⟨⟨v, s⟩, granted⟩ := Option.isSome_iff_exists.mp grants
  exact ⟨v, value?_eq_some_iff.mpr ⟨s, granted⟩⟩

/-- What is inherited comes from the lineage and is of the kind that counts. -/
theorem inherited_cases (h : r.inherited t terms actor = some (v, s)) :
    s ∈ r.lineage t ∧ terms.accepts v = true := by
  obtain ⟨u, above, found⟩ := List.exists_of_findSome?_eq_some h
  split at found
  · split at found
    next accepts =>
      cases found
      exact ⟨above, accepts⟩
    · cases found
  · cases found

/-- A bounded region grants what it inherits. -/
theorem grant_of_bounded (bounded : r.isGlobal = false) :
    r.grant t terms actor = r.inherited t terms actor := by
  rw [grant, bounded]
  rfl

/-- A region of the whole world lets others decide, unless somebody claims it or it denies this. -/
theorem grant_of_passthrough (global : r.isGlobal = true)
    (passthrough : terms.isPassthrough = true) :
    r.grant t terms actor =
      if r.isUnclaimed && !((r.ownValue? terms).bind Value.permission? == some .deny) then
        some (.state .allow, r)
      else none := by
  rw [grant, global, passthrough]
  rfl

/-- Where membership decides, a region of the whole world grants its own value, if it is of the kind
that counts and no allow. -/
theorem grant_of_membershipDecides (global : r.isGlobal = true)
    (other : terms.isPassthrough = false) (decides : terms.membershipDecides = true) :
    r.grant t terms actor = (r.ownValue? terms).bind fun v =>
      if terms.accepts v && v.permission? != some .allow then some (v, r) else none := by
  rw [grant, global, other, decides]
  cases r.ownValue? terms <;> rfl

/-- A region grants values of the kind that counts. Only where a region of the whole world lets
others decide is the value an allow, whatever counts. -/
theorem grant_cases (h : r.grant t terms actor = some (v, s)) :
    (r.isGlobal = true ∧ terms.isPassthrough = true ∧ v = .state .allow) ∨
      ((r.isGlobal && terms.isPassthrough) = false ∧ terms.accepts v = true) := by
  rw [grant] at h
  split at h
  next special =>
    obtain ⟨global, passthrough⟩ := Bool.and_eq_true_iff.mp special
    dsimp only at h
    split at h
    · cases h
      exact .inl ⟨global, passthrough, rfl⟩
    · cases h
  next ordinary =>
    refine .inr ⟨Bool.eq_false_of_not_eq_true ordinary, ?_⟩
    split at h
    · split at h
      · split at h
        next accepts =>
          cases h
          exact (Bool.and_eq_true_iff.mp accepts).1
        · cases h
      · cases h
    · exact (inherited_cases h).2

/-- The region covers the whole world, and nothing of its own keeps others from deciding. -/
structure IsOpen (terms : Terms) (r : Region) : Prop where
  global : r.isGlobal = true
  unclaimed : r.isUnclaimed = true
  undenied : (r.ownValue? terms).bind Value.permission? ≠ some .deny

/-- Where a region of the whole world lets others decide, it is open, and nobody's setting allows
it. -/
theorem isOpen_of_grant (global : r.isGlobal = true) (passthrough : terms.isPassthrough = true)
    (h : r.grant t terms actor = some (v, s)) : s = r ∧ r.IsOpen terms := by
  rw [grant_of_passthrough global passthrough] at h
  split at h
  next leaves =>
    cases h
    obtain ⟨unclaimed, undenied⟩ := Bool.and_eq_true_iff.mp leaves
    exact ⟨rfl, global, unclaimed, fun denied => by simp [denied] at undenied⟩
  next => cases h

/-- The region of the whole world stands alone, in a table without regions. -/
theorem lineup_everywhere : Lineup ∅ [everywhere] where
  keyed _ _ found := nomatch found
  acyclic id loop := by
    obtain ⟨_, ⟨_, found, _⟩, _⟩ := Relation.TransGen.head'_iff.mp loop
    cases found
  agrees _ _ _ found := nomatch found
  distinct := List.nodup_singleton _

end Region

open Region (value? grants)

theorem map_snd_filterMap_given? (l : List Region) :
    (l.filterMap (given? t terms actor)).map (·.2) = l.filterMap (value? t terms actor) := by
  rw [List.map_filterMap]
  refine List.filterMap_congr fun r _ => ?_
  rw [Region.given?_eq, Option.map_map]
  exact Option.map_id'

/-! ## Where no region gives a value -/

namespace Bylaws

/-- What a flag comes to where regions give it no value. -/
def byOthers (b : Bylaws) (t : RegionTable) (candidates : List Region) (flag : FlagName)
    (actor : Option Actor) : Verdict :=
  (b.byMembership? t candidates flag actor).getD (b.byDefault flag)

theorem source_byOthers (ids : List RegionId) :
    (b.byOthers t candidates flag actor).source ≠ .regions ids := by
  have byDefault : (b.byDefault flag).source ≠ .regions ids := by
    rw [Bylaws.byDefault]
    split <;> exact fun h => nomatch h
  rw [byOthers, byMembership?]
  split
  · cases actor with
    | none => exact byDefault
    | some a =>
      rw [Option.bind_some]
      split
      · exact byDefault
      · exact fun h => nomatch h
      · exact fun h => nomatch h
  · exact byDefault

theorem resolve_eq (b : Bylaws) (t : RegionTable) (candidates : List Region) (flag : FlagName)
    (actor : Option Actor) : b.resolve t candidates flag actor =
      (b.byRegions? t candidates flag actor).getD (b.byOthers t candidates flag actor) := by
  rw [resolve, byOthers]
  cases b.byRegions? t candidates flag actor <;> rfl

end Bylaws

/-! ## Values that combine -/

/-- A combinator of rules of another kind has no use for permissions. -/
theorem Combinator.suits_state_iff {c : Combinator} {k : Kind} (combining : c.isCombining = true)
    (suits : c.suits k = true) : c.suits .state = true ↔ k = .state := by
  revert combining suits
  cases c <;> cases k <;> decide

namespace Bylaws

/-- Only a rule of the catalogue lets values combine, and its combinator suits its kind. -/
theorem suits_of_isCombining (registered : b.catalogue.Registered)
    (combining : (b.terms flag).combinator.isCombining = true) :
    ∃ k, (b.terms flag).kind = some k ∧ (b.terms flag).combinator.suits k = true := by
  rw [terms] at combining ⊢
  cases found : b.catalogue.get? flag with
  | none =>
    rw [found] at combining
    cases combining
  | some rule => exact ⟨rule.kind, rfl, (registered.coherent found).suits⟩

/-- A granted value is of no use only if it is the allow of a region of the whole world that lets
others decide, and the catalogue has another kind for that flag. -/
theorem suits_eq_false_iff (registered : b.catalogue.Registered)
    (combining : (b.terms flag).combinator.isCombining = true)
    (value : r.value? t (b.terms flag) actor = some v) :
    (b.terms flag).combinator.suits v.kind = false ↔ r.isGlobal = true ∧
      (b.terms flag).isPassthrough = true ∧ (b.terms flag).kind ≠ some .state := by
  obtain ⟨k, kind, suits⟩ := suits_of_isCombining registered combining
  obtain ⟨s, granted⟩ := Region.value?_eq_some_iff.mp value
  have state := Combinator.suits_state_iff combining suits
  rcases Region.grant_cases granted with ⟨global, passthrough, rfl⟩ | ⟨ordinary, accepts⟩
  · have : (b.terms flag).combinator.suits .state = false ↔ ¬ k = .state := by
      rw [← state, Bool.not_eq_true]
    simpa [global, passthrough, kind, Value.kind] using this
  · rw [Terms.accepts, kind] at accepts
    obtain rfl : v.kind = k := by simpa using accepts
    refine iff_of_false (Bool.not_eq_false _ ▸ suits) ?_
    rintro ⟨global, passthrough, -⟩
    simp [global, passthrough] at ordinary

/-- Granted values combine to nothing if each of them is such an allow. -/
theorem combine_eq_none_iff_forall (registered : b.catalogue.Registered)
    (combining : (b.terms flag).combinator.isCombining = true)
    (granting : ∀ r ∈ upheld, r.grants t (b.terms flag) actor = true) :
    (b.terms flag).combinator.combine (upheld.filterMap (value? t (b.terms flag) actor)) = none ↔
      ∀ r ∈ upheld, r.isGlobal = true ∧
        (b.terms flag).isPassthrough = true ∧ (b.terms flag).kind ≠ some .state := by
  rw [Combinator.combine_eq_none_iff]
  constructor
  · intro useless r hr
    obtain ⟨v, value⟩ := Region.exists_value? (granting r hr)
    exact (suits_eq_false_iff registered combining value).mp
      (useless v (List.mem_filterMap.mpr ⟨r, hr, value⟩))
  · intro allows v hv
    obtain ⟨r, hr, value⟩ := List.mem_filterMap.mp hv
    exact (suits_eq_false_iff registered combining value).mpr (allows r hr)

/-- Upheld values combine to nothing if there are none, or only such allows. -/
theorem combine_eq_none_iff (registered : b.catalogue.Registered) (lineup : Lineup t candidates)
    (combining : (b.terms flag).combinator.isCombining = true)
    (upholds : Upholds t (b.terms flag) actor candidates upheld) :
    (b.terms flag).combinator.combine (upheld.filterMap (value? t (b.terms flag) actor)) = none ↔
      (∀ r ∈ candidates, r.grants t (b.terms flag) actor = false) ∨
      ((b.terms flag).isPassthrough = true ∧ (b.terms flag).kind ≠ some .state ∧
        ∀ r ∈ upheld, r.isGlobal = true) := by
  rw [combine_eq_none_iff_forall registered combining fun r hr => ((upholds.mem_iff r).mp hr).grants]
  constructor
  · intro allows
    by_cases nobody : ∀ r ∈ candidates, r.grants t (b.terms flag) actor = false
    · exact .inl nobody
    · push Not at nobody
      obtain ⟨r, hr, grants⟩ := nobody
      have ne := upholds.ne_nil lineup ⟨r, hr, Bool.eq_true_of_not_eq_false grants⟩
      obtain ⟨w, hw⟩ := List.exists_mem_of_ne_nil upheld ne
      exact .inr ⟨(allows w hw).2.1, (allows w hw).2.2, fun r hr => (allows r hr).1⟩
  · rintro (nobody | ⟨passthrough, kind, global⟩) r hr
    · have isUpheld := (upholds.mem_iff r).mp hr
      cases (nobody r isUpheld.mem).symm.trans isUpheld.grants
    · exact ⟨global r hr, passthrough, kind⟩

/-- How a flag whose values combine comes to be settled by the upheld candidates. -/
structure Combines (b : Bylaws) (t : RegionTable) (candidates : List Region) (flag : FlagName)
    (actor : Option Actor) (upheld : List Region) : Prop where
  upholds : Upholds t (b.terms flag) actor candidates upheld
  resolve_eq : b.resolve t candidates flag actor =
    match (b.terms flag).combinator.combine (upheld.filterMap (value? t (b.terms flag) actor)) with
    | some v => ⟨flag, some v, .regions ((upheld.filter fun r =>
        (r.value? t (b.terms flag) actor).any (· == v)).map (·.id))⟩
    | none => b.byOthers t candidates flag actor
  combine_eq_none_iff :
    (b.terms flag).combinator.combine (upheld.filterMap (value? t (b.terms flag) actor)) = none ↔
      (∀ r ∈ candidates, r.grants t (b.terms flag) actor = false) ∨
      ((b.terms flag).isPassthrough = true ∧ (b.terms flag).kind ≠ some .state ∧
        ∀ r ∈ upheld, r.isGlobal = true)
  perm : ∀ others, others.Perm candidates → (gather t (b.terms flag) actor others).Perm
    (gather t (b.terms flag) actor candidates)

theorem credited_filterMap_given? {c : Combinator} (combining : c.isCombining = true) :
    credited c v (upheld.filterMap (given? t terms actor)) =
      (upheld.filter fun r => (r.value? t terms actor).any (· == v)).map (·.id) := by
  rw [credited, if_pos combining]
  induction upheld with
  | nil => rfl
  | cons r l ih =>
    rw [List.filterMap_cons, Region.given?_eq, List.filter_cons]
    cases r.value? t terms actor with
    | none => simpa using ih
    | some u => cases equal : u == v <;> simpa [equal] using ih

theorem byRegions?_of_isCombining (upheld : List Region)
    (gathered : gather t (b.terms flag) actor candidates =
      upheld.filterMap (given? t (b.terms flag) actor))
    (combining : (b.terms flag).combinator.isCombining = true) :
    b.byRegions? t candidates flag actor = ((b.terms flag).combinator.combine
      (upheld.filterMap (value? t (b.terms flag) actor))).map fun v =>
        ⟨flag, some v, .regions ((upheld.filter fun r =>
          (r.value? t (b.terms flag) actor).any (· == v)).map (·.id))⟩ := by
  simp only [byRegions?, gathered, map_snd_filterMap_given?, credited_filterMap_given? combining]

/-- Values combine from the candidates that are upheld, in whatever order they stand, and from no
others. -/
theorem combines (registered : b.catalogue.Registered) (lineup : Lineup t candidates)
    (combining : (b.terms flag).combinator.isCombining = true) (actor : Option Actor) :
    ∃ upheld, b.Combines t candidates flag actor upheld := by
  have every : (b.terms flag).isFirstMatch = false := by rw [Terms.isFirstMatch, combining]; rfl
  obtain ⟨upheld, upholds, gathered⟩ := gather_of_isCombining actor lineup every
  refine ⟨upheld, upholds, ?_, ?_, fun others perm => ?_⟩
  · rw [resolve_eq, byRegions?_of_isCombining upheld gathered combining]
    cases (b.terms flag).combinator.combine
      (upheld.filterMap (value? t (b.terms flag) actor)) <;> rfl
  · exact combine_eq_none_iff registered lineup combining upholds
  · obtain ⟨upheld', upholds', gathered'⟩ :=
      gather_of_isCombining actor (lineup.perm perm) every
    rw [gathered, gathered']
    exact (upholds.perm lineup upholds' perm).filterMap _

/-- A plot, the district around it and the town around both: of the three, the word of the plot is
upheld, which comes after that of the district and before that of the town. -/
theorem combines_of_three_generations : ∃ t : Territory,
    (t.atlas.scanAt ⟨1, 1, 1⟩).map (fun r => (r.id.text, r.priority,
      r.grants t.atlas.regions (t.bylaws.terms ⟨"tnt"⟩) none)) =
        [("district", 2, true), ("plot", 1, true), ("town", 0, true)] ∧
    (t.bylaws.resolve t.atlas.regions (t.atlas.scanAt ⟨1, 1, 1⟩) ⟨"tnt"⟩ none).contributors.map
      (·.text) = ["plot"] ∧
    t.catalogue.Registered ∧ Lineup t.atlas.regions (t.atlas.scanAt ⟨1, 1, 1⟩) ∧
    (t.bylaws.terms ⟨"tnt"⟩).combinator.isCombining = true ∧
    ∃ upheld, t.bylaws.Combines t.atlas.regions (t.atlas.scanAt ⟨1, 1, 1⟩) ⟨"tnt"⟩ none upheld := by
  let := Platform.reference
  have reachable := Territory.reachable_blank
    (.insert ∅ ⟨"tnt"⟩ { name := ⟨"tnt"⟩, kind := .state, combinator := .denyOverrides })
  have reachable := reachable.add
    { id := ⟨"town", by decide +kernel⟩
      shape := .cuboid ⟨⟨0, 0, 0⟩, ⟨8, 8, 8⟩⟩
      settings := .ofPairs [(⟨"tnt"⟩, { value := some (.state .deny) })] }
  have reachable := reachable.add
    { id := ⟨"district", by decide +kernel⟩
      shape := .cuboid ⟨⟨0, 0, 0⟩, ⟨4, 4, 4⟩⟩
      priority := 2
      parent := some ⟨"town", by decide +kernel⟩ }
  have reachable := reachable.add
    { id := ⟨"plot", by decide +kernel⟩
      shape := .cuboid ⟨⟨0, 0, 0⟩, ⟨2, 2, 2⟩⟩
      priority := 1
      settings := .ofPairs [(⟨"tnt"⟩, { value := some (.state .allow) })]
      parent := some ⟨"district", by decide +kernel⟩ }
  have lineup := reachable.consistent.lineup_scanAt ⟨1, 1, 1⟩
  refine ⟨_, by decide +kernel, by decide +kernel, ?registered, lineup, by decide +kernel,
    combines ?registered lineup (by decide +kernel) none⟩
  simp only [Territory.catalogue_add]
  exact .insert .empty rfl rfl rfl

/-- In a catalogue that gives `passthrough` truth values, the allow of the region of the whole world
is the only value granted and of no use, so that the default stands. -/
theorem default_of_everywhere_passthrough : ∃ c : Catalogue, c.Registered ∧
    Lineup ∅ [Region.everywhere] ∧ [Region.everywhere].Pairwise Precedes ∧
    ((Bylaws.mk c ∅).terms ⟨Catalogue.passthroughText⟩).combinator.isCombining = true ∧
    Region.everywhere.grants ∅ ((Bylaws.mk c ∅).terms ⟨Catalogue.passthroughText⟩) none = true ∧
    ((Bylaws.mk c ∅).resolve ∅ [Region.everywhere] ⟨Catalogue.passthroughText⟩ none).source =
      .default := by
  refine ⟨.insert ∅ ⟨Catalogue.passthroughText⟩
    ⟨⟨Catalogue.passthroughText⟩, .boolean, some (.bool true), .all, none, false⟩,
    .insert .empty rfl rfl rfl, Region.lineup_everywhere, List.pairwise_singleton _ _, ?_, ?_, ?_⟩
  · decide +kernel
  · decide +kernel
  · decide +kernel

end Bylaws

/-! ## The first value -/

namespace Bylaws

/-- The region is the first of its level that is upheld there, and the flag comes to its value. -/
structure Wins (b : Bylaws) (t : RegionTable) (candidates : List Region) (flag : FlagName)
    (actor : Option Actor) (top : Level) (w : Region) : Prop where
  isUpheld : IsUpheld t (b.terms flag) actor (candidates.filter (·.level = top)) w
  precedes : ∀ r, IsUpheld t (b.terms flag) actor (candidates.filter (·.level = top)) r →
    w.Precedes r
  resolve_eq : ∃ v, w.value? t (b.terms flag) actor = some v ∧
    b.resolve t candidates flag actor = ⟨flag, some v, .regions [w.id]⟩

/-- How a flag of which the first value stands comes to be settled by the level that decides. -/
structure FirstStands (b : Bylaws) (t : RegionTable) (candidates : List Region) (flag : FlagName)
    (actor : Option Actor) : Prop where
  /-- If a region of that level grants a value, one of them wins. -/
  winner : ∀ top, IsTop (Region.decides t (b.terms flag) actor) candidates top →
    (∃ r ∈ candidates, r.level = top ∧ r.grants t (b.terms flag) actor = true) →
    ∃ w, b.Wins t candidates flag actor top w
  /-- If no region of that level grants a value, or there is no such level, no region wins. -/
  nobody : (∀ top, IsTop (Region.decides t (b.terms flag) actor) candidates top →
      ∀ r ∈ candidates, r.level = top → r.grants t (b.terms flag) actor = false) →
    b.resolve t candidates flag actor = b.byOthers t candidates flag actor ∧
      ∀ ids, (b.resolve t candidates flag actor).source ≠ .regions ids
  /-- Whatever candidates there are below that level, the same region wins. -/
  below : ∀ top, IsTop (Region.decides t (b.terms flag) actor) candidates top →
    ∀ others, Lineup t others → others.Pairwise Precedes →
      downTo top others = downTo top candidates → ∀ v ids,
      b.resolve t others flag actor = ⟨flag, v, .regions ids⟩ ↔
        b.resolve t candidates flag actor = ⟨flag, v, .regions ids⟩

theorem combinator_of_isFirstMatch (first : terms.isFirstMatch = true) :
    terms.combinator = .firstMatch := by
  rw [Terms.isFirstMatch] at first
  cases h : terms.combinator <;> rw [h] at first <;> first | rfl | cases first

theorem isCombining_of_isFirstMatch (every : terms.isFirstMatch = false) :
    terms.combinator.isCombining = true := by
  simpa [Terms.isFirstMatch] using every

/-- The first of the values gathered stands, if there is one. -/
theorem byRegions?_of_isFirstMatch (first : (b.terms flag).isFirstMatch = true) :
    b.byRegions? t candidates flag actor =
      (gather t (b.terms flag) actor candidates).head?.map fun g =>
        ⟨flag, some g.2, .regions [g.1]⟩ := by
  rw [byRegions?, combinator_of_isFirstMatch first]
  cases gather t (b.terms flag) actor candidates <;> rfl

/-- What is gathered is granted by candidates. -/
theorem exists_value?_of_mem_gather {g : RegionId × Value} (hg : g ∈ gather t terms actor candidates) :
    ∃ r ∈ candidates, r.id = g.1 ∧ r.value? t terms actor = some g.2 := by
  obtain ⟨r, hr, found⟩ := List.mem_filterMap.mp
    ((gather_sublist t terms actor candidates).subset hg)
  rw [Region.given?_eq] at found
  obtain ⟨u, value, rfl⟩ := Option.map_eq_some_iff.mp found
  exact ⟨r, hr, rfl, value⟩

/-- Regions give a value that one of them grants and that the combinator can use. Where the first
value stands, that region alone is credited. -/
theorem exists_value?_of_byRegions? {ids : List RegionId}
    (given : b.byRegions? t candidates flag actor = some ⟨flag, some v, .regions ids⟩) :
    (b.terms flag).combinator.suits v.kind = true ∧ ∃ r ∈ candidates,
      r.value? t (b.terms flag) actor = some v ∧
        ((b.terms flag).isFirstMatch = true → ids = [r.id]) := by
  cases first : (b.terms flag).isFirstMatch with
  | true =>
    rw [byRegions?_of_isFirstMatch first] at given
    obtain ⟨g, head, same⟩ := Option.map_eq_some_iff.mp given
    cases same
    obtain ⟨r, hr, id, value⟩ := exists_value?_of_mem_gather (List.mem_of_mem_head? head)
    refine ⟨?_, r, hr, value, fun _ => by rw [id]⟩
    rw [combinator_of_isFirstMatch first]
    rfl
  | false =>
    obtain ⟨u, combined, same⟩ := Option.map_eq_some_iff.mp given
    cases same
    obtain ⟨mem, suits⟩ := Combinator.mem_of_combine combined
    obtain ⟨g, hg, rfl⟩ := List.mem_map.mp mem
    obtain ⟨r, hr, -, value⟩ := exists_value?_of_mem_gather hg
    exact ⟨suits, r, hr, value, nofun⟩

/-- Whoever is credited with a value is a candidate that grants it, or one equal to it. -/
theorem exists_value?_of_mem_ids {ids : List RegionId}
    (given : b.byRegions? t candidates flag actor = some ⟨flag, some v, .regions ids⟩)
    {id : RegionId} (hid : id ∈ ids) : ∃ r ∈ candidates, r.id = id ∧
      ∃ u, r.value? t (b.terms flag) actor = some u ∧ (u = v ∨ (u == v) = true) := by
  cases first : (b.terms flag).isFirstMatch with
  | true =>
    obtain ⟨-, r, hr, value, only⟩ := exists_value?_of_byRegions? given
    rw [only first, List.mem_singleton] at hid
    exact ⟨r, hr, hid.symm, v, value, .inl rfl⟩
  | false =>
    obtain ⟨u, -, same⟩ := Option.map_eq_some_iff.mp given
    cases same
    rw [credited, if_pos (isCombining_of_isFirstMatch first)] at hid
    obtain ⟨g, hg, rfl⟩ := List.mem_map.mp hid
    obtain ⟨mem, equal⟩ := List.mem_filter.mp hg
    obtain ⟨r, hr, id, value⟩ := exists_value?_of_mem_gather mem
    exact ⟨r, hr, id, g.2, value, .inr equal⟩

theorem resolve_eq_regions_iff {ids : List RegionId} {v : Option Value} :
    b.resolve t candidates flag actor = ⟨flag, v, .regions ids⟩ ↔
      b.byRegions? t candidates flag actor = some ⟨flag, v, .regions ids⟩ := by
  rw [resolve_eq]
  cases b.byRegions? t candidates flag actor with
  | some found => simp
  | none =>
    refine iff_of_false (fun h => ?_) (fun h => nomatch h)
    exact source_byOthers ids (congrArg Verdict.source h)

/-- A verdict by regions has a value, which regions gave. -/
theorem exists_byRegions?_of_source {ids : List RegionId}
    (source : (b.resolve t candidates flag actor).source = .regions ids) :
    ∃ v, b.byRegions? t candidates flag actor = some ⟨flag, some v, .regions ids⟩ := by
  rw [resolve_eq] at source
  cases given : b.byRegions? t candidates flag actor with
  | none =>
    rw [given] at source
    exact absurd source (source_byOthers ids)
  | some verdict =>
    obtain ⟨v, -, rfl⟩ := Option.map_eq_some_iff.mp given
    rw [given] at source
    cases source
    exact ⟨v, rfl⟩

theorem exists_wins (lineup : Lineup t candidates) (sorted : candidates.Pairwise Precedes)
    (first : (b.terms flag).isFirstMatch = true) {top : Level}
    (isTop : IsTop (Region.decides t (b.terms flag) actor) candidates top)
    (granted : ∃ r ∈ candidates, r.level = top ∧ r.grants t (b.terms flag) actor = true) :
    ∃ w, b.Wins t candidates flag actor top w := by
  have descending := Region.descending_of_precedes sorted
  obtain ⟨upheld, upholds, gathered⟩ := gather_of_isTop lineup descending first isTop
  obtain ⟨r, hr, level, grants⟩ := granted
  have atTop : r ∈ candidates.filter (·.level = top) :=
    List.mem_filter.mpr ⟨hr, decide_eq_true level⟩
  have ne : upheld ≠ [] := upholds.ne_nil (lineup.sublist List.filter_sublist) ⟨r, atTop, grants⟩
  obtain ⟨w, rest, rfl⟩ := List.exists_cons_of_ne_nil ne
  have isUpheld := (upholds.mem_iff w).mp List.mem_cons_self
  obtain ⟨v, value⟩ := Region.exists_value? isUpheld.grants
  refine ⟨w, isUpheld, fun r hr => ?_, v, value, ?_⟩
  · have ordered := sorted.sublist (upholds.sublist.trans List.filter_sublist)
    rcases List.mem_cons.mp ((upholds.mem_iff r).mpr hr) with rfl | hr
    · exact (Region.precedes_total r r).elim id id
    · exact (List.pairwise_cons.mp ordered).1 r hr
  · rw [resolve_eq_regions_iff, byRegions?_of_isFirstMatch first, gathered, List.filterMap_cons,
      Region.given?_eq, value]
    rfl

/-- The value that stands is that of the first upheld candidate of the level that decides. -/
theorem firstStands (lineup : Lineup t candidates) (sorted : candidates.Pairwise Precedes)
    (first : (b.terms flag).isFirstMatch = true) (actor : Option Actor) :
    b.FirstStands t candidates flag actor := by
  have descending := Region.descending_of_precedes sorted
  refine ⟨fun top isTop granted => exists_wins lineup sorted first isTop granted,
    fun none => ?_, ?_⟩
  · have nothing := gather_eq_nil lineup descending first none
    have others : b.resolve t candidates flag actor = b.byOthers t candidates flag actor := by
      rw [resolve_eq, byRegions?_of_isFirstMatch first, nothing]
      rfl
    exact ⟨others, fun ids => others ▸ source_byOthers ids⟩
  · intro top isTop others lineup' sorted' same v ids
    have gathered : gather t (b.terms flag) actor others =
        gather t (b.terms flag) actor candidates := by
      rw [gather_eq_of_isTop lineup descending first isTop, gather_eq_of_isTop lineup'
        (Region.descending_of_precedes sorted') first (isTop.of_downTo_eq same), same]
    rw [resolve_eq_regions_iff, resolve_eq_regions_iff, byRegions?_of_isFirstMatch first,
      byRegions?_of_isFirstMatch first, gathered]

/-- A stall on a market, of one priority with it and after it in order, in a valley below that level:
the stall wins. -/
theorem firstStands_of_parent_and_child : ∃ t : Territory,
    (t.atlas.scanAt ⟨1, 1, 1⟩).map (fun r => (r.id.text, r.priority,
      r.grants t.atlas.regions (t.bylaws.terms ⟨"greeting"⟩) none)) =
        [("market", 1, true), ("stall", 1, true), ("valley", 0, true)] ∧
    IsTop (Region.decides t.atlas.regions (t.bylaws.terms ⟨"greeting"⟩) none)
      (t.atlas.scanAt ⟨1, 1, 1⟩) (.priority 1) ∧
    (t.bylaws.resolve t.atlas.regions (t.atlas.scanAt ⟨1, 1, 1⟩) ⟨"greeting"⟩ none).contributors.map
      (·.text) = ["stall"] ∧
    Lineup t.atlas.regions (t.atlas.scanAt ⟨1, 1, 1⟩) ∧
    (t.atlas.scanAt ⟨1, 1, 1⟩).Pairwise Precedes ∧
    (t.bylaws.terms ⟨"greeting"⟩).isFirstMatch = true ∧
    t.bylaws.FirstStands t.atlas.regions (t.atlas.scanAt ⟨1, 1, 1⟩) ⟨"greeting"⟩ none := by
  let := Platform.reference
  have reachable := (Territory.reachable_blank ∅).add
    { id := ⟨"valley", by decide +kernel⟩
      shape := .cuboid ⟨⟨0, 0, 0⟩, ⟨8, 8, 8⟩⟩
      settings := .ofPairs [(⟨"greeting"⟩, { value := some (.text "Hail") })] }
  have reachable := reachable.add
    { id := ⟨"market", by decide +kernel⟩
      shape := .cuboid ⟨⟨0, 0, 0⟩, ⟨4, 4, 4⟩⟩
      priority := 1
      settings := .ofPairs [(⟨"greeting"⟩, { value := some (.text "Welcome") })] }
  have reachable := reachable.add
    { id := ⟨"stall", by decide +kernel⟩
      shape := .cuboid ⟨⟨0, 0, 0⟩, ⟨2, 2, 2⟩⟩
      priority := 1
      parent := some ⟨"market", by decide +kernel⟩ }
  have lineup := reachable.consistent.lineup_scanAt ⟨1, 1, 1⟩
  exact ⟨_, by decide +kernel, by decide +kernel, by decide +kernel, lineup, by decide +kernel,
    by decide +kernel, firstStands lineup (by decide +kernel) (by decide +kernel) none⟩

end Bylaws

end Enclave
