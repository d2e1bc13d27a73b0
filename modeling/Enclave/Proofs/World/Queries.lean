import Enclave.Proofs.Index.Tree
import Enclave.Proofs.Region.Ancestry
import Enclave.Proofs.World.Territory

/-!
# What holds at a point is what a scan finds

The regions at a point are found in two places, the index and the list of those of the whole world.
Together they are what looking at the whole table and sorting gives
(`Territory.Reachable.regionsAt_eq_scan`): the box of a region contains all that its shape does, so
that the index passes over nothing, and every region of the list comes after all that have a box.

Regions differ in their ids, so precedence puts them in one order only, and the two lists put
together are that order.
-/

namespace Enclave

open Region (Lineup Precedes)

variable {r : Region} {p : Point Float}

namespace Atlas

variable {a : Atlas} {test : Region → Bool} {found : List Region}

/-! ## Scans -/

/-- The regions that pass a test, found by looking at the whole table. -/
def scan (a : Atlas) (test : Region → Bool) : List Region := a.regions.values.filter test

/-- The regions at a point, found by looking at the whole table. -/
def scanAt (a : Atlas) (p : Point Float) : List Region := a.regions.values.filter (·.contains p)

/-- What is found are the regions that pass a test, each once and in strict order of precedence. -/
structure Finds (a : Atlas) (test : Region → Bool) (found : List Region) : Prop where
  eq_scan : found = Region.inPrecedence (a.scan test)
  mem_iff : ∀ r, r ∈ found ↔ a.get? r.id = some r ∧ test r = true
  nodup : found.Nodup
  sorted : found.Pairwise fun r s => r.comparePrecedence s = .lt

theorem InStep.mem_values_iff (inStep : a.InStep) :
    r ∈ a.regions.values ↔ a.get? r.id = some r := by
  rw [Table.mem_values_iff]
  constructor
  · rintro ⟨id, found⟩
    exact inStep.keyed id r found ▸ found
  · exact fun found => ⟨r.id, found⟩

/-- Looking up different ids gives different regions. -/
theorem InStep.nodup_filterMap_get? (inStep : a.InStep) {ids : List RegionId} (nodup : ids.Nodup) :
    (ids.filterMap a.get?).Nodup :=
  nodup.filterMap fun id id' r found found' =>
    (inStep.keyed id r found).symm.trans (inStep.keyed id' r found')

theorem InStep.mem_scan_iff (inStep : a.InStep) :
    r ∈ a.scan test ↔ a.get? r.id = some r ∧ test r = true := by
  rw [scan, List.mem_filter, inStep.mem_values_iff]

theorem InStep.nodup_scan (inStep : a.InStep) (test : Region → Bool) : (a.scan test).Nodup :=
  inStep.keyed.nodup_map_id_values.of_map.filter _

/-- Regions of one atlas differ in their ids. -/
theorem eq_of_get? {s : Region} (here : a.get? r.id = some r) (here' : a.get? s.id = some s)
    (same : r.id = s.id) : r = s := by
  rw [same] at here
  exact Option.some.inj (here.symm.trans here')

/-- A list in order of precedence is that of a scan if the same regions are on it, each once. -/
theorem InStep.finds (inStep : a.InStep)
    (mem_iff : ∀ r, r ∈ found ↔ a.get? r.id = some r ∧ test r = true) (nodup : found.Nodup)
    (sorted : found.Pairwise Precedes) : a.Finds test found := by
  have perm : found.Perm (a.scan test) :=
    (List.perm_ext_iff_of_nodup nodup (inStep.nodup_scan test)).mpr fun r =>
      (mem_iff r).trans inStep.mem_scan_iff.symm
  have distinct : ∀ r ∈ found, ∀ s ∈ found, r.id = s.id → r = s := fun r hr s hs =>
    eq_of_get? ((mem_iff r).mp hr).1 ((mem_iff s).mp hs).1
  refine ⟨Region.eq_inPrecedence perm sorted distinct, mem_iff, nodup, ?_⟩
  refine (sorted.and nodup).imp_of_mem ?_
  rintro r s hr hs ⟨precedes, ne⟩
  exact precedes.comparePrecedence_eq_lt fun same => ne (distinct r hr s hs same)

theorem InStep.mem_scanAt_iff (inStep : a.InStep) :
    r ∈ a.scanAt p ↔ a.get? r.id = some r ∧ r.contains p = true := inStep.mem_scan_iff

theorem InStep.mem_map_id_scanAt_iff (inStep : a.InStep) {id : RegionId} :
    id ∈ (a.scanAt p).map (·.id) ↔ ∃ r, a.get? id = some r ∧ r.contains p = true := by
  rw [List.mem_map]
  constructor
  · rintro ⟨r, hr, rfl⟩
    exact ⟨r, inStep.mem_scanAt_iff.mp hr⟩
  · rintro ⟨r, found, hp⟩
    obtain rfl := inStep.keyed id r found
    exact ⟨r, inStep.mem_scanAt_iff.mpr ⟨found, hp⟩, rfl⟩

theorem InStep.nodup_scanAt (inStep : a.InStep) (p : Point Float) : (a.scanAt p).Nodup :=
  inStep.nodup_scan _

/-! ## The two lists -/

/-- Looking up what the index finds gives the regions whose own boxes pass the test. The index may
hold another box than a region has, but only one that is equal to it. -/
theorem InStep.mem_search_iff (inStep : a.InStep) {test : Box Float → Bool}
    (mono : ∀ b c : Box Float, c.Within b → test c = true → test b = true) :
    r ∈ (a.index.search test).filterMap a.get? ↔
      a.get? r.id = some r ∧ ∃ b, r.bounds? = some b ∧ test b = true := by
  have search := inStep.indexed.sound.answers_search mono
  rw [List.mem_filterMap]
  constructor
  · rintro ⟨id, hid, found⟩
    obtain ⟨b, indexed, passes⟩ := (search.mem_iff id).mp hid
    obtain rfl := inStep.keyed id r found
    have beq := inStep.indexed.get?_beq r.id
    rw [indexed, show a.regions.get? r.id = some r from found, Option.bind_some] at beq
    cases hb : r.bounds? with
    | none => rw [hb] at beq; cases beq
    | some c =>
      rw [hb] at beq
      exact ⟨found, c, rfl, mono c b (Box.beq_iff_within.mp beq).1 passes⟩
  · rintro ⟨found, c, hc, passes⟩
    have beq := inStep.indexed.get?_beq r.id
    rw [show a.regions.get? r.id = some r from found, Option.bind_some, hc] at beq
    refine ⟨r.id, (search.mem_iff r.id).mpr ?_, found⟩
    cases hi : a.index.get? r.id with
    | none => rw [hi] at beq; cases beq
    | some b =>
      rw [hi] at beq
      exact ⟨b, rfl, mono b c (Box.beq_iff_within.mp beq).2 passes⟩

/-- What the index finds at a point: the regions there that have a box. -/
theorem InStep.mem_found_iff (inStep : a.InStep) :
    r ∈ ((a.index.keysAt p).filterMap a.get?).filter (·.contains p) ↔
      a.get? r.id = some r ∧ r.isGlobal = false ∧ r.contains p = true := by
  rw [List.mem_filter, RTree.keysAt, inStep.mem_search_iff fun _ _ within => within.contains]
  constructor
  · rintro ⟨⟨found, b, hb, -⟩, hp⟩
    exact ⟨found, Shape.exists_bounds?_iff.mp ⟨b, hb⟩, hp⟩
  · rintro ⟨found, boxed, hp⟩
    obtain ⟨b, hb⟩ := Shape.exists_bounds?_iff.mpr boxed
    exact ⟨⟨found, b, hb, Shape.contains_bounds? hb hp⟩, hp⟩

theorem InStep.mem_globalRegions_iff (inStep : a.InStep) :
    r ∈ a.globalRegions ↔ a.get? r.id = some r ∧ r.isGlobal = true := by
  rw [globalRegions, List.mem_filterMap]
  constructor
  · rintro ⟨id, hid, found⟩
    obtain rfl := inStep.keyed id r found
    obtain ⟨s, found', global⟩ := (inStep.listed.mem_iff r.id).mp hid
    cases found.symm.trans found'
    exact ⟨found, global⟩
  · rintro ⟨found, global⟩
    exact ⟨r.id, (inStep.listed.mem_iff r.id).mpr ⟨r, found, global⟩, found⟩

/-! ## Both together -/

theorem InStep.mem_regionsAt_iff (inStep : a.InStep) :
    r ∈ a.regionsAt p ↔ a.get? r.id = some r ∧ r.contains p = true := by
  rw [regionsAt, List.mem_append, (Region.inPrecedence_perm _).mem_iff, inStep.mem_found_iff,
    inStep.mem_globalRegions_iff]
  constructor
  · rintro (⟨found, -, hp⟩ | ⟨found, global⟩)
    · exact ⟨found, hp⟩
    · exact ⟨found, Shape.contains_of_isGlobal global p⟩
  · rintro ⟨found, hp⟩
    cases global : r.isGlobal with
    | true => exact .inr ⟨found, rfl⟩
    | false => exact .inl ⟨found, rfl, hp⟩

/-- Regions at a point differ in their ids. -/
theorem InStep.eq_of_mem_regionsAt (inStep : a.InStep) {s : Region} (hr : r ∈ a.regionsAt p)
    (hs : s ∈ a.regionsAt p) (same : r.id = s.id) : r = s :=
  eq_of_get? (inStep.mem_regionsAt_iff.mp hr).1 (inStep.mem_regionsAt_iff.mp hs).1 same

theorem InStep.nodup_regionsAt (inStep : a.InStep) (p : Point Float) : (a.regionsAt p).Nodup := by
  have indexed := (inStep.indexed.sound.answers_keysAt p).nodup
  refine List.Nodup.append ?_ (inStep.nodup_filterMap_get? inStep.listed.nodup) fun r hr hr' => ?_
  · exact (Region.inPrecedence_perm _).nodup_iff.mpr
      ((inStep.nodup_filterMap_get? indexed).filter _)
  · have boxed := (inStep.mem_found_iff.mp ((Region.inPrecedence_perm _).mem_iff.mp hr)).2.1
    exact Bool.false_ne_true (boxed.symm.trans (inStep.mem_globalRegions_iff.mp hr').2)

theorem InStep.pairwise_regionsAt (inStep : a.InStep) (p : Point Float) :
    (a.regionsAt p).Pairwise Precedes := by
  refine List.pairwise_append.mpr ⟨Region.pairwise_inPrecedence _, ?_, ?_⟩
  · refine List.pairwise_filterMap.mpr (inStep.listed.sorted.imp fun sorted r found s found' => ?_)
    exact sorted r s found found'
  · intro r hr s hs
    have boxed := (inStep.mem_found_iff.mp ((Region.inPrecedence_perm _).mem_iff.mp hr)).2.1
    exact Region.precedes_of_isGlobal boxed (inStep.mem_globalRegions_iff.mp hs).2

theorem InStep.finds_regionsAt (inStep : a.InStep) (p : Point Float) :
    a.Finds (·.contains p) (a.regionsAt p) :=
  inStep.finds (fun _ => inStep.mem_regionsAt_iff) (inStep.nodup_regionsAt p)
    (inStep.pairwise_regionsAt p)

theorem InStep.regionsAt_eq_inPrecedence (inStep : a.InStep) (p : Point Float) :
    a.regionsAt p = Region.inPrecedence (a.scanAt p) := (inStep.finds_regionsAt p).eq_scan

theorem InStep.regionsAt_perm_scanAt (inStep : a.InStep) (p : Point Float) :
    (a.regionsAt p).Perm (a.scanAt p) :=
  inStep.regionsAt_eq_inPrecedence p ▸ Region.inPrecedence_perm _

/-- Of any two regions at a point the earlier one comes strictly first. -/
theorem InStep.pairwise_lt_regionsAt (inStep : a.InStep) (p : Point Float) :
    (a.regionsAt p).Pairwise fun r s => r.comparePrecedence s = .lt :=
  (inStep.finds_regionsAt p).sorted

/-- The regions at a point may stand as candidates. -/
theorem Consistent.lineup_scanAt (consistent : a.Consistent) (p : Point Float) :
    Lineup a.regions (a.scanAt p) where
  keyed := consistent.keyed
  acyclic := consistent.forest.acyclic
  agrees _ hr := Region.agrees_of_get? (consistent.mem_scanAt_iff.mp hr).1
  distinct := consistent.keyed.nodup_map_id_values.sublist (List.filter_sublist.map _)

theorem Consistent.lineup_regionsAt (consistent : a.Consistent) (p : Point Float) :
    Lineup a.regions (a.regionsAt p) :=
  (consistent.lineup_scanAt p).perm (consistent.regionsAt_perm_scanAt p)

end Atlas

/-- On a territory that can be reached, the regions at a point are those of the whole table that
contain it, each once and in strict order of precedence. -/
theorem Territory.Reachable.regionsAt_eq_scan {t : Territory} (h : t.Reachable) (p : Point Float) :
    t.atlas.regionsAt p = Region.inPrecedence (t.atlas.scanAt p) ∧
      (∀ r, r ∈ t.atlas.regionsAt p ↔ t.atlas.get? r.id = some r ∧ r.contains p = true) ∧
      (t.atlas.regionsAt p).Nodup ∧
      (t.atlas.regionsAt p).Pairwise fun r s => r.comparePrecedence s = .lt := by
  have inStep := h.consistent.toInStep
  refine ⟨inStep.regionsAt_eq_inPrecedence p, fun r => inStep.mem_regionsAt_iff, ?_,
    inStep.pairwise_lt_regionsAt p⟩
  exact (inStep.regionsAt_perm_scanAt p).nodup_iff.mpr (inStep.nodup_scanAt p)

/-- A region around the origin, in the region of the whole world. -/
theorem Territory.regionsAt_of_two_regions : ∃ t : Territory, t.size = 2 ∧
    (t.atlas.regionsAt ⟨1, 1, 1⟩).map (·.id.text) = ["spawn", "__global__"] ∧ ∀ p,
      t.atlas.regionsAt p = Region.inPrecedence (t.atlas.scanAt p) ∧
        (∀ r, r ∈ t.atlas.regionsAt p ↔ t.atlas.get? r.id = some r ∧ r.contains p = true) ∧
        (t.atlas.regionsAt p).Nodup ∧
        (t.atlas.regionsAt p).Pairwise fun r s => r.comparePrecedence s = .lt := by
  let := Platform.reference
  have start : make {} .builtin = .ok ⟨{}, .builtin, .blank (.empty {})⟩ := rfl
  have reachable := (Reachable.make start).add .everywhere
  have reachable := reachable.add
    { id := ⟨"spawn", by decide +kernel⟩, shape := .cuboid ⟨⟨0, 0, 0⟩, ⟨2, 2, 2⟩⟩ }
  exact ⟨_, by decide +kernel, by decide +kernel, reachable.regionsAt_eq_scan⟩

end Enclave
