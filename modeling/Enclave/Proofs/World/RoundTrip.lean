import Enclave.Proofs.World.Queries

/-!
# What is written down is loaded again

The regions of a territory, written down and loaded under the same policy and catalogue, are the
same regions (`Territory.Attainable.restored`). Everything that is asked of a declaration holds of
what is written down, for it was asked of the region before, or it is kept by every request
(`Territory.Attainable.vetted`). No parent is dropped, since parents that form a forest close no
cycle.
-/

namespace Enclave

open Region (Names)
open Relation (TransGen)

variable {p : Policy} {c : Catalogue} {t : Territory}

/-! ## Proper regions -/

/-- The region has a sound shape and no empty setting. -/
structure Region.Proper (r : Region) : Prop where
  sound : r.shape.fault? = none
  full : r.settings.Full

/-- Regions that the operations of regions make, one after the other. -/
inductive Region.Made : Region → Prop
  | everywhere : Made .everywhere
  | make {id : RegionId} {shape : Shape Float} {r : Region} : make id shape = .ok r → Made r
  | ofDeclaration {d : Declaration} {r : Region} : ofDeclaration d = .ok r → Made r
  | withShape {r s : Region} {shape : Shape Float} : Made r → r.withShape shape = .ok s → Made s
  | withParent {r s : Region} {parent : Option RegionId} :
    Made r → r.withParent parent = .ok s → Made s
  | withPriority {r : Region} : Made r → (priority : Int) → Made { r with priority }
  | withRosters {r : Region} : Made r → (owners members : Roster) → Made { r with owners, members }
  | putSetting {r : Region} : Made r → (flag : FlagName) → (s : Setting) →
    Made (r.putSetting flag s).2
  | clearSetting {r : Region} : Made r → (flag : FlagName) → Made (r.clearSetting flag).2

theorem Region.Proper.withParent {r s : Region} {parent : Option RegionId} (proper : r.Proper)
    (h : r.withParent parent = .ok s) : s.Proper := by
  obtain ⟨-, rfl⟩ := withParent_eq_ok h
  exact ⟨proper.sound, proper.full⟩

theorem Declaration.proper_plain {d : Declaration} (sound : d.shape.fault? = none) (id : RegionId) :
    (d.plain id).Proper := ⟨sound, Settings.full_ofPairs d.settings⟩

theorem Region.sound_of_make {id : RegionId} {shape : Shape Float} {r : Region}
    (h : make id shape = .ok r) : shape.fault? = none ∧ r = { id, shape } := by
  obtain ⟨⟨⟩, checked, h⟩ := bind_eq_ok_iff.mp h
  exact ⟨(ends_checkShape shape).ok () checked, (pure_eq_ok_iff.mp h).symm⟩

/-- The region of a declaration is the one described, under a parent if one is declared. -/
theorem Region.withParent_of_ofDeclaration {d : Declaration} {r : Region}
    (h : ofDeclaration d = .ok r) :
    d.shape.fault? = none ∧ ∃ id parent, (d.plain id).withParent parent = .ok r := by
  obtain ⟨id, -, h⟩ := bind_eq_ok_iff.mp h
  obtain ⟨bare, made, h⟩ := bind_eq_ok_iff.mp h
  obtain ⟨sound, rfl⟩ := sound_of_make made
  refine ⟨sound, id, ?_⟩
  dsimp only at h
  split at h
  · obtain ⟨parent, -, h⟩ := bind_eq_ok_iff.mp h
    exact ⟨some parent, h⟩
  · exact ⟨none, h⟩

/-- Every region that the operations of regions make is proper. -/
theorem Region.Made.proper {r : Region} (made : r.Made) : r.Proper := by
  induction made with
  | everywhere => exact ⟨rfl, fun _ _ found => nomatch found⟩
  | make h =>
    obtain ⟨sound, rfl⟩ := sound_of_make h
    exact ⟨sound, fun _ _ found => nomatch found⟩
  | ofDeclaration h =>
    obtain ⟨sound, id, parent, h⟩ := withParent_of_ofDeclaration h
    exact (Declaration.proper_plain sound id).withParent h
  | @withShape r s shape _ h ih =>
    obtain ⟨⟨⟩, checked, h⟩ := bind_eq_ok_iff.mp h
    obtain rfl := pure_eq_ok_iff.mp h
    exact ⟨(ends_checkShape shape).ok () checked, ih.full⟩
  | withParent _ h ih => exact ih.withParent h
  | withPriority _ priority ih => exact ⟨ih.sound, ih.full⟩
  | withRosters _ owners members ih => exact ⟨ih.sound, ih.full⟩
  | putSetting _ flag s ih => exact ⟨ih.sound, ih.full.put flag s⟩
  | clearSetting _ flag ih => exact ⟨ih.sound, ih.full.of_differsAt (Table.differsAt_erase ..) nofun⟩

/-- The request brings no region that is not proper. -/
def Request.Proper : Request → Prop
  | .add r => r.Proper
  | .update _ edit => ∀ r, r.Proper → (edit r).Proper
  | _ => True

/-- The region comes with the request, for a table of regions: it is to be added, or it is what an
edit makes of a region of the table. -/
inductive Request.Brings (t : RegionTable) : Request → Region → Prop
  | add (r : Region) : Brings t (.add r) r
  | update {id : RegionId} {r : Region} (edit : Region → Region) : t.get? id = some r →
    Brings t (.update id edit) (edit r)

/-- A proper region that the policy and the catalogue admit. -/
structure Region.Vetted (p : Policy) (c : Catalogue) (r : Region) : Prop
    extends r.Proper, p.Admits c r

/-- The parent is of no account. -/
theorem Region.Vetted.of_bare_eq {r s : Region} (vetted : r.Vetted p c) (same : s.bare = r.bare) :
    s.Vetted p c := by
  have bare : r.bare.Vetted p c :=
    ⟨⟨vetted.sound, vetted.full⟩, vetted.priority, vetted.settings⟩
  rw [← same] at bare
  exact ⟨⟨bare.sound, bare.full⟩, bare.priority, bare.settings⟩

/-- Settings that differ in one flag are vetted if what is set for the flag is. -/
theorem Region.Vetted.withSettings {r : Region} {settings : Settings} {flag : FlagName}
    {found : Option Setting} (vetted : r.Vetted p c)
    (differs : r.settings.DiffersAt settings flag found)
    (here : ∀ setting, found = some setting → setting.isEmpty = false ∧ c.Permits flag setting) :
    Region.Vetted p c { r with settings } := by
  refine ⟨⟨vetted.sound, vetted.full.of_differsAt differs fun s h => (here s h).1⟩,
    vetted.priority, fun flag' setting h => ?_⟩
  by_cases same : flag' = flag
  · subst same
    exact (here setting (differs.here.symm.trans h)).2
  · exact vetted.settings flag' setting ((differs.elsewhere flag' same).symm.trans h)

/-- All regions of the table are vetted. -/
def AllVetted (p : Policy) (c : Catalogue) (t : RegionTable) : Prop :=
  ∀ id r, t.get? id = some r → r.Vetted p c

namespace AllVetted

variable {old new : RegionTable} {id : RegionId} {r : Region}

/-- One more vetted region. -/
theorem of_differsAt (vetted : AllVetted p c old) (differs : old.DiffersAt new id (some r))
    (here : r.Vetted p c) : AllVetted p c new := by
  intro id' r' found
  by_cases same : id' = id
  · subst same
    exact Option.some.inj (differs.here.symm.trans found) ▸ here
  · exact vetted id' r' ((differs.elsewhere id' same).symm.trans found)

/-- Where a parent is taken away, nothing else is. -/
theorem of_orphaned (vetted : AllVetted p c old) (orphaned : Orphaned old new id) :
    AllVetted p c new := by
  intro id' r' found
  by_cases same : id' = id
  · subst same
    exact nomatch orphaned.here.symm.trans found
  · rw [orphaned.elsewhere id' same] at found
    obtain ⟨r, old', rfl⟩ := Option.map_eq_some_iff.mp found
    have before := vetted id' r old'
    rw [Atlas.orphanFrom_eq]
    exact ⟨⟨before.sound, before.full⟩, before.priority, before.settings⟩

theorem of_loaded {ds : List Declaration} (loadable : Loadable p c ds) (loaded : Loaded ds new) :
    AllVetted p c new := by
  intro id r found
  obtain ⟨d, hd, -, bare⟩ := loaded.declared id r found
  have valid := loadable.valid d hd
  have plain : (d.plain id).Vetted p c :=
    ⟨Declaration.proper_plain valid.shape id, valid.priority, valid.settings⟩
  exact plain.of_bare_eq bare

end AllVetted

/-- What is granted leaves all regions vetted, if it brings proper ones only. -/
theorem Request.Change.allVetted {request : Request} {new : RegionTable} {x : request.Result}
    (vetted : AllVetted t.policy t.catalogue t.atlas.regions)
    (proper : ∀ s, request.Brings t.atlas.regions s → s.Proper)
    (admissible : request.Admissible t) (change : request.Change t.atlas.regions new x) :
    AllVetted t.policy t.catalogue new := by
  cases request with
  | add r => exact vetted.of_differsAt change ⟨proper r (.add r), admissible.1⟩
  | remove id => exact vetted.of_orphaned change.2
  | removeWith id succession =>
    cases succession with
    | orphan => exact vetted.of_orphaned change.2
    | remove =>
      intro id' r found
      rw [change.2] at found
      split at found
      · cases found
      · exact vetted id' r found
  | redefine id shape =>
    obtain ⟨r, found, differs⟩ := change
    have before := vetted id r found
    exact vetted.of_differsAt differs
      ⟨⟨admissible.1, before.full⟩, before.priority, before.settings⟩
  | setParent id parent =>
    obtain ⟨r, found, differs⟩ := change
    exact vetted.of_differsAt differs ((vetted id r found).of_bare_eq rfl)
  | setPriority id priority =>
    obtain ⟨r, found, differs⟩ := change
    have before := vetted id r found
    exact vetted.of_differsAt differs
      ⟨⟨before.sound, before.full⟩, admissible.1, before.settings⟩
  | setFlag id flag setting =>
    obtain ⟨r, found, -, settings, put, differs⟩ := change
    refine vetted.of_differsAt differs ((vetted id r found).withSettings put fun setting' h => ?_)
    split at h
    · cases h
    next given =>
      cases h
      exact ⟨Bool.eq_false_of_not_eq_true given, admissible.1⟩
  | clearFlag id flag =>
    obtain ⟨r, found, -, settings, cleared, differs⟩ := change
    exact vetted.of_differsAt differs ((vetted id r found).withSettings cleared nofun)
  | update id edit =>
    obtain ⟨r, found, -, differs⟩ := change
    obtain ⟨r', found', -, admits⟩ := admissible
    obtain rfl := Option.some.inj (found.symm.trans found')
    exact vetted.of_differsAt differs ⟨proper (edit r) (.update edit found), admits⟩
  | reload ds => exact .of_loaded admissible change.2

/-! ## Writing down -/

namespace Atlas

variable {a : Atlas}

theorem plain_declaration {r : Region} (full : r.settings.Full) :
    r.declaration.plain r.id = r.bare := by
  rw [Declaration.plain, Region.bare]
  simp only [Region.declaration, Settings.ofPairs_entries full]

theorem mem_declarations_iff (keyed : Region.Keyed a.regions) {d : Declaration} :
    d ∈ a.declarations ↔ ∃ r, a.regions.get? r.id = some r ∧ d = r.declaration := by
  simp only [declarations, List.mem_map, Table.mem_values_iff]
  constructor
  · rintro ⟨r, ⟨id, found⟩, rfl⟩
    exact ⟨r, keyed id r found ▸ found, rfl⟩
  · rintro ⟨r, found, rfl⟩
    exact ⟨r, ⟨r.id, found⟩, rfl⟩

/-- The parents written down are those that are named. -/
theorem declares_declarations_iff (keyed : Region.Keyed a.regions) {child parent : RegionId} :
    Declares a.declarations child parent ↔ Names a.regions child parent := by
  constructor
  · rintro ⟨d, hd, read, text, declared, readParent⟩
    obtain ⟨r, found, rfl⟩ := (mem_declarations_iff keyed).mp hd
    obtain rfl := Except.ok.inj ((RegionId.parse_text r.id).symm.trans read)
    obtain ⟨id, names, rfl⟩ := Option.map_eq_some_iff.mp declared
    obtain rfl := Except.ok.inj ((RegionId.parse_text id).symm.trans readParent)
    exact ⟨r, found, names⟩
  · rintro ⟨r, found, names⟩
    obtain rfl := keyed child r found
    exact ⟨r.declaration, (mem_declarations_iff keyed).mpr ⟨r, found, rfl⟩, RegionId.parse_text r.id,
      parent.text, congrArg (Option.map RegionId.text) names, RegionId.parse_text parent⟩

/-- The table holds what is written down of it. In a forest no parent closes a cycle, so that all
of them stand. -/
theorem Consistent.loaded_declarations (consistent : a.Consistent)
    (full : ∀ id r, a.regions.get? id = some r → r.settings.Full) :
    Loaded a.declarations a.regions where
  size_eq := ((List.length_map _).trans (List.length_map _)).symm
  described d hd := by
    obtain ⟨r, found, rfl⟩ := (mem_declarations_iff consistent.keyed).mp hd
    exact ⟨r, RegionId.parse_text r.id, found, (plain_declaration (full r.id r found)).symm⟩
  declared id r found := by
    obtain rfl := consistent.keyed id r found
    exact ⟨r.declaration, (mem_declarations_iff consistent.keyed).mpr ⟨r, found, rfl⟩,
      RegionId.parse_text r.id, (plain_declaration (full r.id r found)).symm⟩
  names_iff child parent := by
    rw [declares_declarations_iff consistent.keyed]
    refine ⟨fun names => ⟨names, consistent.forest.parent_mem names, fun closes => ?_⟩, And.left⟩
    have named : ∀ a' b, Declares a.declarations a' b → Names a.regions a' b :=
      fun _ _ => (declares_declarations_iff consistent.keyed).mp
    exact consistent.forest.acyclic child (TransGen.mono named _ _ closes.loop)
  forest := consistent.forest

theorem loadable_declarations (keyed : Region.Keyed a.regions)
    (vetted : AllVetted p c a.regions) : Loadable p c a.declarations where
  valid d hd := by
    obtain ⟨r, found, rfl⟩ := (mem_declarations_iff keyed).mp hd
    have vetted := vetted r.id r found
    refine ⟨⟨r.id, RegionId.parse_text r.id⟩, vetted.sound, vetted.priority, ?_⟩
    exact (Settings.ofPairs_entries vetted.full).symm ▸ vetted.settings
  distinct := by
    have texts : (a.declarations.map fun d => RegionId.parse d.id) =
        (a.regions.values.map (·.id)).map .ok := by
      rw [declarations, List.map_map, List.map_map]
      exact List.map_congr_left fun r _ => RegionId.parse_text r.id
    exact texts ▸ keyed.nodup_map_id_values.map fun _ _ => Except.ok.inj

end Atlas

/-! ## Loading again -/

namespace Territory

theorem allVetted_make (h : make p c = .ok t) :
    AllVetted t.policy t.catalogue t.atlas.regions := by
  obtain ⟨-, -, h⟩ := bind_eq_ok_iff.mp h
  obtain ⟨index, -, h⟩ := bind_eq_ok_iff.mp h
  obtain rfl := pure_eq_ok_iff.mp h
  exact fun _ _ found => nomatch found

theorem allVetted_ofDeclarations [Platform] {ds : List Declaration}
    (h : ofDeclarations p c ds = .ok t) : AllVetted t.policy t.catalogue t.atlas.regions := by
  obtain ⟨-, rfl, rfl, from'⟩ := (ends_ofDeclarations _ _ _).ok _ h
  exact .of_loaded from'.loadable from'.loaded

/-- A request that brings proper regions only leaves all regions vetted, granted or refused. -/
theorem Reachable.allVetted_serve [Platform] (h : t.Reachable) {request : Request}
    (vetted : AllVetted t.policy t.catalogue t.atlas.regions)
    (proper : ∀ s, request.Brings t.atlas.regions s → s.Proper) :
    AllVetted (t.serve request).1.policy (t.serve request).1.catalogue
      (t.serve request).1.atlas.regions := by
  have answered := answered_serve h.consistent h.sound.usable request
  cases outcome : (t.serve request).2 with
  | error e =>
    rw [(answered.refused e outcome).1]
    exact vetted
  | ok x =>
    obtain ⟨a, next, grants⟩ := answered.granted x outcome
    have after := grants.change.allVetted vetted proper grants.admissible
    rw [next]
    exact after

/-- Territories that can be reached by requests that bring proper regions only, on any platforms. -/
inductive Attainable : Territory → Prop
  | make {p : Policy} {c : Catalogue} {t : Territory} : make p c = .ok t → Attainable t
  | ofDeclarations [Platform] {p : Policy} {c : Catalogue} {ds : List Declaration} {t : Territory} :
    ofDeclarations p c ds = .ok t → Attainable t
  | serve [Platform] {t : Territory} : Attainable t → (request : Request) → request.Proper →
    Attainable (t.serve request).1

theorem Attainable.reachable (h : t.Attainable) : t.Reachable := by
  induction h with
  | make h => exact .make h
  | ofDeclarations h => exact .ofDeclarations h
  | serve _ request _ ih => exact ih.serve request

theorem Attainable.vetted (h : t.Attainable) :
    AllVetted t.policy t.catalogue t.atlas.regions := by
  induction h with
  | make h => exact allVetted_make h
  | ofDeclarations h => exact allVetted_ofDeclarations h
  | serve h request proper ih =>
    refine h.reachable.allVetted_serve ih fun s brings => ?_
    cases brings with
    | add => exact proper
    | update edit found => exact proper _ (ih _ _ found).toProper

/-- What is written down of a territory is loaded again as it was, bit for bit and on any platform,
and so all that is asked of it is answered as before. -/
theorem Attainable.restored [Platform] (h : t.Attainable) :
    ∃ t', Territory.ofDeclarations t.policy t.catalogue t.atlas.declarations = .ok t' ∧
      t'.atlas.regions = t.atlas.regions ∧
      (∀ p, t'.atlas.regionsAt p = t.atlas.regionsAt p) ∧
      ∀ p flag actor, t'.resolve p flag actor = t.resolve p flag actor := by
  have sound := h.reachable.sound
  have consistent := sound.toConsistent
  have loadable := Atlas.loadable_declarations consistent.keyed h.vetted
  have stored := consistent.loaded_declarations fun id r found => (h.vetted id r found).full
  obtain ⟨t', loads, -, policy, catalogue, from'⟩ :=
    ((ends_ofDeclarations t.policy t.catalogue t.atlas.declarations).imp_refused fun _ h =>
      (h sound.bounds sound.usable).not_loadable loadable).exists_ok
  have regions : t'.atlas.regions = t.atlas.regions := from'.loaded.unique stored
  have regionsAt : ∀ p, t'.atlas.regionsAt p = t.atlas.regionsAt p := fun p => by
    rw [from'.regionsAt_eq_inPrecedence, consistent.regionsAt_eq_inPrecedence, Atlas.scanAt,
      Atlas.scanAt, regions]
  refine ⟨t', loads, regions, regionsAt, fun p flag actor => ?_⟩
  rw [resolve, resolve, Atlas.resolve, Atlas.resolve, bylaws, bylaws, policy, catalogue, regions,
    regionsAt]

/-- A region in the region of the whole world, with a flag set on it. -/
theorem restored_of_spawn : letI := Platform.reference
    ∃ t : Territory,
    t.atlas.declarations.map (fun d => (d.id, d.parent, d.settings.length)) =
      [("__global__", none, 0), ("spawn", some "__global__", 1)] ∧
    ∃ t', ofDeclarations t.policy t.catalogue t.atlas.declarations = .ok t' ∧
      t'.atlas.regions = t.atlas.regions ∧
      (∀ p, t'.atlas.regionsAt p = t.atlas.regionsAt p) ∧
      ∀ p flag actor, t'.resolve p flag actor = t.resolve p flag actor := by
  let := Platform.reference
  have start : make {} ∅ = .ok ⟨{}, ∅, .blank (.empty {})⟩ := rfl
  let spawn : Region :=
    { id := ⟨"spawn", by decide +kernel⟩
      shape := .cuboid ⟨⟨0, 0, 0⟩, ⟨2, 2, 2⟩⟩
      parent := some .global }
  have world : Region.everywhere.Proper := Region.Made.everywhere.proper
  have proper : spawn.Proper :=
    ⟨Option.isNone_iff_eq_none.mp (by decide +kernel), fun _ _ found => nomatch found⟩
  have attainable := (Attainable.make start).serve (.add .everywhere) world
  have attainable := attainable.serve (.add spawn) proper
  have attainable := attainable.serve
    (.setFlag spawn.id ⟨"tnt"⟩ { value := some (.state .deny) }) trivial
  exact ⟨_, by decide +kernel, attainable.restored⟩

end Territory

end Enclave
