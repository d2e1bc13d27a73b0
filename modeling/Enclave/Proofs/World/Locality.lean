import Enclave.Proofs.Verdict.Congruence
import Enclave.Proofs.World.Queries

/-!
# Verdicts are local

What a flag comes to at a point depends on the regions there and on what lies above them, and of
these on what is set for the flag, on parents, rosters and precedence
(`Territory.Reachable.resolve_eq_of_alike`). How the territory came to be as it is, how its index is
laid out, what is set for other flags and what regions there are elsewhere make no difference.

The two territories are compared region by region: those at the point have counterparts of the same
ids, and as precedence reads nothing in which counterparts differ, these stand in the same order
(`Atlas.Consistent.map_counterpart_regionsAt`).
-/

namespace Enclave

open Region (Alike AlikeAbove)

variable {p : Point Float} {flag : FlagName} {r : Region}

namespace Atlas

variable {a a' : Atlas}

/-- The region of the same id in another atlas. -/
def counterpart (a : Atlas) (r : Region) : Region := (a.get? r.id).getD r

/-- A region at a point has a counterpart there, if the same ids are. -/
theorem InStep.counterpart_mem (inStep' : a'.InStep)
    (same : ∀ id, id ∈ (a.scanAt p).map (·.id) ↔ id ∈ (a'.scanAt p).map (·.id))
    (hr : r ∈ a.scanAt p) : a'.counterpart r ∈ a'.scanAt p ∧ (a'.counterpart r).id = r.id := by
  obtain ⟨r', hr', id⟩ := List.mem_map.mp ((same r.id).mp (List.mem_map.mpr ⟨r, hr, rfl⟩))
  have found := (inStep'.mem_scanAt_iff.mp hr').1
  have counterpart : a'.counterpart r = r' := by rw [counterpart, ← id, found, Option.getD_some]
  exact ⟨counterpart ▸ hr', counterpart ▸ id⟩

/-- The regions at a point of an atlas are the counterparts of those of another that is alike there,
in the same order. -/
theorem Consistent.map_counterpart_regionsAt (consistent : a.Consistent)
    (consistent' : a'.Consistent)
    (same : ∀ id, id ∈ (a.scanAt p).map (·.id) ↔ id ∈ (a'.scanAt p).map (·.id))
    (alike : ∀ r ∈ a.scanAt p, Alike flag r (a'.counterpart r)) :
    (a.regionsAt p).map a'.counterpart = a'.regionsAt p := by
  have mem := fun r => (consistent.regionsAt_perm_scanAt p).mem_iff (a := r)
  have mem' := fun r => (consistent'.regionsAt_perm_scanAt p).mem_iff (a := r)
  have there := fun r (hr : r ∈ a.regionsAt p) =>
    consistent'.counterpart_mem same ((mem r).mp hr)
  have ids : ((a.regionsAt p).map a'.counterpart).map (·.id) = (a.regionsAt p).map (·.id) := by
    rw [List.map_map]
    exact List.map_congr_left fun r hr => (there r hr).2
  have nodup : ((a.regionsAt p).map a'.counterpart).Nodup :=
    List.Nodup.of_map (·.id) (ids ▸ (consistent.lineup_regionsAt p).distinct)
  have perm : ((a.regionsAt p).map a'.counterpart).Perm (a'.regionsAt p) := by
    refine (List.perm_ext_iff_of_nodup nodup (consistent'.lineup_regionsAt p).nodup).mpr fun r' => ?_
    rw [List.mem_map]
    constructor
    · rintro ⟨r, hr, rfl⟩
      exact (mem' _).mpr (there r hr).1
    · intro hr'
      obtain ⟨r, hr, id⟩ := List.mem_map.mp
        ((same r'.id).mpr (List.mem_map.mpr ⟨r', (mem' r').mp hr', rfl⟩))
      have hr := (mem r).mpr hr
      exact ⟨r, hr, consistent'.eq_of_mem_regionsAt ((mem' _).mpr (there r hr).1) hr'
        ((there r hr).2.trans id)⟩
  have sorted : ((a.regionsAt p).map a'.counterpart).Pairwise Region.Precedes := by
    refine List.pairwise_map.mpr ((consistent.pairwise_regionsAt p).imp_of_mem ?_)
    intro r s hr hs precedes
    rwa [Region.Precedes, ← (alike r ((mem r).mp hr)).comparePrecedence_eq
      (alike s ((mem s).mp hs))]
  refine perm.eq_of_pairwise (fun r s hr hs h h' => ?_) sorted (consistent'.pairwise_regionsAt p)
  have level : r.comparePrecedence s = .eq := Std.OrientedCmp.isLE_antisymm h h'
  exact consistent'.eq_of_mem_regionsAt (perm.mem_iff.mp hr) hs
    (Region.id_eq_of_comparePrecedence level)

/-- Where all at or above a region is alike, so are its lineage and that of its counterpart. -/
theorem Consistent.forall₂_lineage_counterpart (consistent : a.Consistent)
    (consistent' : a'.Consistent)
    (same : ∀ id, id ∈ (a.scanAt p).map (·.id) ↔ id ∈ (a'.scanAt p).map (·.id))
    (hr : r ∈ a.scanAt p) (above : AlikeAbove a.regions a'.regions flag r) :
    List.Forall₂ (Alike flag) (r.lineage a.regions) ((a'.counterpart r).lineage a'.regions) ∧
      Alike flag r (a'.counterpart r) := by
  have found := (consistent.mem_scanAt_iff.mp hr).1
  obtain ⟨hr', id⟩ := consistent'.counterpart_mem same hr
  have found' := id ▸ (consistent'.mem_scanAt_iff.mp hr').1
  exact ⟨Region.forall₂_lineage consistent.keyed consistent'.keyed consistent.forest
    consistent'.forest found found' above, above r .refl _ found'⟩

/-- What is above the regions at a point can be looked through. -/
theorem Consistent.alikeAbove (consistent : a.Consistent) {t' : RegionTable}
    (alike : ∀ r ∈ a.scanAt p, ∀ s ∈ r.lineage a.regions, ∀ s' ∈ t'.get? s.id, Alike flag s s') :
    ∀ r ∈ a.scanAt p, AlikeAbove a.regions t' flag r := fun r hr =>
  Region.alikeAbove_of_lineage consistent.keyed consistent.forest.acyclic
    (consistent.mem_scanAt_iff.mp hr).1 (alike r hr)

end Atlas

theorem Bylaws.flag_terms (b : Bylaws) (flag : FlagName) : (b.terms flag).flag = flag := by
  rw [terms]
  cases b.catalogue.get? flag <;> rfl

/-- Territories with one catalogue and the same defaults come to one verdict at a point if the same
ids hold it and each region there shows its counterpart's view. For what flag the regions are alike
is all one: they only have to stand in the same order. -/
theorem Territory.Reachable.resolve_eq_of_views {t t' : Territory} (h : t.Reachable)
    (h' : t'.Reachable) (catalogue : t.catalogue = t'.catalogue)
    (defaults : t.policy.defaults = t'.policy.defaults)
    (same : ∀ id, id ∈ (t.atlas.scanAt p).map (·.id) ↔ id ∈ (t'.atlas.scanAt p).map (·.id))
    {other : FlagName} (alike : ∀ r ∈ t.atlas.scanAt p, Alike other r (t'.atlas.counterpart r))
    {actor : Option Actor} (views : ∀ r ∈ t.atlas.scanAt p, Region.SameView t.atlas.regions
      t'.atlas.regions (t.bylaws.terms flag) actor r (t'.atlas.counterpart r)) :
    t.resolve p flag actor = t'.resolve p flag actor := by
  have consistent := h.consistent
  have bylaws : t'.bylaws = t.bylaws := by rw [bylaws, bylaws, catalogue, defaults]
  rw [resolve, resolve, bylaws, Atlas.resolve, Atlas.resolve,
    ← consistent.map_counterpart_regionsAt h'.consistent same alike]
  refine Bylaws.resolve_congr (List.forall₂_map_right_iff.mpr (List.forall₂_same.mpr fun r hr => ?_))
  exact views r ((consistent.regionsAt_perm_scanAt p).mem_iff.mp hr)

/-- On territories with one catalogue and the same defaults a flag comes to the same at a point if
the same ids hold it and these regions and all above them are alike for the flag, and for
`passthrough` where membership decides it. -/
theorem Territory.Reachable.resolve_eq_of_alike {t t' : Territory} (h : t.Reachable)
    (h' : t'.Reachable) (catalogue : t.catalogue = t'.catalogue)
    (defaults : t.policy.defaults = t'.policy.defaults)
    (same : ∀ id, id ∈ (t.atlas.scanAt p).map (·.id) ↔ id ∈ (t'.atlas.scanAt p).map (·.id))
    (alike : ∀ r ∈ t.atlas.scanAt p, AlikeAbove t.atlas.regions t'.atlas.regions flag r)
    (passthrough : (t.bylaws.terms flag).membershipDecides = true → ∀ r ∈ t.atlas.scanAt p,
      AlikeAbove t.atlas.regions t'.atlas.regions Terms.passthrough.flag r)
    (actor : Option Actor) : t.resolve p flag actor = t'.resolve p flag actor := by
  have likes : ∀ {flag}, ∀ r ∈ t.atlas.scanAt p,
      AlikeAbove t.atlas.regions t'.atlas.regions flag r →
      List.Forall₂ (Alike flag) (r.lineage t.atlas.regions)
        ((t'.atlas.counterpart r).lineage t'.atlas.regions) ∧
        Alike flag r (t'.atlas.counterpart r) := fun r hr above =>
    h.consistent.forall₂_lineage_counterpart h'.consistent same hr above
  refine h.resolve_eq_of_views h' catalogue defaults same (fun r hr => (likes r hr (alike r hr)).2)
    fun r hr => ?_
  have own := likes r hr (alike r hr)
  rw [← t.bylaws.flag_terms flag] at own
  exact Region.sameView_of_alike own.1 own.2 fun decides => likes r hr (passthrough decides r hr)

/-- A plot in a town, and the same plot and town entered into an index of another fanout, after a mine
elsewhere and with a greeting. -/
theorem Territory.resolve_eq_of_plot : ∃ t t' : Territory,
    t.Reachable ∧ t'.Reachable ∧ t.policy.fanout ≠ t'.policy.fanout ∧
    t.atlas.regions.keys.map (·.text) = ["plot", "town"] ∧
    t'.atlas.regions.keys.map (·.text) = ["mine", "plot", "town"] ∧
    (t.bylaws.terms ⟨"build"⟩).membershipDecides = true ∧
    t.resolve ⟨1, 1, 1⟩ ⟨"build"⟩ (some (.ofPlayer 7)) =
      t'.resolve ⟨1, 1, 1⟩ ⟨"build"⟩ (some (.ofPlayer 7)) := by
  let := Platform.reference
  have start := reachable_blank
    (.insert ∅ ⟨"build"⟩ { name := ⟨"build"⟩, kind := .state, membershipDecides := true })
  have reachable := start.add
    { id := ⟨"town", by decide +kernel⟩
      shape := .cuboid ⟨⟨0, 0, 0⟩, ⟨8, 8, 8⟩⟩
      owners := .of [1] [] }
  have reachable := reachable.add
    { id := ⟨"plot", by decide +kernel⟩
      shape := .cuboid ⟨⟨0, 0, 0⟩, ⟨2, 2, 2⟩⟩
      members := .of [7] []
      parent := some ⟨"town", by decide +kernel⟩ }
  have start' : make { fanout := ⟨8, 3⟩ } (.insert ∅ ⟨"build"⟩
      { name := ⟨"build"⟩, kind := .state, membershipDecides := true }) = .ok _ := rfl
  have reachable' := (Reachable.make start').add
    { id := ⟨"mine", by decide +kernel⟩, shape := .cuboid ⟨⟨10, 0, 0⟩, ⟨12, 8, 8⟩⟩ }
  have reachable' := reachable'.add
    { id := ⟨"town", by decide +kernel⟩
      shape := .cuboid ⟨⟨0, 0, 0⟩, ⟨6, 6, 6⟩⟩
      settings := .ofPairs [(⟨"greeting"⟩, { value := some (.text "Welcome") })]
      owners := .of [1] [] }
  have reachable' := reachable'.add
    { id := ⟨"plot", by decide +kernel⟩
      shape := .cuboid ⟨⟨0, 0, 0⟩, ⟨2, 2, 2⟩⟩
      members := .of [7] []
      parent := some ⟨"town", by decide +kernel⟩ }
  have consistent := reachable.consistent
  refine ⟨_, _, reachable, reachable', by decide +kernel, by decide +kernel, by decide +kernel,
    by decide +kernel, reachable.resolve_eq_of_alike reachable' ?_ ?_ ?_ ?_ (fun _ => ?_) _⟩
  · simp only [catalogue_add]
  · simp only [policy_add]
  · exact fun id => iff_of_eq (congrArg (id ∈ ·) (by decide +kernel))
  · exact consistent.alikeAbove (by decide +kernel)
  · exact consistent.alikeAbove (by decide +kernel)

end Enclave
