import Enclave.Proofs.Double.Comparison
import Enclave.Proofs.Verdict.Resolution

/-!
# Who is credited with a verdict

A verdict by regions names the regions that gave its value (`Bylaws.credits`): they are candidates,
in order of precedence and each once, and what each of them grants is the value. Where the first
value stands it is one region; where values combine it is every upheld candidate of an equal value.

The value and the regions are found by different comparisons. Numbers are combined in the order by
rank, in which every double has its place; the regions are picked by `==`, which holds of no double
that is not a number. So where what numbers combine to is not a number, nobody is credited with it,
though an upheld candidate gave it. Of every other value somebody is.
-/

namespace Enclave

open Region (Lineup Precedes IsUpheld)

variable {b : Bylaws} {t : RegionTable} {actor : Option Actor} {r : Region}
  {candidates : List Region} {flag : FlagName}

/-! ## Values that equal something -/

namespace Value

/-- Whether the value is a double that is not a number. -/
def isNaN : Value → Bool
  | float x => x.isNaN
  | _ => false

variable {u v : Value}

theorem isNaN_eq_false_of_beq (h : (u == v) = true) : v.isNaN = false := by
  cases v with
  | float y =>
    cases u with
    | float x => exact (Double.beq_iff.mp h).2.1
    | _ => cases h
  | _ => rfl

theorem beq_self_iff : (v == v) = true ↔ v.isNaN = false := by
  refine ⟨isNaN_eq_false_of_beq, fun number => ?_⟩
  cases v with
  | float x => exact Double.beq_iff.mpr ⟨number, number, rfl⟩
  | state p => exact beq_self_eq_true p
  | bool b => exact beq_self_eq_true b
  | int i => exact beq_self_eq_true i
  | text s => exact beq_self_eq_true s

end Value

namespace Bylaws

/-- The regions that are credited with the value of a verdict. -/
structure Credits (b : Bylaws) (t : RegionTable) (candidates : List Region) (flag : FlagName)
    (actor : Option Actor) (v : Value) (credited : List Region) : Prop where
  mem : ∀ r ∈ credited, r ∈ candidates
  distinct : (credited.map (·.id)).Nodup
  sorted : credited.Pairwise Precedes
  granted : ∀ r ∈ credited, ∃ u, r.value? t (b.terms flag) actor = some u ∧
    (u = v ∨ (u == v) = true)
  first : (b.terms flag).isFirstMatch = true →
    ∃ w, credited = [w] ∧ w.value? t (b.terms flag) actor = some v
  mem_iff : (b.terms flag).isFirstMatch = false → ∀ r, r ∈ credited ↔
    IsUpheld t (b.terms flag) actor candidates r ∧
      ∃ u, r.value? t (b.terms flag) actor = some u ∧ (u == v) = true
  /-- Whoever is credited, some candidate gave the value. -/
  given : ∃ r ∈ candidates, r.value? t (b.terms flag) actor = some v
  ne_nil_iff : credited ≠ [] ↔ (b.terms flag).isFirstMatch = true ∨ v.isNaN = false

/-- The one region whose value stands is credited with it. -/
theorem credits_of_isFirstMatch {v : Value} {ids : List RegionId}
    (first : (b.terms flag).isFirstMatch = true)
    (given : b.byRegions? t candidates flag actor = some ⟨flag, some v, .regions ids⟩) :
    ∃ credited : List Region, ids = credited.map (·.id) ∧
      b.Credits t candidates flag actor v credited := by
  obtain ⟨-, w, hw, value, only⟩ := exists_value?_of_byRegions? given
  refine ⟨[w], only first, ?_⟩
  constructor
  case mem => exact List.forall_mem_singleton.mpr hw
  case distinct => exact List.nodup_singleton _
  case sorted => exact List.pairwise_singleton _ _
  case granted => exact List.forall_mem_singleton.mpr ⟨v, value, .inl rfl⟩
  case first => exact fun _ => ⟨w, rfl, value⟩
  case mem_iff => exact fun other => absurd (first.symm.trans other) Bool.false_ne_true.symm
  case given => exact ⟨w, hw, value⟩
  case ne_nil_iff => exact iff_of_true (List.cons_ne_nil w []) (.inl first)

/-- Of the upheld candidates those are credited whose values equal the one they combine to. -/
theorem credits_of_isCombining {v : Value} {ids : List RegionId} (lineup : Lineup t candidates)
    (sorted : candidates.Pairwise Precedes) (every : (b.terms flag).isFirstMatch = false)
    (given : b.byRegions? t candidates flag actor = some ⟨flag, some v, .regions ids⟩) :
    ∃ credited : List Region, ids = credited.map (·.id) ∧
      b.Credits t candidates flag actor v credited := by
  have combining := isCombining_of_isFirstMatch every
  obtain ⟨upheld, upholds, gathered⟩ := gather_of_isCombining actor lineup every
  rw [byRegions?_of_isCombining upheld gathered combining] at given
  obtain ⟨u, combined, same⟩ := Option.map_eq_some_iff.mp given
  cases same
  have sublist : (upheld.filter fun r => (r.value? t (b.terms flag) actor).any (· == v)).Sublist
      candidates := List.filter_sublist.trans upholds.sublist
  have mem_iff : ∀ r, r ∈ (upheld.filter fun r => (r.value? t (b.terms flag) actor).any (· == v)) ↔
      IsUpheld t (b.terms flag) actor candidates r ∧
        ∃ u, r.value? t (b.terms flag) actor = some u ∧ (u == v) = true := fun r => by
    rw [List.mem_filter, upholds.mem_iff, Option.any_eq_true]
  obtain ⟨w, hw, value⟩ := List.mem_filterMap.mp (Combinator.mem_of_combine combined).1
  refine ⟨_, rfl, ?_⟩
  constructor
  case mem => exact fun r hr => sublist.subset hr
  case distinct => exact lineup.distinct.sublist (sublist.map _)
  case sorted => exact sorted.sublist sublist
  case granted =>
    intro r hr
    obtain ⟨-, u, value, equal⟩ := (mem_iff r).mp hr
    exact ⟨u, value, .inr equal⟩
  case first => exact fun first => absurd (first.symm.trans every) Bool.false_ne_true.symm
  case mem_iff => exact fun _ => mem_iff
  case given => exact ⟨w, upholds.sublist.subset hw, value⟩
  case ne_nil_iff =>
    constructor
    · intro somebody
      obtain ⟨r, hr⟩ := List.exists_mem_of_ne_nil _ somebody
      obtain ⟨-, u, -, equal⟩ := (mem_iff r).mp hr
      exact .inr (Value.isNaN_eq_false_of_beq equal)
    · rintro (first | number)
      · exact absurd (first.symm.trans every) Bool.false_ne_true.symm
      · exact List.ne_nil_of_mem ((mem_iff w).mpr
          ⟨(upholds.mem_iff w).mp hw, v, value, Value.beq_self_iff.mpr number⟩)

/-- A verdict by regions credits the candidates that gave its value, and leaves nobody credited only
where values combine to what is not a number. -/
theorem credits (lineup : Lineup t candidates) (sorted : candidates.Pairwise Precedes)
    {ids : List RegionId} (source : (b.resolve t candidates flag actor).source = .regions ids) :
    ∃ v, b.resolve t candidates flag actor = ⟨flag, some v, .regions ids⟩ ∧
      ∃ credited : List Region, ids = credited.map (·.id) ∧
        b.Credits t candidates flag actor v credited := by
  obtain ⟨v, given⟩ := exists_byRegions?_of_source source
  refine ⟨v, resolve_eq_regions_iff.mpr given, ?_⟩
  cases first : (b.terms flag).isFirstMatch with
  | true => exact credits_of_isFirstMatch first given
  | false => exact credits_of_isCombining lineup sorted first given

/-- Of a pond and two springs those are credited that heal most. -/
theorem credits_of_two_springs : ∃ (t : Territory) (ids : List RegionId),
    (t.atlas.scanAt ⟨1, 1, 1⟩).map (fun r => (r.id.text, (r.value? t.atlas.regions
      (t.bylaws.terms ⟨"heal-amount"⟩) none).bind Value.int?)) =
        [("east-spring", some 4), ("pond", some 2), ("west-spring", some 4)] ∧
    ids.map (·.text) = ["east-spring", "west-spring"] ∧
    Lineup t.atlas.regions (t.atlas.scanAt ⟨1, 1, 1⟩) ∧
    (t.atlas.scanAt ⟨1, 1, 1⟩).Pairwise Precedes ∧
    (t.bylaws.resolve t.atlas.regions (t.atlas.scanAt ⟨1, 1, 1⟩) ⟨"heal-amount"⟩ none).source =
      .regions ids ∧
    ∃ v, t.bylaws.resolve t.atlas.regions (t.atlas.scanAt ⟨1, 1, 1⟩) ⟨"heal-amount"⟩ none =
        ⟨⟨"heal-amount"⟩, some v, .regions ids⟩ ∧
      ∃ credited : List Region, ids = credited.map (·.id) ∧ t.bylaws.Credits t.atlas.regions
        (t.atlas.scanAt ⟨1, 1, 1⟩) ⟨"heal-amount"⟩ none v credited := by
  let := Platform.reference
  let water (id : RegionId) (amount : Int) : Region :=
    { id
      shape := .cuboid ⟨⟨0, 0, 0⟩, ⟨2, 2, 2⟩⟩
      settings := .ofPairs [(⟨"heal-amount"⟩, { value := some (.int amount) })] }
  have reachable := Territory.reachable_blank (.insert ∅ ⟨"heal-amount"⟩
    { name := ⟨"heal-amount"⟩, kind := .integer, combinator := .greatest })
  have reachable := reachable.add (water ⟨"west-spring", by decide +kernel⟩ 4)
  have reachable := reachable.add (water ⟨"pond", by decide +kernel⟩ 2)
  have reachable := reachable.add (water ⟨"east-spring", by decide +kernel⟩ 4)
  have lineup := reachable.consistent.lineup_scanAt ⟨1, 1, 1⟩
  exact ⟨_, [⟨"east-spring", by decide +kernel⟩, ⟨"west-spring", by decide +kernel⟩],
    by decide +kernel, rfl, lineup, by decide +kernel, by decide +kernel,
    credits lineup (by decide +kernel) (by decide +kernel)⟩

/-- A cave in which one walks at no speed that is a number: its value stands, and it is not credited
with it. -/
theorem uncredited_of_nan : ∃ t : Territory, t.Reachable ∧ t.catalogue.Registered ∧
    (gather t.atlas.regions (t.bylaws.terms ⟨"walk-speed"⟩) none (t.atlas.regionsAt ⟨1, 1, 1⟩)).map
      (·.1.text) = ["cave"] ∧
    (t.resolve ⟨1, 1, 1⟩ ⟨"walk-speed"⟩ none).value.map Value.isNaN = some true ∧
    (t.resolve ⟨1, 1, 1⟩ ⟨"walk-speed"⟩ none).source = .regions [] := by
  let := Platform.reference
  have reachable := Territory.reachable_blank (.insert ∅ ⟨"walk-speed"⟩
    { name := ⟨"walk-speed"⟩, kind := .float, combinator := .greatest })
  have reachable := reachable.add
    { id := ⟨"cave", by decide +kernel⟩
      shape := .cuboid ⟨⟨0, 0, 0⟩, ⟨2, 2, 2⟩⟩
      settings := .ofPairs [(⟨"walk-speed"⟩, { value := some (.float .nan) })] }
  refine ⟨_, reachable, ?_, by decide +kernel, by decide +kernel, by decide +kernel⟩
  rw [Territory.catalogue_add]
  exact .insert .empty rfl rfl rfl

end Bylaws

end Enclave
