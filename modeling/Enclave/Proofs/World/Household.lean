import Enclave.Proofs.World.Atlas

/-!
# Households hold all descendants

A household is a region and all that lies below it, each once and the region first
(`Atlas.Household`). So nothing that is left when it is removed names a parent that is gone. What
has been passed is closed under children up to what is still to do; when nothing is left to do it is
closed outright. Each step passes one region that was not passed before, so there are steps enough.
-/

namespace Enclave.Atlas

open Region (Keyed Names)
open Relation (ReflTransGen)

variable {a : Atlas}

theorem mem_childrenOf_iff (keyed : Keyed a.regions) {id child : RegionId} :
    child ∈ (a.childrenOf id).map (·.id) ↔ Names a.regions child id := by
  simp only [childrenOf, List.mem_map, List.mem_filter, Table.mem_values_iff, beq_iff_eq]
  constructor
  · rintro ⟨r, ⟨⟨k, found⟩, parent⟩, rfl⟩
    obtain rfl := keyed k r found
    exact ⟨r, found, parent⟩
  · rintro ⟨r, found, parent⟩
    exact ⟨r, ⟨⟨child, found⟩, parent⟩, keyed child r found⟩

theorem nodup_childrenOf (keyed : Keyed a.regions) (id : RegionId) :
    ((a.childrenOf id).map (·.id)).Nodup :=
  keyed.nodup_map_id_values.sublist (List.filter_sublist.map _)

/-- What a step notes are the children that are not listed. -/
theorem mem_fresh_iff (keyed : Keyed a.regions) {id child : RegionId} {listed : List RegionId} :
    child ∈ ((a.childrenOf id).map (·.id)).filter (fun c => !listed.contains c) ↔
      Names a.regions child id ∧ child ∉ listed := by
  rw [List.mem_filter, mem_childrenOf_iff keyed, Bool.not_eq_true', List.contains_eq_mem,
    decide_eq_false_iff_not]

/-- The invariant of the walk: the ids passed and those to do are different ids of the atlas at or
below the first of them, and the children of those passed are among them. -/
structure Walked (a : Atlas) (start : RegionId) (done todo : List RegionId) : Prop where
  first : (done ++ todo).head? = some start
  nodup : (done ++ todo).Nodup
  known : ∀ id ∈ done ++ todo, a.contains id = true
  below : ∀ id ∈ done ++ todo, ReflTransGen (Names a.regions) id start
  closed : ∀ id ∈ done, ∀ child, Names a.regions child id → child ∈ done ++ todo

/-- A step passes one id, and notes those of its children that are new. -/
theorem Walked.step (keyed : Keyed a.regions) {start id : RegionId} {done todo : List RegionId}
    (walked : a.Walked start done (id :: todo)) : a.Walked start (done ++ [id])
      (todo ++ ((a.childrenOf id).map (·.id)).filter fun c =>
        !(done ++ id :: todo).contains c) := by
  generalize hfresh : (((a.childrenOf id).map (·.id)).filter
    fun c => !(done ++ id :: todo).contains c) = fresh
  have mem_fresh : ∀ child, child ∈ fresh ↔
      Names a.regions child id ∧ child ∉ done ++ id :: todo := fun _ => hfresh ▸ mem_fresh_iff keyed
  have regroup : done ++ [id] ++ (todo ++ fresh) = (done ++ id :: todo) ++ fresh := by simp
  refine ⟨?_, ?_, ?_, ?_, ?_⟩
  · rw [regroup, List.head?_append, walked.first, Option.some_or]
  · rw [regroup]
    refine walked.nodup.append (hfresh ▸ (nodup_childrenOf keyed id).filter _) ?_
    intro child old new
    exact ((mem_fresh child).mp new).2 old
  · intro child h
    rw [regroup] at h
    rcases List.mem_append.mp h with h | h
    · exact walked.known child h
    · obtain ⟨r, found, -⟩ := ((mem_fresh child).mp h).1
      exact Table.contains_iff_get?.mpr ⟨r, found⟩
  · intro child h
    rw [regroup] at h
    rcases List.mem_append.mp h with h | h
    · exact walked.below child h
    · have here := walked.below id (List.mem_append_right done List.mem_cons_self)
      exact .head ((mem_fresh child).mp h).1 here
  · intro parent h child names
    rw [regroup]
    by_cases old : child ∈ done ++ id :: todo
    · exact List.mem_append_left fresh old
    · rcases List.mem_append.mp h with h | h
      · exact absurd (walked.closed parent h child names) old
      · obtain rfl := List.mem_singleton.mp h
        exact List.mem_append_right _ ((mem_fresh child).mpr ⟨names, old⟩)

/-- With steps enough nothing is left to do. -/
theorem Walked.addDescendants (keyed : Keyed a.regions) {start : RegionId} :
    ∀ (steps : Nat) {done todo : List RegionId}, a.Walked start done todo →
      a.size < done.length + steps → a.Walked start (a.addDescendants steps done todo) [] := by
  intro steps
  induction steps with
  | zero =>
    intro done todo walked enough
    have := Region.length_le_size walked.nodup.of_append_left fun id hid =>
      walked.known id (List.mem_append_left todo hid)
    exact absurd this (Nat.not_le.mpr enough)
  | succ steps ih =>
    intro done todo walked enough
    cases todo with
    | nil => exact walked
    | cons id todo =>
      refine ih (walked.step keyed) ?_
      rw [List.length_append, List.length_singleton]
      omega

/-- The list is of a region and all that lies below it, each once and the region first. -/
structure Household (t : RegionTable) (id : RegionId) (ids : List RegionId) : Prop where
  first : ids.head? = some id
  nodup : ids.Nodup
  mem_iff : ∀ member, member ∈ ids ↔ ReflTransGen (Names t) member id

theorem household_household (keyed : Keyed a.regions) {id : RegionId}
    (known : a.contains id = true) : Household a.regions id (a.household id) := by
  have start : a.Walked id [] [id] := by
    refine ⟨rfl, List.nodup_singleton id, ?_, ?_, fun _ h => absurd h List.not_mem_nil⟩
    · exact fun id' h => List.mem_singleton.mp h ▸ known
    · exact fun id' h => List.mem_singleton.mp h ▸ .refl
  obtain ⟨first, nodup, -, below, closed⟩ :=
    start.addDescendants keyed (a.size + 1) (Nat.lt_add_left 0 a.size.lt_succ_self)
  rw [List.append_nil] at first nodup below closed
  refine ⟨first, nodup, fun member => ⟨below member, fun path => ?_⟩⟩
  induction path using ReflTransGen.head_induction_on with
  | refl => exact List.mem_of_head? first
  | head names _ ih => exact closed _ ih _ names

namespace Household

variable {t : RegionTable} {id : RegionId} {ids : List RegionId}

/-- The children of all members are members. -/
theorem closed (household : Household t id ids) {child parent : RegionId} (h : parent ∈ ids)
    (names : Names t child parent) : child ∈ ids :=
  (household.mem_iff child).mpr (.head names ((household.mem_iff parent).mp h))

theorem known (household : Household t id ids) (known : t.contains id = true) {member : RegionId}
    (h : member ∈ ids) : t.contains member = true := by
  rcases ((household.mem_iff member).mp h).cases_head with rfl | ⟨_, ⟨r, found, -⟩, -⟩
  · exact known
  · exact Table.contains_iff_get?.mpr ⟨r, found⟩

end Household

end Enclave.Atlas
