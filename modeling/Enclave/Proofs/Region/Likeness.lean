import Mathlib.Data.List.Forall2
import Enclave.Proofs.Region.Ancestry
import Enclave.Region.Basic

/-!
# Regions alike in what a flag reads

Two regions of one id, perhaps of two tables, are alike for a flag if they agree in everything that
deciding the flag may read of a region: whether it is of the whole world, its priority, its parent,
its rosters, and what it sets for the flag (`Region.Alike`). Nothing else of a region is named, and
of the tables only what lies above.

Likeness can be computed. Values are compared by what they are here, so that a double that is not a
number is alike to itself.

If a region and all above it are alike in two forests, its lineages are alike, place by place
(`Region.forall₂_lineage`). So its ancestors have the same ids and every actor has the same standing.
-/

namespace Enclave

deriving instance DecidableEq for Roster
deriving instance DecidableEq for Double
deriving instance DecidableEq for Value
deriving instance DecidableEq for Setting

namespace Region

open Relation (ReflTransGen TransGen)

variable {t t' : RegionTable} {flag : FlagName} {r s r' s' p : Region} {l l' : List Region}

/-- The regions agree in everything that deciding the flag may read of a region. -/
structure Alike (flag : FlagName) (r s : Region) : Prop where
  id : r.id = s.id
  isGlobal : r.isGlobal = s.isGlobal
  priority : r.priority = s.priority
  parent : r.parent = s.parent
  owners : r.owners = s.owners
  members : r.members = s.members
  setting : r.setting? flag = s.setting? flag

instance : Decidable (Alike flag r s) :=
  decidable_of_iff (r.id = s.id ∧ r.isGlobal = s.isGlobal ∧ r.priority = s.priority ∧
      r.parent = s.parent ∧ r.owners = s.owners ∧ r.members = s.members ∧
      r.setting? flag = s.setting? flag)
    ⟨fun ⟨id, isGlobal, priority, parent, owners, members, setting⟩ =>
      ⟨id, isGlobal, priority, parent, owners, members, setting⟩,
    fun h => ⟨h.id, h.isGlobal, h.priority, h.parent, h.owners, h.members, h.setting⟩⟩

namespace Alike

theorem level_eq (alike : Alike flag r s) : r.level = s.level := by
  rw [level, level, alike.isGlobal, alike.priority]

theorem isUnclaimed_eq (alike : Alike flag r s) : r.isUnclaimed = s.isUnclaimed := by
  rw [isUnclaimed, isUnclaimed, alike.owners, alike.members]

theorem refl (flag : FlagName) (r : Region) : Alike flag r r := ⟨rfl, rfl, rfl, rfl, rfl, rfl, rfl⟩

/-- Alike regions stand in the same order. -/
theorem comparePrecedence_eq (hr : Alike flag r r') (hs : Alike flag s s') :
    r.comparePrecedence s = r'.comparePrecedence s' := by
  rw [comparePrecedence, comparePrecedence, hr.id, hr.isGlobal, hr.priority, hs.id, hs.isGlobal,
    hs.priority]

end Alike

/-! ## Alike lineages -/

theorem Line.unique (line : Line t r l) (line' : Line t r l') : l = l' := by
  induction line generalizing l' with
  | root orphan =>
    cases line' with
    | root => rfl
    | step parent => exact absurd (parent.symm.trans orphan) (Option.some_ne_none _)
  | step parent _ ih =>
    cases line' with
    | root orphan => exact absurd (parent.symm.trans orphan) (Option.some_ne_none _)
    | step parent' line' =>
      obtain rfl := Option.some.inj (parent.symm.trans parent')
      rw [ih line']

/-- What the other table has of the ids at or above a region is alike. -/
def AlikeAbove (t t' : RegionTable) (flag : FlagName) (r : Region) : Prop :=
  ∀ s, r.AtOrBelow t s → ∀ s', t'.get? s.id = some s' → Alike flag s s'

/-- What is above a region is in its lineage. -/
theorem alikeAbove_of_lineage (keyed : Keyed t) (acyclic : ∀ id, ¬ TransGen (Names t) id id)
    (found : t.get? r.id = some r)
    (alike : ∀ s ∈ r.lineage t, ∀ s' ∈ t'.get? s.id, Alike flag s s') : AlikeAbove t t' flag r :=
  fun s above => alike s ((mem_lineage_iff keyed acyclic (agrees_of_get? found)).mpr above)

/-- Where the tables differ in one region only, it is for this region alone to be alike to what
stands in its place, and only if it lies above. -/
theorem alikeAbove_of_differsAt (keyed : Keyed t) (found : t.get? r.id = some r)
    (foundBefore : t.get? s.id = some s) (differs : t.DiffersAt t' s.id (some s'))
    (alike : r.AtOrBelow t s → Alike flag s s') : AlikeAbove t t' flag r := by
  intro u above u' found'
  have there : t.get? u.id = some u := by
    rcases atOrBelow_iff.mp above with rfl | below
    · exact found
    · exact below.get?_eq_some keyed
  by_cases same : u.id = s.id
  · obtain rfl := Option.some.inj (foundBefore.symm.trans (same ▸ there))
    obtain rfl := Option.some.inj (differs.here.symm.trans found')
    exact alike above
  · obtain rfl := Option.some.inj (there.symm.trans ((differs.elsewhere _ same).symm.trans found'))
    exact .refl flag u

/-- Alike regions name the same parents, so that a line of one forest has its like in another. -/
theorem Line.exists_alike (keyed : Keyed t) (forest : Forest t) (forest' : Forest t')
    (line : Line t r l) : ∀ {r'}, t.get? r.id = some r → t'.get? r.id = some r' →
      AlikeAbove t t' flag r → ∃ l', Line t' r' l' ∧ List.Forall₂ (Alike flag) l l' := by
  induction line with
  | @root r orphan =>
    intro r' found found' above
    have alike := above r .refl r' found'
    have named : r.parent = none := Option.eq_none_iff_forall_ne_some.mpr fun id named => by
      obtain ⟨p, known⟩ := Table.contains_iff_get?.mp (forest.parent_mem ⟨r, found, named⟩)
      rw [parentIn, named, Option.bind_some, known] at orphan
      cases orphan
    refine ⟨[r'], .root ?_, .cons alike .nil⟩
    rw [parentIn, ← alike.parent, named]
    rfl
  | @step r p l parent _ ih =>
    intro r' found found' above
    have alike := above r .refl r' found'
    obtain ⟨named, known⟩ := parentIn_eq_some keyed parent
    have named' := alike.parent.symm.trans named
    obtain ⟨p', known'⟩ := Table.contains_iff_get?.mp (forest'.parent_mem ⟨r', found', named'⟩)
    obtain ⟨l', line', likes⟩ := ih known known' fun s below => above s (.head parent below)
    refine ⟨r' :: l', .step ?_ line', .cons alike likes⟩
    rw [parentIn, named', Option.bind_some, known']

/-- Where all at or above a region is alike, its lineages are. -/
theorem forall₂_lineage (keyed : Keyed t) (keyed' : Keyed t') (forest : Forest t)
    (forest' : Forest t') (found : t.get? r.id = some r) (found' : t'.get? r.id = some r')
    (above : AlikeAbove t t' flag r) :
    List.Forall₂ (Alike flag) (r.lineage t) (r'.lineage t') := by
  have line := line_lineage keyed forest.acyclic (agrees_of_get? found)
  have line' := line_lineage keyed' forest'.acyclic
    (agrees_of_get? ((keyed' r.id r' found').symm ▸ found'))
  obtain ⟨l', line'', likes⟩ := line.exists_alike keyed forest forest' found found' above
  exact line''.unique line' ▸ likes

/-! ## What alike lineages have in common -/

/-- What tells no alike regions apart gives one list for two. -/
theorem map_eq_of_forall₂ {α : Type} {f g : Region → α} (likes : List.Forall₂ (Alike flag) l l')
    (same : ∀ s s', Alike flag s s' → f s = g s') : l.map f = l'.map g :=
  List.forall₂_eq_eq_eq ▸ List.rel_map same likes

theorem any_eq_of_forall₂ {p q : Region → Bool} (likes : List.Forall₂ (Alike flag) l l')
    (same : ∀ s s', Alike flag s s' → p s = q s') : l.any p = l'.any q := by
  have values := map_eq_of_forall₂ likes same
  have := congrArg (List.any · fun b => b) values
  rwa [List.any_map, List.any_map] at this

section Lineages

variable (likes : List.Forall₂ (Alike flag) (r.lineage t) (r'.lineage t'))
include likes

theorem map_id_ancestors_eq : (r.ancestors t).map (·.id) = (r'.ancestors t').map (·.id) := by
  rw [ancestors, ancestors, List.map_tail, List.map_tail,
    map_eq_of_forall₂ likes fun _ _ h => h.id]

theorem standing_eq (a : Actor) : r.standing t a = r'.standing t' a := by
  have owner := any_eq_of_forall₂ likes (p := (·.owners.lists a)) (q := (·.owners.lists a))
    fun _ _ h => by rw [h.owners]
  have member := any_eq_of_forall₂ likes (p := (·.members.lists a)) (q := (·.members.lists a))
    fun _ _ h => by rw [h.members]
  rw [standing, standing, owner, member]

end Lineages

end Region

end Enclave
