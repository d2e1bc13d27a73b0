import Mathlib.Data.Fintype.Order
import Enclave.Proofs.Region.Lineage

/-!
# Above and below

A region lies below another if following parents from it comes there (`Region.Below`). Where no
chain of parents comes back, a region's ancestors are the regions that it lies below
(`Region.mem_ancestors_iff`), whether the table has the region itself or not; so lying below is
transitive, no region lies below itself, and some region of any list lies above no other of it
(`Region.exists_lowest`).

A `Region.Lineup` is what regions must be to stand as candidates of one place: they differ in their
ids, and a table whose chains of parents end has no others of these ids. Nothing is said of their
order, nor of their parents, which need neither be candidates nor be in the table.
-/

namespace Enclave.Region

open Relation (ReflTransGen TransGen)

variable {t : RegionTable} {r s u : Region} {candidates : List Region}

/-- The first region's parent, as the table has it, is the second. -/
def HasParent (t : RegionTable) (r p : Region) : Prop := r.parentIn t = some p

/-- Following parents from the first region comes to the second. -/
def Below (t : RegionTable) : Region → Region → Prop := TransGen (HasParent t)

/-- The first region is the second or lies below it. -/
def AtOrBelow (t : RegionTable) : Region → Region → Prop := ReflTransGen (HasParent t)

theorem atOrBelow_iff : r.AtOrBelow t s ↔ s = r ∨ r.Below t s := Relation.reflTransGen_iff_eq_or_transGen

/-- No roster lists an actor without a player and without groups. -/
theorem lists_eq_false_of_isAnonymous {a : Actor} (anonymous : a.isAnonymous = true)
    (roster : Roster) : roster.lists a = false := by
  obtain ⟨player, groups⟩ := a
  simp only [Actor.isAnonymous, Bool.and_eq_true, Option.isNone_iff_eq_none,
    List.isEmpty_iff] at anonymous
  obtain ⟨rfl, rfl⟩ := anonymous
  rfl

/-- That nobody looks for an anonymous actor makes no difference to what is found. -/
theorem standing_eq_ite (t : RegionTable) (r : Region) (a : Actor) : r.standing t a =
    if (r.lineage t).any (·.owners.lists a) then .owner
    else if (r.lineage t).any (·.members.lists a) then .member
    else .nonMember := by
  rw [standing]
  split
  next anonymous => simp [lists_eq_false_of_isAnonymous anonymous]
  next => rfl

/-! ## Lines hold what lies above -/

theorem Line.mem_tail_iff {l : List Region} (line : Line t r l) : s ∈ l.tail ↔ r.Below t s := by
  induction line with
  | @root r orphan =>
    refine iff_of_false List.not_mem_nil fun below => ?_
    obtain ⟨p, parent, -⟩ := TransGen.head'_iff.mp below
    exact Option.some_ne_none p (parent.symm.trans orphan)
  | @step r p l parent line ih =>
    have head : l = p :: l.tail := by cases line <;> rfl
    have above : s ∈ l ↔ s = p ∨ p.Below t s := by
      rw [head, List.mem_cons, ih]
    rw [List.tail_cons, above, ← atOrBelow_iff]
    constructor
    · exact fun below => TransGen.head' parent below
    · intro below
      obtain ⟨p', parent', below⟩ := TransGen.head'_iff.mp below
      obtain rfl := Option.some.inj (parent.symm.trans parent')
      exact below

theorem Line.mem_iff {l : List Region} (line : Line t r l) : s ∈ l ↔ r.AtOrBelow t s := by
  have head : l = r :: l.tail := by cases line <;> rfl
  rw [head, List.mem_cons, line.mem_tail_iff, atOrBelow_iff]

section Acyclic

variable (keyed : Keyed t) (acyclic : ∀ id, ¬ TransGen (Names t) id id)
include keyed acyclic

theorem mem_lineage_iff (agrees : Agrees t r) : s ∈ r.lineage t ↔ r.AtOrBelow t s :=
  (line_lineage keyed acyclic agrees).mem_iff

theorem mem_ancestors_iff (agrees : Agrees t r) : s ∈ r.ancestors t ↔ r.Below t s :=
  (line_lineage keyed acyclic agrees).mem_tail_iff

omit acyclic in
/-- What lies above is in the table. -/
theorem Below.get?_eq_some (below : r.Below t s) : t.get? s.id = some s := by
  obtain ⟨p, -, parent⟩ := TransGen.tail'_iff.mp below
  exact (parentIn_eq_some keyed parent).2

omit acyclic in
theorem Below.transGen_names (found : t.get? r.id = some r) (below : r.Below t s) :
    TransGen (Names t) r.id s.id := by
  induction below with
  | single parent => exact .single ⟨r, found, (parentIn_eq_some keyed parent).1⟩
  | @tail p s below parent ih =>
    exact ih.tail ⟨p, Below.get?_eq_some keyed below, (parentIn_eq_some keyed parent).1⟩

theorem not_below_self : ¬ r.Below t r := fun below =>
  acyclic r.id (below.transGen_names keyed (below.get?_eq_some keyed))

omit acyclic in
/-- In a forest a lineage holds an id exactly if the id lies above. -/
theorem Forest.any_lineage_iff (forest : Forest t) (found : t.get? r.id = some r) {id : RegionId} :
    (r.lineage t).any (·.id == id) = true ↔ ReflTransGen (Names t) r.id id := by
  constructor
  · intro held
    obtain ⟨s, hs, same⟩ := List.any_eq_true.mp held
    obtain rfl := eq_of_beq same
    have above := (mem_lineage_iff keyed forest.acyclic (agrees_of_get? found)).mp hs
    rcases atOrBelow_iff.mp above with rfl | below
    · exact .refl
    · exact (below.transGen_names keyed found).to_reflTransGen
  · exact fun above => Classical.byContradiction fun absent =>
      forest.not_above keyed found (Bool.eq_false_of_not_eq_true absent) above

omit acyclic in
/-- In a forest a walk by ids comes to the ids of a lineage. -/
theorem Forest.reaches_eq_any_lineage (forest : Forest t) (found : t.get? r.id = some r)
    (id : RegionId) : reaches t r.id id = (r.lineage t).any (·.id == id) :=
  Bool.eq_iff_iff.mpr
    ((reaches_iff t r.id id).trans (forest.any_lineage_iff keyed found).symm)

/-- Of any regions one lies above no other. -/
theorem exists_lowest {l : List Region} (ne : l ≠ []) : ∃ w ∈ l, ∀ s ∈ l, ¬ s.Below t w := by
  let rel (r s : { r // r ∈ l }) : Prop := r.1.Below t s.1
  have : IsTrans { r // r ∈ l } rel := ⟨fun _ _ _ h h' => h.trans h'⟩
  have : Std.Irrefl rel := ⟨fun _ => not_below_self keyed acyclic⟩
  have : Finite { r // r ∈ l } := l.finite_toSet.to_subtype
  obtain ⟨r, hr⟩ := List.exists_mem_of_ne_nil l ne
  obtain ⟨w, -, lowest⟩ :=
    (Finite.wellFounded_of_trans_of_irrefl rel).has_min Set.univ ⟨⟨r, hr⟩, trivial⟩
  exact ⟨w.1, w.2, fun s hs => lowest ⟨s, hs⟩ trivial⟩

/-- An actor belongs to a region that lists it, or that lies below one that does. -/
theorem belongs_standing_iff (agrees : Agrees t r) (a : Actor) : (r.standing t a).belongs = true ↔
    ∃ s, r.AtOrBelow t s ∧ (s.owners.lists a = true ∨ s.members.lists a = true) := by
  have belongs : (r.standing t a).belongs =
      ((r.lineage t).any (·.owners.lists a) || (r.lineage t).any (·.members.lists a)) := by
    rw [standing_eq_ite]
    cases (r.lineage t).any (·.owners.lists a) <;>
      cases (r.lineage t).any (·.members.lists a) <;> rfl
  simp only [belongs, Bool.or_eq_true, List.any_eq_true, mem_lineage_iff keyed acyclic agrees,
    and_or_left, exists_or]

end Acyclic

/-! ## Candidates -/

/-- Regions as they may stand as the candidates of one place. -/
structure Lineup (t : RegionTable) (candidates : List Region) : Prop where
  keyed : Keyed t
  acyclic : ∀ id, ¬ TransGen (Names t) id id
  agrees : ∀ r ∈ candidates, Agrees t r
  distinct : (candidates.map (·.id)).Nodup

namespace Lineup

theorem sublist {l : List Region} (lineup : Lineup t candidates) (sub : l.Sublist candidates) :
    Lineup t l where
  keyed := lineup.keyed
  acyclic := lineup.acyclic
  agrees r hr := lineup.agrees r (sub.subset hr)
  distinct := lineup.distinct.sublist (sub.map _)

theorem perm {l : List Region} (lineup : Lineup t candidates) (perm : l.Perm candidates) :
    Lineup t l where
  keyed := lineup.keyed
  acyclic := lineup.acyclic
  agrees r hr := lineup.agrees r (perm.mem_iff.mp hr)
  distinct := (perm.map _).nodup_iff.mpr lineup.distinct

theorem nodup (lineup : Lineup t candidates) : candidates.Nodup := lineup.distinct.of_map

theorem fresh (lineup : Lineup t (candidates ++ [r])) : r.id ∉ candidates.map (·.id) := by
  have distinct := lineup.distinct
  rw [List.map_append] at distinct
  exact fun h => (List.nodup_append.mp distinct).2.2 _ h _ (List.mem_singleton_self _) rfl

/-- Among candidates an id tells which of them lie above. -/
theorem mem_map_id_ancestors (lineup : Lineup t candidates) (hr : r ∈ candidates)
    (hs : s ∈ candidates) : s.id ∈ (r.ancestors t).map (·.id) ↔ r.Below t s := by
  have above : ∀ {u}, u ∈ r.ancestors t ↔ r.Below t u :=
    mem_ancestors_iff lineup.keyed lineup.acyclic (lineup.agrees r hr)
  constructor
  · intro h
    obtain ⟨u, hu, same⟩ := List.mem_map.mp h
    have below := above.mp hu
    have found := below.get?_eq_some lineup.keyed
    obtain rfl := lineup.agrees s hs u (same ▸ found)
    exact below
  · exact fun below => List.mem_map.mpr ⟨s, above.mpr below, rfl⟩

end Lineup

end Enclave.Region
