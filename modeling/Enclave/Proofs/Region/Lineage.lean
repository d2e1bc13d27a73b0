import Mathlib.Data.List.Perm.Subperm
import Mathlib.Logic.Relation
import Enclave.Proofs.Region.Walk

/-!
# Parents form a forest

The parents that the regions of a table name form a forest where every parent is in the table and no
region lies below itself (`Region.Forest`). In a forest a lineage is the whole line of ancestors, up
to a region without a parent (`Region.line_lineage`): the walk never comes back to an id, since there
is no loop to come back by.

Walks by ids come to what lies above, in every table and whether they count their steps or remember
what they have met (`Region.reaches_iff`, `Region.isAtOrAbove_iff`). That is what is asked before a
parent is attached, and it is enough for the forest to stay one (`Region.Forest.attach`).
-/

namespace Enclave.Region

open Relation (ReflTransGen TransGen)

/-- Every region stands under its own id. -/
def Keyed (t : RegionTable) : Prop := ∀ id r, t.get? id = some r → r.id = id

/-- The region of the first id names the second as its parent. -/
def Names (t : RegionTable) (child parent : RegionId) : Prop :=
  ∃ r, t.get? child = some r ∧ r.parent = some parent

/-- Every parent is in the table, and following parents never comes back. -/
structure Forest (t : RegionTable) : Prop where
  parent_mem : ∀ {child parent}, Names t child parent → t.contains parent = true
  acyclic : ∀ id, ¬ TransGen (Names t) id id

variable {t t' : RegionTable} {r p : Region}

/-! ## Lines of ancestors -/

/-- A region, its parent, the parent of that, up to a region without a parent in the table. -/
inductive Line (t : RegionTable) : Region → List Region → Prop
  | root {r : Region} : r.parentIn t = none → Line t r [r]
  | step {r p : Region} {l : List Region} : r.parentIn t = some p → Line t p l → Line t r (r :: l)

theorem parentIn_eq_some (keyed : Keyed t) (h : r.parentIn t = some p) :
    r.parent = some p.id ∧ t.get? p.id = some p := by
  obtain ⟨id, parent, found⟩ := Option.bind_eq_some_iff.mp h
  rw [keyed id p found]
  exact ⟨parent, found⟩

/-- Regions that stand under their own ids are found in the order of their ids. -/
theorem Keyed.map_id_values (keyed : Keyed t) : t.values.map (·.id) = t.keys := by
  rw [Table.values, List.map_map]
  exact List.map_congr_left fun e he => keyed e.1 e.2 ((Table.get?_eq_some_iff t e.1 e.2).mpr he)

/-- Regions that stand under their own ids differ in their ids. -/
theorem Keyed.nodup_map_id_values (keyed : Keyed t) : (t.values.map (·.id)).Nodup :=
  keyed.map_id_values ▸ t.nodup_keys

/-- A list of different ids of a table is no longer than the table. -/
theorem length_le_size {ids : List RegionId} (nodup : ids.Nodup)
    (known : ∀ id ∈ ids, t.contains id = true) : ids.length ≤ t.size := by
  have subset : ids ⊆ t.keys := by
    intro id hid
    obtain ⟨r, hr⟩ := Table.contains_eq_true_iff.mp (known id hid)
    exact List.mem_map.mpr ⟨(id, r), hr, rfl⟩
  have count : t.keys.length = t.size := List.length_map _
  exact count ▸ (nodup.subperm subset).length_le

/-- The table has no other region of the region's id, whether it has the region itself or not. -/
def Agrees (t : RegionTable) (r : Region) : Prop := ∀ s, t.get? r.id = some s → s = r

theorem agrees_of_get? (hr : t.get? r.id = some r) : Agrees t r :=
  fun _ hs => Option.some.inj (hs.symm.trans hr)

/-- Where no chain of parents comes back, a walk goes on to the end of its line: of the ids it has
met, those that the table knows lie below where it stands. -/
theorem Walks.line (keyed : Keyed t) (acyclic : ∀ id, ¬ TransGen (Names t) id id)
    {seen : List RegionId} {next : Option Region} {l : List Region} (walks : Walks t seen next l) :
    ∀ r, next = some r → t.get? r.id = some r →
      (∀ id ∈ seen, t.contains id = true → TransGen (Names t) id r.id) → Line t r l := by
  induction walks with
  | missing => exact fun _ next => absurd next.symm (Option.some_ne_none _)
  | @met seen r old =>
    intro _ same hr below
    cases same
    exact absurd (below r.id old (Table.contains_iff_get?.mpr ⟨r, hr⟩)) (acyclic r.id)
  | @pass seen r l _ rest ih =>
    intro _ same hr below
    cases same
    cases hp : r.parentIn t with
    | none =>
      rw [hp] at rest
      cases rest
      exact .root hp
    | some p =>
      obtain ⟨parent, found⟩ := parentIn_eq_some keyed hp
      have edge : Names t r.id p.id := ⟨r, hr, parent⟩
      refine .step hp (ih p hp found fun id hid known => ?_)
      rcases List.mem_cons.mp hid with rfl | hid
      · exact .single edge
      · exact (below id hid known).tail edge

/-- Where no chain of parents comes back, a lineage is a whole line. -/
theorem line_lineage (keyed : Keyed t) (acyclic : ∀ id, ¬ TransGen (Names t) id id)
    (agrees : Agrees t r) : Line t r (r.lineage t) := by
  have walks := walks_lineage t r
  cases hr : t.get? r.id with
  | some s =>
    obtain rfl := agrees s hr
    exact walks.line keyed acyclic s rfl hr nofun
  | none =>
    -- The start is no region of the table, and nothing is known to lie above its id.
    generalize r.lineage t = l at walks
    cases walks with
    | met old => cases old
    | pass _ rest =>
      cases hp : r.parentIn t with
      | none =>
        rw [hp] at rest
        cases rest
        exact .root hp
      | some p =>
        refine .step hp (rest.line keyed acyclic p hp (parentIn_eq_some keyed hp).2 ?_)
        intro id hid known
        rw [List.mem_singleton.mp hid, Table.contains, hr] at known
        exact absurd known Bool.false_ne_true

/-- A line holds everything that lies above its start. -/
theorem Line.exists_mem (keyed : Keyed t) (forest : Forest t) {id : RegionId} {l : List Region}
    (line : Line t r l) (hr : t.get? r.id = some r) (above : ReflTransGen (Names t) r.id id) :
    ∃ s ∈ l, s.id = id := by
  induction line with
  | @root r orphan =>
    rcases above.cases_head with rfl | ⟨parent, edge, -⟩
    · exact ⟨r, List.mem_singleton_self r, rfl⟩
    · obtain ⟨p, hp⟩ := Table.contains_iff_get?.mp (forest.parent_mem edge)
      obtain ⟨s, hs, names⟩ := edge
      obtain rfl := Option.some.inj (hr.symm.trans hs)
      rw [parentIn, names, Option.bind_some, hp] at orphan
      exact absurd orphan (Option.some_ne_none p)
  | @step r p l hp _ ih =>
    obtain ⟨names, found⟩ := parentIn_eq_some keyed hp
    rcases above.cases_head with rfl | ⟨parent, ⟨s, hs, names'⟩, above⟩
    · exact ⟨r, List.mem_cons_self, rfl⟩
    · obtain rfl := Option.some.inj (hr.symm.trans hs)
      obtain rfl := Option.some.inj (names.symm.trans names')
      obtain ⟨s, hs, rfl⟩ := ih found above
      exact ⟨s, List.mem_cons_of_mem r hs, rfl⟩

/-- What a lineage does not hold does not lie above its start. -/
theorem Forest.not_above (forest : Forest t) (keyed : Keyed t) {id : RegionId}
    (hr : t.get? r.id = some r) (absent : (r.lineage t).any (·.id == id) = false) :
    ¬ ReflTransGen (Names t) r.id id := by
  intro above
  have line := line_lineage keyed forest.acyclic (agrees_of_get? hr)
  obtain ⟨s, hs, rfl⟩ := line.exists_mem keyed forest hr above
  exact List.any_eq_false.mp absent s hs BEq.rfl

/-! ## Walks by ids -/

section Ids

variable {seen : List RegionId} {id parent target : RegionId}

theorem names_iff : Names t id parent ↔ parentOf? t id = some parent := by
  rw [Names, parentOf?, Option.bind_eq_some_iff]

theorem contains_of_names (edge : Names t id parent) : t.contains id = true :=
  have ⟨r, found, _⟩ := edge
  Table.contains_iff_get?.mpr ⟨r, found⟩

/-- An id names one parent at most, so whatever else lies above it lies above that. -/
theorem reflTransGen_iff_of_names (edge : Names t id parent) (other : id ≠ target) :
    ReflTransGen (Names t) id target ↔ ReflTransGen (Names t) parent target := by
  refine ⟨fun above => ?_, .head edge⟩
  rcases above.cases_head with same | ⟨parent', edge', above⟩
  · exact absurd same other
  · obtain rfl := Option.some.inj ((names_iff.mp edge).symm.trans (names_iff.mp edge'))
    exact above

theorem not_reflTransGen_of_parentOf? (orphan : parentOf? t id = none) (other : id ≠ target) :
    ¬ ReflTransGen (Names t) id target := by
  intro above
  rcases above.cases_head with same | ⟨parent, edge, -⟩
  · exact other same
  · exact Option.some_ne_none parent ((names_iff.mp edge).symm.trans orphan)

/-- The ids in `seen` have been passed on the way to `id`: each once, each in the table, and from
each of them the walk went on to its parent. -/
structure Trail (t : RegionTable) (seen : List RegionId) (id : RegionId) : Prop where
  nodup : seen.Nodup
  known : ∀ s ∈ seen, t.contains s = true
  goes_on : ∀ s ∈ seen, ∀ parent, Names t s parent → parent = id ∨ parent ∈ seen
  below : ∀ s ∈ seen, TransGen (Names t) s id

namespace Trail

theorem start (t : RegionTable) (id : RegionId) : Trail t [] id := ⟨.nil, nofun, nofun, nofun⟩

theorem pass (trail : Trail t seen id) (fresh : id ∉ seen) (edge : Names t id parent) :
    Trail t (id :: seen) parent where
  nodup := List.nodup_cons.mpr ⟨fresh, trail.nodup⟩
  known := List.forall_mem_cons.mpr ⟨contains_of_names edge, trail.known⟩
  goes_on := by
    refine List.forall_mem_cons.mpr ⟨fun parent' edge' => ?_, fun s hs parent' edge' => ?_⟩
    · exact .inl (Option.some.inj ((names_iff.mp edge').symm.trans (names_iff.mp edge)))
    · exact .inr (List.mem_cons.mpr (trail.goes_on s hs parent' edge'))
  below := List.forall_mem_cons.mpr ⟨.single edge, fun s hs => (trail.below s hs).tail edge⟩

theorem length_le (trail : Trail t seen id) : seen.length ≤ t.size :=
  length_le_size trail.nodup trail.known

/-- What lies above an id that was passed was passed. -/
theorem mem_of_above (trail : Trail t seen id) (met : id ∈ seen)
    (above : ReflTransGen (Names t) id target) : target ∈ seen := by
  induction above with
  | refl => exact met
  | tail _ edge ih => exact (trail.goes_on _ ih _ edge).elim (· ▸ met) fun passed => passed

end Trail

/-- A step passes an id, so steps that were enough for the ids not yet passed still are. -/
theorem lt_length_cons_add {size steps : Nat} (enough : size < seen.length + (steps + 1)) :
    size < (id :: seen).length + steps := by
  rw [List.length_cons]
  omega

theorem above_of_reachesWithin : ∀ {steps : Nat} {id : RegionId},
    reachesWithin t target steps id = true → ReflTransGen (Names t) id target := by
  intro steps
  induction steps with
  | zero =>
    intro id here
    exact eq_of_beq here ▸ .refl
  | succ steps ih =>
    intro id reached
    rcases Bool.or_eq_true_iff.mp reached with here | there
    · exact eq_of_beq here ▸ .refl
    · obtain ⟨parent, edge, reached⟩ := (Option.any_eq_true ..).mp there
      exact .head (names_iff.mpr edge) (ih reached)

/-- A walk finds what lies above, if it has a step for each id of the table not yet passed. -/
theorem Trail.reachesWithin_of_above : ∀ {steps : Nat} {seen : List RegionId} {id : RegionId},
    Trail t seen id → target ∉ seen → t.size < seen.length + (steps + 1) →
      ReflTransGen (Names t) id target → reachesWithin t target steps id = true := by
  intro steps
  induction steps with
  | zero =>
    intro seen id trail missed enough above
    by_cases here : id = target
    · exact beq_iff_eq.mpr here
    · obtain ⟨parent, edge, -⟩ := above.cases_head.resolve_left here
      have fresh : id ∉ seen := fun met => missed (trail.mem_of_above met above)
      have more := (trail.pass fresh edge).length_le
      rw [List.length_cons] at more
      omega
  | succ steps ih =>
    intro seen id trail missed enough above
    by_cases here : id = target
    · exact Bool.or_eq_true_iff.mpr (.inl (beq_iff_eq.mpr here))
    · obtain ⟨parent, edge, above'⟩ := above.cases_head.resolve_left here
      have fresh : id ∉ seen := fun met => missed (trail.mem_of_above met above)
      have missed' : target ∉ id :: seen := List.not_mem_cons_of_ne_of_not_mem (Ne.symm here) missed
      have reached := ih (trail.pass fresh edge) missed' (lt_length_cons_add enough) above'
      refine Bool.or_eq_true_iff.mpr (.inr ((Option.any_eq_true ..).mpr ?_))
      exact ⟨parent, names_iff.mp edge, reached⟩

/-- In every table a walk that counts its steps comes to what lies above, and to nothing else. -/
theorem reaches_iff (t : RegionTable) (id target : RegionId) :
    reaches t id target = true ↔ ReflTransGen (Names t) id target :=
  ⟨above_of_reachesWithin,
    (Trail.start t id).reachesWithin_of_above List.not_mem_nil (by simp)⟩

theorem Trail.comesTo_iff : ∀ {steps : Nat} {seen : List RegionId} {id : RegionId},
    Trail t seen id → target ∉ seen → t.size < seen.length + steps →
      (comesTo t target steps seen id = true ↔ ReflTransGen (Names t) id target) := by
  intro steps
  induction steps with
  | zero =>
    intro seen id trail _ enough
    have := trail.length_le
    omega
  | succ steps ih =>
    intro seen id trail missed enough
    by_cases here : id = target
    · subst here
      exact iff_of_true (by simp [comesTo]) .refl
    rw [comesTo, beq_false_of_ne here, Bool.false_or, Bool.and_eq_true]
    by_cases met : id ∈ seen
    · exact iff_of_false (by simp [met]) fun above => missed (trail.mem_of_above met above)
    cases named : parentOf? t id with
    | none => exact iff_of_false (by simp) (not_reflTransGen_of_parentOf? named here)
    | some parent =>
      have edge := names_iff.mpr named
      have missed' : target ∉ id :: seen := List.not_mem_cons_of_ne_of_not_mem (Ne.symm here) missed
      have goes := ih (trail.pass met edge) missed' (lt_length_cons_add enough)
      rw [reflTransGen_iff_of_names edge here, ← goes]
      simp [met]

/-- So does a walk that remembers what it has met. -/
theorem isAtOrAbove_iff (t : RegionTable) (target id : RegionId) :
    isAtOrAbove t target id = true ↔ ReflTransGen (Names t) id target :=
  (Trail.start t id).comesTo_iff List.not_mem_nil (by simp)

theorem Trail.metTwice?_eq_none_iff : ∀ {steps : Nat} {seen : List RegionId} {id : RegionId},
    Trail t seen id → t.size < seen.length + steps →
      (metTwice? t steps seen id = none ↔
        ∀ above, ReflTransGen (Names t) id above → ¬ TransGen (Names t) above above) := by
  intro steps
  induction steps with
  | zero =>
    intro seen id trail enough
    have := trail.length_le
    omega
  | succ steps ih =>
    intro seen id trail enough
    rw [metTwice?]
    by_cases met : id ∈ seen
    · rw [if_pos (List.contains_iff_mem.mpr met)]
      exact iff_of_false nofun fun acyclic => acyclic id .refl (trail.below id met)
    rw [if_neg (by simpa using met)]
    cases named : parentOf? t id with
    | none =>
      refine iff_of_true rfl fun above path loop => ?_
      obtain rfl : id = above := Classical.byContradiction fun other =>
        not_reflTransGen_of_parentOf? named other path
      obtain ⟨parent, edge, -⟩ := TransGen.head'_iff.mp loop
      exact Option.some_ne_none parent ((names_iff.mp edge).symm.trans named)
    | some parent =>
      have edge := names_iff.mpr named
      rw [Option.bind_some, ih (trail.pass met edge) (lt_length_cons_add enough)]
      refine ⟨fun acyclic above path loop => ?_,
        fun acyclic above path => acyclic above (.head edge path)⟩
      by_cases here : id = above
      · subst here
        obtain ⟨parent', edge', back⟩ := TransGen.head'_iff.mp loop
        obtain rfl := Option.some.inj ((names_iff.mp edge').symm.trans named)
        exact acyclic id back loop
      · exact acyclic above ((reflTransGen_iff_of_names edge here).mp path) loop

/-- In every table a walk comes round exactly if a cycle lies above its start. -/
theorem cycleFrom?_eq_none_iff (t : RegionTable) (id : RegionId) : cycleFrom? t id = none ↔
    ∀ above, ReflTransGen (Names t) id above → ¬ TransGen (Names t) above above :=
  (Trail.start t id).metTwice?_eq_none_iff (by simp)

/-- The two kinds of walk that look for an id come to the same. -/
theorem isAtOrAbove_eq_reaches (t : RegionTable) (target id : RegionId) :
    isAtOrAbove t target id = reaches t id target :=
  Bool.eq_iff_iff.mpr ((isAtOrAbove_iff t target id).trans (reaches_iff t id target).symm)

theorem Forest.cycleFrom?_eq_none (forest : Forest t) (id : RegionId) : cycleFrom? t id = none :=
  (cycleFrom?_eq_none_iff t id).mpr fun above _ => forest.acyclic above

end Ids

/-! ## Changes that keep a forest -/

theorem forest_of_forall_not_names (h : ∀ child parent, ¬ Names t child parent) : Forest t where
  parent_mem edge := absurd edge (h _ _)
  acyclic id loop := by
    obtain ⟨parent, edge, -⟩ := TransGen.head'_iff.mp loop
    exact h id parent edge

/-- A table that names no parents but those named before has a forest, if it still has them. -/
theorem Forest.mono (forest : Forest t)
    (fewer : ∀ child parent, Names t' child parent →
      Names t child parent ∧ t'.contains parent = true) : Forest t' where
  parent_mem edge := (fewer _ _ edge).2
  acyclic id loop :=
    forest.acyclic id
      (TransGen.mono (fun child parent edge => (fewer child parent edge).1) _ _ loop)

theorem names_insert_iff {k child parent : RegionId} : Names (t.insert k r) child parent ↔
    (child = k ∧ r.parent = some parent) ∨ (child ≠ k ∧ Names t child parent) := by
  by_cases h : child = k
  · subst h
    simp [Names, Table.get?_insert_self]
  · simp [Names, Table.get?_insert_of_ne h, h]

/-- A region may take the place of one that named the same parent, or may name none. -/
theorem Forest.replace (forest : Forest t) {k : RegionId} {before : Region}
    (found : t.get? k = some before)
    (names : ∀ parent, r.parent = some parent → before.parent = some parent) :
    Forest (t.insert k r) := by
  refine forest.mono ?_
  intro child parent edge
  have old : Names t child parent := by
    rcases names_insert_iff.mp edge with ⟨rfl, named⟩ | ⟨-, old⟩
    · exact ⟨before, found, names parent named⟩
    · exact old
  exact ⟨old, Table.contains_insert_iff.mpr (.inr (forest.parent_mem old))⟩

/-- A new region has no children yet, so nothing below it can lie above it. -/
theorem Forest.insert (forest : Forest t) {k : RegionId} (fresh : t.contains k = false)
    (known : ∀ parent, r.parent = some parent → t.contains parent = true) :
    Forest (t.insert k r) := by
  have childless : ∀ {child parent}, Names (t.insert k r) child parent →
      t.contains parent = true ∧ parent ≠ k := fun {child parent} edge => by
    have mem : t.contains parent = true := by
      rcases names_insert_iff.mp edge with ⟨-, names⟩ | ⟨-, edge⟩
      · exact known parent names
      · exact forest.parent_mem edge
    refine ⟨mem, ?_⟩
    rintro rfl
    exact Bool.false_ne_true (fresh.symm.trans mem)
  have before : ∀ {child id}, TransGen (Names (t.insert k r)) child id → child ≠ k →
      TransGen (Names t) child id := fun {child id} path ne => by
    induction path with
    | single edge =>
      exact .single ((names_insert_iff.mp edge).resolve_left fun h => ne h.1).2
    | @tail b c path edge ih =>
      obtain ⟨_, _, edge'⟩ := TransGen.tail'_iff.mp path
      exact ih.tail ((names_insert_iff.mp edge).resolve_left fun h => (childless edge').2 h.1).2
  constructor
  · intro child parent edge
    exact Table.contains_insert_iff.mpr (.inr (childless edge).1)
  · intro id loop
    obtain ⟨child, -, edge⟩ := TransGen.tail'_iff.mp loop
    exact forest.acyclic id (before loop (childless edge).2)

/-- A parent that does not lie below the region may be attached to it. -/
theorem Forest.attach (forest : Forest t) {k parent : RegionId}
    (known : t.contains parent = true) (names : r.parent = some parent)
    (notAbove : ¬ ReflTransGen (Names t) parent k) : Forest (t.insert k r) := by
  -- A path that uses the new edge comes to the region, and goes on from the parent.
  have through : ∀ {id id'}, TransGen (Names (t.insert k r)) id id' →
      TransGen (Names t) id id' ∨
        (ReflTransGen (Names t) id k ∧ ReflTransGen (Names t) parent id') :=
    fun {id id'} path => by
    induction path with
    | single edge =>
      rcases names_insert_iff.mp edge with ⟨rfl, names'⟩ | ⟨-, edge⟩
      · obtain rfl := Option.some.inj (names.symm.trans names')
        exact .inr ⟨.refl, .refl⟩
      · exact .inl (.single edge)
    | tail _ edge ih =>
      rcases names_insert_iff.mp edge with ⟨rfl, names'⟩ | ⟨-, edge⟩
      · obtain rfl := Option.some.inj (names.symm.trans names')
        rcases ih with path | ⟨-, back⟩
        · exact .inr ⟨path.to_reflTransGen, .refl⟩
        · exact absurd back notAbove
      · exact ih.imp (·.tail edge) fun ⟨down, up⟩ => ⟨down, up.tail edge⟩
  constructor
  · intro child id edge
    refine Table.contains_insert_iff.mpr (.inr ?_)
    rcases names_insert_iff.mp edge with ⟨-, names'⟩ | ⟨-, edge⟩
    · obtain rfl := Option.some.inj (names.symm.trans names')
      exact known
    · exact forest.parent_mem edge
  · intro id loop
    rcases through loop with loop | ⟨down, up⟩
    · exact forest.acyclic id loop
    · exact notAbove (up.trans down)

end Enclave.Region
