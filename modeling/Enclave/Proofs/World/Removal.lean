import Enclave.Proofs.World.Territory

/-!
# What a removal takes along

Where the children of a region are to go with it, the whole household goes, and what is told of it
names parents before their children (`Territory.Reachable.removal`). Where they are to stay, the
region goes alone and only its children change. In both cases the regions that go are left out of
the table, of the index and of the list of those of the whole world, and nothing else is.

That nobody is missed is what `Atlas.Household` says. The order is an invariant of its own: what a
step of the walk notes are children of the region that it passes, and that one is listed before them.
-/

namespace Enclave

open Region (Names)

/-! ## The order -/

/-- Every listed region comes after its parent, but for the one that the list starts from. -/
def ParentsFirst (t : RegionTable) (start : RegionId) (ids : List RegionId) : Prop :=
  ∀ before child after, ids = before ++ child :: after → child ≠ start →
    ∃ parent ∈ before, Names t child parent

theorem parentsFirst_singleton (t : RegionTable) (id : RegionId) : ParentsFirst t id [id] := by
  intro before child after split other
  cases before with
  | nil => exact absurd (List.cons.inj split).1.symm other
  | cons _ before => exact absurd (List.cons.inj split).2 (by simp)

/-- Children of what is listed may follow. -/
theorem ParentsFirst.append {t : RegionTable} {start : RegionId} {ids fresh : List RegionId}
    (h : ParentsFirst t start ids) (below : ∀ child ∈ fresh, ∃ parent ∈ ids, Names t child parent) :
    ParentsFirst t start (ids ++ fresh) := by
  intro before child after split other
  -- Either the child is one of those that follow, or it was listed already.
  rcases List.append_eq_append_iff.mp split with ⟨more, hbefore, hfresh⟩ | ⟨more, hids, hafter⟩
  · obtain ⟨parent, hparent, names⟩ :=
      below child (hfresh ▸ List.mem_append_right more List.mem_cons_self)
    exact ⟨parent, hbefore ▸ List.mem_append_left more hparent, names⟩
  · cases more with
    | nil =>
      have hfresh : fresh = child :: after := hafter.symm
      obtain ⟨parent, hparent, names⟩ := below child (hfresh ▸ List.mem_cons_self)
      exact ⟨parent, by simpa [hids] using hparent, names⟩
    | cons first more =>
      obtain ⟨rfl, -⟩ := List.cons.inj hafter
      exact h before child more hids other

namespace Atlas

variable {a : Atlas}

/-- However many steps are taken, the list keeps its order. -/
theorem parentsFirst_addDescendants (keyed : Region.Keyed a.regions) {start : RegionId} :
    ∀ (steps : Nat) {done todo : List RegionId}, ParentsFirst a.regions start (done ++ todo) →
      ParentsFirst a.regions start (a.addDescendants steps done todo) := by
  intro steps
  induction steps with
  | zero => exact fun h => h
  | succ steps ih =>
    intro done todo h
    cases todo with
    | nil => exact List.append_nil done ▸ h
    | cons id todo =>
      rw [addDescendants]
      refine ih ?_
      rw [← List.append_assoc, List.append_assoc done [id] todo, List.singleton_append]
      refine h.append fun child fresh => ⟨id, List.mem_append_right done List.mem_cons_self, ?_⟩
      exact ((mem_fresh_iff keyed).mp fresh).1

theorem parentsFirst_household (keyed : Region.Keyed a.regions) (id : RegionId) :
    ParentsFirst a.regions id (a.household id) := by
  have start : ParentsFirst a.regions id ([] ++ [id]) := parentsFirst_singleton a.regions id
  exact parentsFirst_addDescendants keyed (a.size + 1) start

end Atlas

/-! ## The index -/

/-- What the leaves hold goes with what is recorded. -/
theorem RTree.Sound.entries_without {κ : Type} [Ord κ] [DecidableEq κ] {t t' : RTree κ} {ks : List κ}
    (sound : t.Sound) (sound' : t'.Sound) (boxes : t'.boxes = t.boxes.without ks) :
    t'.root.node.entries.Perm (t.root.node.entries.filter (·.item ∉ ks)) := by
  have records : t'.records = t.records.filter (·.item ∉ ks) := by
    rw [RTree.records, boxes, RTree.records, List.filter_map]
    rfl
  exact sound'.entries.trans (records ▸ (sound.entries.filter _).symm)

namespace Atlas

/-- The listed regions have gone from the index, from what is recorded as from the leaves, and from
the list of those of the whole world; no others have. -/
structure Forgets (a : Atlas) (ids : List RegionId) (a' : Atlas) : Prop where
  boxes : a'.index.boxes = a.index.boxes.without ids
  leaves : a'.index.root.node.entries.Perm (a.index.root.node.entries.filter (·.item ∉ ids))
  globals : a'.globals = a.globals.filter (· ∉ ids)

theorem Without.forgets {a a' : Atlas} {ids : List RegionId} (without : a.Without ids a')
    (inStep : a.InStep) (inStep' : a'.InStep) : a.Forgets ids a' :=
  ⟨without.boxes, inStep.indexed.sound.entries_without inStep'.indexed.sound without.boxes,
    without.globals⟩

end Atlas

/-! ## Removals -/

namespace Territory

variable {t : Territory} {id : RegionId}

/-- A region went with all that lies below it: they are named each once, the region first and parents
before their children, and every other region stays as it was. -/
structure Cascade (t : Territory) (id : RegionId) (ids : List RegionId) (next : Territory) :
    Prop where
  household : Atlas.Household t.atlas.regions id ids
  order : ParentsFirst t.atlas.regions id ids
  regions : next.atlas.regions = t.atlas.regions.without ids
  forgets : t.atlas.Forgets ids next.atlas

/-- A region went alone, and only those that named it as their parent are changed: they have none. -/
structure Orphaning (t : Territory) (id : RegionId) (next : Territory) : Prop where
  regions : Orphaned t.atlas.regions next.atlas.regions id
  forgets : t.atlas.Forgets [id] next.atlas

/-- What becomes of a region that is there when it is removed, whatever is to become of its
children. -/
structure Removal [Platform] (t : Territory) (id : RegionId) : Prop where
  remove : ∃ ids next, t.removeWith id .remove = (next, .ok ids) ∧ t.Cascade id ids next
  orphan : ∃ next, t.removeWith id .orphan = (next, .ok [id]) ∧ t.Orphaning id next

theorem exists_cascade [Platform] (consistent : t.atlas.Consistent)
    (known : t.atlas.contains id = true) :
    ∃ ids next, t.removeWith id .remove = (next, .ok ids) ∧ t.Cascade id ids next := by
  have household := Atlas.household_household consistent.keyed known
  have order := Atlas.parentsFirst_household consistent.keyed id
  obtain ⟨a, taken, consistent', -, without⟩ :=
    (consistent.ends_takeAll household known).exists_ok
  have forgets := without.forgets consistent.toInStep consistent'.toInStep
  obtain ⟨r, found⟩ := Table.contains_iff_get?.mp known
  have here : t.atlas.region id = .ok r := by
    rw [Atlas.region, show t.atlas.get? id = some r from found]
  refine ⟨t.atlas.household id, { t with atlas := a.succ }, ?_,
    household, order, without.regions, ⟨forgets.boxes, forgets.leaves, forgets.globals⟩⟩
  rw [removeWith, here]
  show t.commit (do return (_, ← t.atlas.takeAll (t.atlas.household id))) = _
  rw [taken]
  exact commit_eq_of_consistent consistent' _

theorem exists_orphaning [Platform] (consistent : t.atlas.Consistent)
    (known : t.atlas.contains id = true) :
    ∃ next, t.removeWith id .orphan = (next, .ok [id]) ∧ t.Orphaning id next := by
  obtain ⟨⟨r, a⟩, taken, -, revises⟩ := ((consistent.ends_take id).imp_refused fun e missing =>
    Bool.false_ne_true (missing.1.symm.trans known)).exists_ok
  obtain ⟨inStep, -, -, without⟩ := (consistent.toInStep.ends_take id).ok _ taken
  have forgets := without.forgets consistent.toInStep inStep
  refine ⟨{ t with atlas := (a.orphanChildrenOf id).succ }, ?_, ?_,
    ⟨forgets.boxes, forgets.leaves, forgets.globals⟩⟩
  · have removed : t.remove id = ({ t with atlas := (a.orphanChildrenOf id).succ }, .ok r) := by
      rw [remove, taken]
      exact commit_eq_of_consistent revises.toConsistent r
    rw [removeWith, removed]
    rfl
  · show Orphaned t.atlas.regions (a.orphanChildrenOf id).regions id
    exact revises.regions_eq ▸ Atlas.orphaned_erase t.atlas.regions id

/-- On a territory that can be reached, a region that is there can be removed with all that lies below
it, or alone. -/
theorem Reachable.removal [Platform] (h : t.Reachable)
    (known : t.atlas.contains id = true) : t.Removal id :=
  ⟨exists_cascade h.consistent known, exists_orphaning h.consistent known⟩

/-- A plot in the spawn region, which lies in the region of the whole world: all three go with the
last, in that order. -/
theorem removal_of_nested_regions : letI := Platform.reference
    ∃ t : Territory, t.atlas.contains .global = true ∧
    (t.removeWith .global .remove).2.toOption.map (·.map RegionId.text) =
      some ["__global__", "spawn", "plot"] ∧ t.Removal .global := by
  let := Platform.reference
  let spawn : RegionId := ⟨"spawn", by decide +kernel⟩
  have start : make {} .builtin = .ok ⟨{}, .builtin, .blank (.empty {})⟩ := rfl
  have reachable := (Reachable.make start).add .everywhere
  have reachable := reachable.add
    { id := spawn, shape := .cuboid ⟨⟨0, 0, 0⟩, ⟨4, 4, 4⟩⟩, parent := some .global }
  have reachable := reachable.add
    { id := ⟨"plot", by decide +kernel⟩
      shape := .cuboid ⟨⟨0, 0, 0⟩, ⟨2, 2, 2⟩⟩
      parent := some spawn }
  exact ⟨_, by decide +kernel, by decide +kernel, reachable.removal (by decide +kernel)⟩

end Territory

end Enclave
