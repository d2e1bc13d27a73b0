import Enclave.Proofs.Geometry.Shape
import Enclave.Proofs.Index.Tree
import Enclave.Proofs.Region.Lineage
import Enclave.Proofs.Region.Precedence
import Enclave.World.Atlas

/-!
# Index and list stay in step with the table

What an atlas keeps beside its table is in step with the table when the index holds the regions that
have a box (`Indexed`) and the list names the others, in order of precedence (`Listed`). Each change
of an atlas keeps them in step (`Atlas.InStep`), one region at a time: the index is told of regions
that have a box and the list of those that do not.

Parents are not looked at here. A change may leave a parent dangling that the next one provides for.
-/

namespace Enclave

open Region (Keyed Precedes)

variable {t t' : RegionTable} {r s : Region} {id : RegionId}

theorem Refusal.ofIndex_eq_ok_iff {α : Type} {x : Except IndexFault α} {y : α} :
    Refusal.ofIndex x = .ok y ↔ x = .ok y := by
  cases x <;> simp [Refusal.ofIndex]

/-! ## The index -/

/-- Indexed are the regions that have a box, by that box. -/
structure Indexed (t : RegionTable) (index : RTree RegionId) : Prop where
  sound : index.Sound
  get?_beq : ∀ id, (index.get? id == (t.get? id).bind Region.bounds?) = true

namespace Indexed

variable {index index' : RTree RegionId}

theorem congr (indexed : Indexed t index)
    (same : ∀ id, ((t.get? id).bind Region.bounds? == (t'.get? id).bind Region.bounds?) = true) :
    Indexed t' index :=
  ⟨indexed.sound, fun id => BEq.trans (indexed.get?_beq id) (same id)⟩

/-- Indexed boxes are valid, so they equal themselves. -/
theorem beq_self (indexed : Indexed t index) (id : RegionId) :
    ((t.get? id).bind Region.bounds? == (t.get? id).bind Region.bounds?) = true :=
  BEq.trans (BEq.symm (indexed.get?_beq id)) (indexed.get?_beq id)

/-- The index keeps up with a table that changes at one id. -/
theorem of_forall_ne (indexed : Indexed t index) (id : RegionId) (sound : index'.Sound)
    (here : (index'.get? id == (t'.get? id).bind Region.bounds?) = true)
    (there : ∀ id', id' ≠ id → index'.get? id' = index.get? id' ∧ t'.get? id' = t.get? id') :
    Indexed t' index' where
  sound := sound
  get?_beq id' := by
    by_cases h : id' = id
    · exact h ▸ here
    · rw [(there id' h).1, (there id' h).2]
      exact indexed.get?_beq id'

theorem get?_eq_none (indexed : Indexed t index) (h : (t.get? id).bind Region.bounds? = none) :
    index.get? id = none := by
  have := indexed.get?_beq id
  rw [h] at this
  cases hi : index.get? id with
  | none => rfl
  | some b => rw [hi] at this; cases this

theorem insert_some [Platform] (indexed : Indexed t index) {b : Box Float} (hb : r.bounds? = some b)
    (h : index.insert r.id b = .ok index') : Indexed (t.insert r.id r) index' := by
  have sound := indexed.sound.insert h
  obtain ⟨valid, -, rfl⟩ := RTree.insert_eq_ok_iff.mp h
  refine indexed.of_forall_ne r.id sound ?_ fun id' ne => ⟨?_, Table.get?_insert_of_ne ne⟩
  · have self := Box.within_self_of_isValid valid
    rw [Table.get?_insert_self, Option.bind_some, hb, RTree.get?_rebuilt, Table.get?_insert_self]
    exact self.antisymm self
  · exact Table.get?_insert_of_ne ne

theorem insert_none (indexed : Indexed t index) (hb : r.bounds? = none)
    (fresh : (t.get? r.id).bind Region.bounds? = none) : Indexed (t.insert r.id r) index := by
  refine indexed.of_forall_ne r.id indexed.sound ?_
    fun id' ne => ⟨rfl, Table.get?_insert_of_ne ne⟩
  rw [Table.get?_insert_self, Option.bind_some, hb, indexed.get?_eq_none fresh]
  rfl

theorem erase_some [Platform] (indexed : Indexed t index) {b : Box Float}
    (h : index.remove id = .ok (b, index')) : Indexed (t.erase id) index' := by
  have sound := indexed.sound.remove h
  obtain ⟨-, rfl⟩ := indexed.sound.remove_eq_ok_iff.mp h
  refine indexed.of_forall_ne id sound ?_
    fun id' ne => ⟨Table.get?_erase_of_ne ne, Table.get?_erase_of_ne ne⟩
  rw [Table.get?_erase_self, RTree.get?_rebuilt, Table.get?_erase_self]
  rfl

theorem erase_none (indexed : Indexed t index) (h : (t.get? id).bind Region.bounds? = none) :
    Indexed (t.erase id) index := by
  refine indexed.of_forall_ne id indexed.sound ?_
    fun id' ne => ⟨rfl, Table.get?_erase_of_ne ne⟩
  rw [Table.get?_erase_self, indexed.get?_eq_none h]
  rfl

/-- The index takes the box of a sound shape under a new key. -/
theorem exists_insert_eq_ok [Platform] (indexed : Indexed t index) {b : Box Float}
    (fresh : (t.get? r.id).bind Region.bounds? = none) (sound : r.shape.fault? = none)
    (hb : r.bounds? = some b) : ∃ index', index.insert r.id b = .ok index' := by
  have unrecorded : index.contains r.id = false :=
    congrArg Option.isSome (indexed.get?_eq_none fresh)
  exact ⟨_, RTree.insert_eq_ok_iff.mpr ⟨Shape.isValid_bounds? sound hb, unrecorded, rfl⟩⟩

/-- Every region has a box in the index that is not of the whole world. -/
theorem exists_get?_eq_some (indexed : Indexed t index) (found : t.get? id = some r)
    (bounded : r.isGlobal = false) : ∃ b, index.get? id = some b := by
  have recorded := indexed.get?_beq id
  rw [found, Option.bind_some] at recorded
  cases hi : index.get? id with
  | some b => exact ⟨b, rfl⟩
  | none =>
    cases hb : r.bounds? with
    | none =>
      exact absurd (bounded.symm.trans (Shape.bounds?_eq_none_iff.mp hb)) Bool.false_ne_true
    | some b =>
      rw [hi, hb] at recorded
      cases recorded

end Indexed

/-! ## The list -/

/-- Listed are the regions of the whole world, each once and in order of precedence. -/
structure Listed (t : RegionTable) (globals : List RegionId) : Prop where
  nodup : globals.Nodup
  mem_iff : ∀ id, id ∈ globals ↔ ∃ r, t.get? id = some r ∧ r.isGlobal = true
  sorted : globals.Pairwise fun a b =>
    ∀ r s, t.get? a = some r → t.get? b = some s → r.Precedes s

/-- The order of what is found under ids; where nothing is found comes first. -/
def foundInOrder : Option Region → Option Region → Bool
  | some r, some s => (r.comparePrecedence s).isLE
  | none, _ => true
  | some _, none => false

theorem pairwise_mergeSort_foundInOrder (l : List (Option Region)) :
    (l.mergeSort foundInOrder).Pairwise (foundInOrder · ·) := by
  apply List.pairwise_mergeSort
  · rintro (_ | r) (_ | s) (_ | u) h h' <;> first | rfl | contradiction | skip
    exact Precedes.trans h h'
  · rintro (_ | r) (_ | s) <;> first | rfl | skip
    exact Bool.or_eq_true_iff.mpr (Region.precedes_total r s)

/-- Sorting brings a list of the right ids in order. -/
theorem listed_sortGlobals {ids : List RegionId} (nodup : ids.Nodup)
    (mem_iff : ∀ id, id ∈ ids ↔ ∃ r, t.get? id = some r ∧ r.isGlobal = true) :
    Listed t (Atlas.sortGlobals t ids) where
  nodup := (List.mergeSort_perm ids _).nodup_iff.mpr nodup
  mem_iff id := List.mem_mergeSort.trans (mem_iff id)
  sorted := by
    have found : (Atlas.sortGlobals t ids).map t.get? = (ids.map t.get?).mergeSort foundInOrder :=
      List.map_mergeSort fun a ha b hb => by
        obtain ⟨r, hr, -⟩ := (mem_iff a).mp ha
        obtain ⟨s, hs, -⟩ := (mem_iff b).mp hb
        simp only [hr, hs, foundInOrder]
    have sorted := pairwise_mergeSort_foundInOrder (ids.map t.get?)
    rw [← found, List.pairwise_map] at sorted
    refine sorted.imp ?_
    intro a b h r s hr hs
    rw [hr, hs] at h
    exact h

namespace Listed

variable {globals : List RegionId}

/-- A new region of the whole world is added to the list; any other is not. -/
theorem insert (listed : Listed t globals) (fresh : t.get? r.id = none) :
    Listed (t.insert r.id r) (Atlas.sortGlobals (t.insert r.id r)
      (if r.isGlobal then globals ++ [r.id] else globals)) := by
  have unlisted : r.id ∉ globals := by
    intro h
    obtain ⟨s, hs, -⟩ := (listed.mem_iff r.id).mp h
    exact Option.some_ne_none s (hs.symm.trans fresh)
  have others : ∀ id, id ≠ r.id →
      (id ∈ globals ↔ ∃ s, (t.insert r.id r).get? id = some s ∧ s.isGlobal = true) :=
    fun id ne => by rw [Table.get?_insert_of_ne ne, listed.mem_iff]
  cases global : r.isGlobal with
  | true =>
    have nodup : (globals ++ [r.id]).Nodup :=
      List.concat_eq_append ▸ listed.nodup.concat unlisted
    refine listed_sortGlobals nodup ?_
    intro id
    by_cases h : id = r.id
    · subst h
      simp [Table.get?_insert_self, global]
    · simp [others id h, h]
  | false =>
    refine listed_sortGlobals listed.nodup ?_
    intro id
    by_cases h : id = r.id
    · subst h
      simp [Table.get?_insert_self, global, unlisted]
    · exact others id h

/-- The list keeps up with a table that loses a region. -/
theorem erase (listed : Listed t globals) (id : RegionId) :
    Listed (t.erase id) (globals.filter (· ≠ id)) where
  nodup := listed.nodup.filter _
  mem_iff id' := by
    by_cases h : id' = id
    · subst h
      simp [Table.get?_erase_self]
    · simp [Table.get?_erase_of_ne h, h, listed.mem_iff]
  sorted := (listed.sorted.filter _).imp fun h r s hr hs =>
    h r s (Table.get?_of_get?_erase hr) (Table.get?_of_get?_erase hs)

/-- The list keeps up with a region that takes the place of another of the same kind. -/
theorem replace (listed : Listed t globals) {before : Region} (found : t.get? r.id = some before)
    (same : before.isGlobal = r.isGlobal) : Listed (t.insert r.id r)
      (if r.isGlobal then Atlas.sortGlobals (t.insert r.id r) globals else globals) := by
  have mem_iff : ∀ id, id ∈ globals ↔
      ∃ s, (t.insert r.id r).get? id = some s ∧ s.isGlobal = true := by
    intro id
    rw [listed.mem_iff]
    by_cases h : id = r.id
    · subst h
      simp [Table.get?_insert_self, found, same]
    · rw [Table.get?_insert_of_ne h]
  cases global : r.isGlobal with
  | true => exact listed_sortGlobals listed.nodup mem_iff
  | false =>
    have elsewhere : ∀ id ∈ globals, (t.insert r.id r).get? id = t.get? id := by
      intro id hid
      refine Table.get?_insert_of_ne ?_
      rintro rfl
      obtain ⟨s, hs, global'⟩ := (mem_iff r.id).mp hid
      obtain rfl := Option.some.inj (Table.get?_insert_self.symm.trans hs)
      exact Bool.false_ne_true (global.symm.trans global')
    refine ⟨listed.nodup, mem_iff, listed.sorted.imp_of_mem ?_⟩
    intro a b ha hb h r s hr hs
    rw [elsewhere _ ha] at hr
    rw [elsewhere _ hb] at hs
    exact h r s hr hs

/-- The list does not depend on what leaves the kinds and the precedence of the regions as they
are. -/
theorem mapValues (listed : Listed t globals) {g : Region → Region}
    (kind : ∀ r, (g r).isGlobal = r.isGlobal)
    (level : ∀ r s, (g r).comparePrecedence (g s) = r.comparePrecedence s) :
    Listed (t.mapValues fun _ => g) globals where
  nodup := listed.nodup
  mem_iff id := by simp [listed.mem_iff, Table.get?_mapValues, kind]
  sorted := listed.sorted.imp fun h r s hr hs => by
    rw [Table.get?_mapValues] at hr hs
    obtain ⟨r, found, rfl⟩ := Option.map_eq_some_iff.mp hr
    obtain ⟨s, found', rfl⟩ := Option.map_eq_some_iff.mp hs
    rw [Precedes, level]
    exact h r s found found'

end Listed

/-! ## Atlases -/

namespace Atlas

/-- Every region stands under its own id, and the index and the list are in step with the table. -/
structure InStep (a : Atlas) : Prop where
  keyed : Keyed a.regions
  indexed : Indexed a.regions a.index
  listed : Listed a.regions a.globals

variable {a a' : Atlas}

theorem inStep_blank {index : RTree RegionId} (sound : index.Sound) (empty : index.boxes = ∅) :
    (blank index).InStep where
  keyed _ _ h := by cases h
  indexed := ⟨sound, fun id => by
    show (index.boxes.get? id == none) = true
    rw [empty]
    rfl⟩
  listed :=
    ⟨.nil, fun id => ⟨fun h => absurd h List.not_mem_nil, fun ⟨_, h, _⟩ => by cases h⟩, .nil⟩

theorem keyed_insert (keyed : Keyed t) : Keyed (t.insert r.id r) := by
  intro id s hs
  by_cases h : id = r.id
  · subst h
    rw [Table.get?_insert_self] at hs
    cases hs
    rfl
  · exact keyed id s (Table.get?_insert_of_ne h ▸ hs)

/-- A region of a new id is entered, and a sound shape is never refused. -/
theorem InStep.ends_insert [Platform] (inStep : a.InStep) (fresh : a.get? r.id = none) :
    Ends (a.insert r)
      (fun a' => a'.InStep ∧ a'.generation = a.generation ∧ a'.regions = a.regions.insert r.id r)
      fun _ => r.shape.fault? ≠ none := by
  have listed := inStep.listed.insert fresh
  have boxless : (a.regions.get? r.id).bind Region.bounds? = none :=
    congrArg (Option.bind · Region.bounds?) fresh
  rw [Atlas.insert]
  cases hb : r.bounds? with
  | some b =>
    have recorded : Ends (Refusal.ofIndex (a.index.insert r.id b))
        (fun index => a.index.insert r.id b = .ok index) fun _ => r.shape.fault? ≠ none := by
      refine ⟨fun _ => Refusal.ofIndex_eq_ok_iff.mp, fun e refused sound => ?_⟩
      obtain ⟨index, inserted⟩ := inStep.indexed.exists_insert_eq_ok boxless sound hb
      exact nomatch refused.symm.trans (Refusal.ofIndex_eq_ok_iff.mpr inserted)
    refine recorded.bind fun index inserted => .pure ?_
    exact ⟨⟨keyed_insert inStep.keyed, inStep.indexed.insert_some hb inserted, listed⟩, rfl, rfl⟩
  | none =>
    have indexed := inStep.indexed.insert_none hb boxless
    exact .pure ⟨⟨keyed_insert inStep.keyed, indexed, listed⟩, rfl, rfl⟩

/-- The refusal says that there is no region of the id. -/
def Missing (a : Atlas) (id : RegionId) (e : Refusal) : Prop :=
  a.contains id = false ∧ e = .notFound id

theorem ends_region (a : Atlas) (id : RegionId) :
    Ends (a.region id) (fun r => a.get? id = some r) (a.Missing id) := by
  rw [region]
  cases found : a.get? id with
  | some r => exact .pure rfl
  | none => exact .throw ⟨congrArg Option.isSome found, rfl⟩

/-- The listed regions are left out of the table, the index and the list, and no others are. -/
structure Without (a : Atlas) (ids : List RegionId) (a' : Atlas) : Prop where
  regions : a'.regions = a.regions.without ids
  boxes : a'.index.boxes = a.index.boxes.without ids
  globals : a'.globals = a.globals.filter (· ∉ ids)

namespace Without

variable {a'' : Atlas} {ids ids' : List RegionId}

theorem refl (a : Atlas) : a.Without [] a :=
  ⟨Table.without_nil.symm, Table.without_nil.symm, by simp⟩

theorem trans (h : a.Without ids a') (h' : a'.Without ids' a'') : a.Without (ids ++ ids') a'' where
  regions := by rw [h'.regions, h.regions, Table.without_without]
  boxes := by rw [h'.boxes, h.boxes, Table.without_without]
  globals := by
    simp only [h'.globals, h.globals, List.filter_filter, List.mem_append, not_or, Bool.decide_and,
      Bool.and_comm]

theorem get?_eq (h : a.Without ids a') (id : RegionId) :
    a'.get? id = if id ∈ ids then none else a.get? id := by
  rw [get?, h.regions, Table.get?_without, get?]

theorem regions_eq_erase (h : a.Without [id] a') : a'.regions = a.regions.erase id :=
  h.regions.trans Table.without_singleton

end Without

/-- What is taken out was there, and the rest stays. The index has what it is asked for. -/
theorem InStep.ends_take [Platform] (inStep : a.InStep) (id : RegionId) :
    Ends (a.take id)
      (fun x => x.2.InStep ∧ x.2.generation = a.generation ∧ a.get? id = some x.1 ∧
        a.Without [id] x.2)
      (a.Missing id) := by
  refine (a.ends_region id).bind fun r found => ?_
  have keyed : Keyed (a.regions.erase id) := fun id' s hs =>
    inStep.keyed id' s (Table.get?_of_get?_erase hs)
  have listed := inStep.listed.erase id
  have regions : a.regions.erase id = a.regions.without [id] := Table.without_singleton.symm
  have globals : a.globals.filter (· ≠ id) = a.globals.filter (· ∉ [id]) := by simp
  cases global : r.isGlobal with
  | true =>
    have boxless : (a.regions.get? id).bind Region.bounds? = none :=
      (congrArg (Option.bind · Region.bounds?) found).trans (Shape.bounds?_eq_none_iff.mpr global)
    have boxes : a.index.boxes = a.index.boxes.without [id] := by
      rw [Table.without_singleton]
      exact (Table.erase_eq_self (inStep.indexed.get?_eq_none boxless)).symm
    exact .pure ⟨⟨keyed, inStep.indexed.erase_none boxless, listed⟩, rfl, found,
      ⟨regions, boxes, globals⟩⟩
  | false =>
    obtain ⟨b, recorded⟩ := inStep.indexed.exists_get?_eq_some found global
    have removed := inStep.indexed.sound.remove_eq_ok_iff.mpr ⟨recorded, rfl⟩
    have unlisted : a.globals.filter (· ≠ id) = a.globals :=
      List.filter_eq_self.mpr fun id' hid => decide_eq_true <| by
        rintro rfl
        obtain ⟨s, hs, global'⟩ := (inStep.listed.mem_iff id').mp hid
        obtain rfl := Option.some.inj (found.symm.trans hs)
        exact Bool.false_ne_true (global.symm.trans global')
    rw [removed]
    exact .pure ⟨⟨keyed, inStep.indexed.erase_some removed, unlisted ▸ listed⟩, rfl, found,
      ⟨regions, Table.without_singleton.symm, unlisted.symm.trans globals⟩⟩

theorem InStep.bounds?_beq_self (inStep : a.InStep) (found : a.get? id = some r) :
    (r.bounds? == r.bounds?) = true := by
  have self := inStep.indexed.beq_self id
  rwa [show a.regions.get? id = some r from found] at self

theorem isGlobal_congr (same : (s.bounds? == r.bounds?) = true) : s.isGlobal = r.isGlobal := by
  have none_iff : s.bounds? = none ↔ r.bounds? = none := by
    cases hs : s.bounds? <;> cases hr : r.bounds? <;> rw [hs, hr] at same <;>
      first | contradiction | simp
  exact Bool.eq_iff_iff.mpr ((Shape.bounds?_eq_none_iff.symm.trans none_iff).trans
    Shape.bounds?_eq_none_iff)

/-- A region may take the place of one with an equal box. -/
theorem InStep.replace (inStep : a.InStep) {before : Region} (found : a.get? r.id = some before)
    (same : (before.bounds? == r.bounds?) = true) : (a.replace r).InStep where
  keyed := keyed_insert inStep.keyed
  indexed := inStep.indexed.congr fun id => by
    show (_ == ((a.regions.insert r.id r).get? id).bind Region.bounds?) = true
    by_cases h : id = r.id
    · subst h
      rw [show a.regions.get? r.id = some before from found, Table.get?_insert_self]
      exact same
    · rw [Table.get?_insert_of_ne h]
      exact inStep.indexed.beq_self id
  listed := inStep.listed.replace found (isGlobal_congr same)

/-- A region that may not name the given parent any more. -/
def orphanFrom (id : RegionId) (r : Region) : Region :=
  if r.parent == some id then { r with parent := none } else r

theorem regions_orphanChildrenOf :
    (a.orphanChildrenOf id).regions = a.regions.mapValues fun _ => orphanFrom id := rfl

/-- Only the parent is another. -/
theorem orphanFrom_eq (id : RegionId) (r : Region) :
    orphanFrom id r = { r with parent := r.parent.filter (· ≠ id) } := by
  obtain ⟨_, _, _, _, _, _, parent⟩ := r
  cases parent with
  | none => rfl
  | some p => by_cases h : p = id <;> simp [orphanFrom, Option.filter, h]

theorem InStep.orphanChildrenOf (inStep : a.InStep) (id : RegionId) :
    (a.orphanChildrenOf id).InStep where
  keyed id' s hs := by
    rw [regions_orphanChildrenOf, Table.get?_mapValues] at hs
    obtain ⟨r, found, rfl⟩ := Option.map_eq_some_iff.mp hs
    rw [orphanFrom_eq]
    exact inStep.keyed id' r found
  indexed := inStep.indexed.congr fun id' => by
    have self := inStep.indexed.beq_self id'
    rw [regions_orphanChildrenOf, Table.get?_mapValues]
    cases found : a.regions.get? id' with
    | none => rfl
    | some r =>
      rw [found] at self
      rw [Option.map_some, orphanFrom_eq]
      exact self
  listed := by
    rw [regions_orphanChildrenOf]
    apply inStep.listed.mapValues
    · intro r
      rw [orphanFrom_eq]
      rfl
    · intro r s
      rw [orphanFrom_eq, orphanFrom_eq]
      rfl

/-- What is taken out is gone, and the rest stays. Different regions that are there can all be taken
out. -/
theorem InStep.ends_takeAll [Platform] {ids : List RegionId} : ∀ {a : Atlas}, a.InStep → ids.Nodup →
    (∀ id ∈ ids, a.contains id = true) →
    Ends (a.takeAll ids)
      (fun a' => a'.InStep ∧ a'.generation = a.generation ∧ a.Without ids a')
      fun _ => False := by
  induction ids with
  | nil => exact fun {a} inStep _ _ => .pure ⟨inStep, rfl, .refl a⟩
  | cons id ids ih =>
    intro a inStep distinct known
    obtain ⟨single, distinct⟩ := List.nodup_cons.mp distinct
    have here := known id List.mem_cons_self
    refine ((inStep.ends_take id).imp_refused fun e missing => ?_).bind fun x taken => ?_
    · exact Bool.false_ne_true (missing.1.symm.trans here)
    obtain ⟨inStep', generation, -, without⟩ := taken
    refine (ih inStep' distinct fun id' h => ?_).imp_given fun a' ⟨inStep'', generation', rest⟩ =>
      ⟨inStep'', generation'.trans generation, without.trans rest⟩
    have other : id' ∉ [id] := fun same => single (List.mem_singleton.mp same ▸ h)
    have left := (without.get?_eq id').trans (if_neg other)
    exact (congrArg Option.isSome left).trans (known id' (List.mem_cons_of_mem id h))

end Atlas

end Enclave
