import Enclave.Proofs.Index.Audit
import Enclave.Proofs.World.Atlas

/-!
# Audits of an atlas find nothing

An atlas is consistent when its index and its list are in step with its table and the parents form a
forest (`Atlas.Consistent`). An audit of a consistent atlas finds nothing: it looks at every region,
then only at how many are indexed and listed, and the two lists hold different ids of the right
regions, so that their lengths are right.
-/

namespace Enclave

open Region (Forest Names)

variable {t : RegionTable} {r : Region} {id : RegionId}

/-! ## Numbers of regions -/

/-- A list of the different ids of the regions that pass a test is as long as there are such
regions. -/
theorem length_eq_countP {ids : List RegionId} {test : Region → Bool} (nodup : ids.Nodup)
    (mem_iff : ∀ id, id ∈ ids ↔ ∃ r, t.get? id = some r ∧ test r = true) :
    ids.length = t.values.countP test := by
  have passing : ids.Perm ((t.entries.filter fun e => test e.2).map (·.1)) := by
    refine (List.perm_ext_iff_of_nodup nodup ?_).mpr fun id => ?_
    · exact t.nodup_keys.sublist (List.filter_sublist.map _)
    · rw [mem_iff]
      simp only [List.mem_map, List.mem_filter, Prod.exists, exists_and_right, exists_eq_right,
        Table.get?_eq_some_iff]
  rw [passing.length_eq, List.length_map, Table.values, List.countP_map,
    List.countP_eq_length_filter]
  rfl

theorem Listed.length_eq {globals : List RegionId} (listed : Listed t globals) :
    globals.length = t.values.countP (·.isGlobal) :=
  length_eq_countP listed.nodup listed.mem_iff

theorem Indexed.size_eq {index : RTree RegionId} (indexed : Indexed t index) :
    index.size = t.values.countP (·.bounds?.isSome) := by
  have count : index.boxes.keys.length = index.size := List.length_map _
  rw [← count]
  refine length_eq_countP index.boxes.nodup_keys ?_
  intro id
  have recorded : id ∈ index.boxes.keys ↔ (index.get? id).isSome = true := by
    rw [Option.isSome_iff_exists]
    simp only [Table.keys, RTree.get?, Table.get?_eq_some_iff, List.mem_map, Prod.exists,
      exists_and_right, exists_eq_right]
  have same : (index.get? id).isSome = ((t.get? id).bind Region.bounds?).isSome := by
    have beq := indexed.get?_beq id
    revert beq
    cases index.get? id <;> cases (t.get? id).bind Region.bounds? <;> intro beq <;>
      first | rfl | contradiction
  rw [recorded, same]
  cases t.get? id <;> simp

/-! ## Audits -/

namespace Atlas

/-- Index and list are in step with the table, and the parents form a forest. -/
structure Consistent (a : Atlas) : Prop extends a.InStep where
  forest : Forest a.regions

variable {a : Atlas}

theorem Consistent.misplacement?_eq_none (consistent : a.Consistent)
    (found : a.regions.get? id = some r) : a.misplacement? id r = none := by
  have own := consistent.keyed id r found
  have indexed := consistent.indexed.get?_beq id
  rw [found, Option.bind_some] at indexed
  rw [misplacement?, if_neg (not_not_intro own)]
  cases hb : r.bounds? with
  | none =>
    have listed : id ∈ a.globals := (consistent.listed.mem_iff id).mpr
      ⟨r, found, Shape.bounds?_eq_none_iff.mp hb⟩
    cases a.index.get? id <;> simp [listed]
  | some b =>
    rw [hb] at indexed
    cases hi : a.index.get? id with
    | none => rw [hi] at indexed; cases indexed
    | some c =>
      rw [hi] at indexed
      exact if_pos indexed

theorem Consistent.miscount?_eq_none (consistent : a.Consistent) : a.miscount? = none := by
  have indexable : (a.regions.values.filterMap Region.bounds?).length = a.index.size := by
    rw [consistent.indexed.size_eq, List.length_filterMap_eq_countP]
  have boxless : a.regions.values.countP (·.isGlobal) =
      a.regions.values.countP fun r => decide ¬r.bounds?.isSome = true :=
    List.countP_congr fun r _ => by
      simp [Region.bounds?, Region.isGlobal, ← Shape.bounds?_eq_none_iff]
  have all : a.size = a.index.size + a.globals.length := by
    have split := List.length_eq_countP_add_countP (fun r : Region => r.bounds?.isSome)
      (l := a.regions.values)
    have count : a.regions.values.length = a.size := List.length_map _
    rw [consistent.indexed.size_eq, consistent.listed.length_eq, boxless, ← count, split]
  rw [miscount?]
  simp only [indexable]
  rw [if_neg (by simp), if_neg (by omega)]

theorem Consistent.misparentage?_eq_none (consistent : a.Consistent)
    (found : a.regions.get? id = some r) : a.misparentage? r = none := by
  have known : r.parent.filter (!a.contains ·) = none := by
    refine Option.filter_eq_none_iff.mpr ?_
    intro p hp
    have := consistent.forest.parent_mem ⟨r, found, hp⟩
    simpa [contains] using this
  rw [misparentage?, known, consistent.forest.cycleFrom?_eq_none]
  rfl

theorem Consistent.audit_eq_none (consistent : a.Consistent) : a.audit = none := by
  have placed : (a.regions.entries.findSome? fun e => a.misplacement? e.1 e.2) = none :=
    List.findSome?_eq_none_iff.mpr fun e he =>
      consistent.misplacement?_eq_none ((Table.get?_eq_some_iff ..).mpr he)
  have parented : a.regions.values.findSome? a.misparentage? = none :=
    List.findSome?_eq_none_iff.mpr fun r hr => by
      obtain ⟨id, found⟩ := Table.mem_values_iff.mp hr
      exact consistent.misparentage?_eq_none found
  rw [audit, placed, consistent.miscount?_eq_none, parented,
    consistent.indexed.sound.flaw?_eq_none]
  rfl

end Atlas

end Enclave
