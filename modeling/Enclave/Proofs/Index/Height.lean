import Mathlib.Algebra.Order.BigOperators.Group.List
import Enclave.Proofs.Index.Audit

/-!
# The height goes with the logarithm of the size

The height of an index, which is counted as levels come and go, is the depth of each of its leaves,
and it bounds how many keys there are from both sides (`RTree.Reachable.measured`). From a node to its
children the number of entries below falls by a factor that lies between the bounds on what a node may
hold, so a count by levels gives a power of either bound (`Node.length_entries_bounds`).

The root need not hold the minimum. Where it is a branch it has two children, and that is where the
factor of two comes from; a root that is a leaf may hold nothing at all.
-/

namespace Enclave

variable {κ : Type} {f : Fanout}

namespace Node

/-- Where there are entries below a branch, there are leaves. -/
theorem leafDepths_ne_nil : ∀ {n : Nat} (node : Node κ n) (depth : Nat),
    (0 < n → node.entries ≠ []) → node.leafDepths depth ≠ [] := by
  intro n
  induction n with
  | zero =>
    intro _ depth _
    exact List.cons_ne_nil depth []
  | succ n ih =>
    intro (children : List (Boxed (Node κ n))) depth some
    obtain ⟨e, he⟩ := List.exists_mem_of_ne_nil _ (some n.succ_pos)
    obtain ⟨c, hc, he⟩ := List.mem_flatMap.mp he
    obtain ⟨d, hd⟩ := List.exists_mem_of_ne_nil _
      (ih c.item (depth + 1) fun _ => List.ne_nil_of_mem he)
    exact List.ne_nil_of_mem (List.mem_flatMap.mpr ⟨c, hc, hd⟩)

/-- For each item that a sound node holds there are as many entries below it as the levels in between
allow. -/
theorem length_entries_bounds : ∀ {n : Nat} (node : Node κ n), node.Sound f →
    node.size * f.min ^ n ≤ node.entries.length ∧
      node.entries.length ≤ node.size * f.max ^ n := by
  intro n
  induction n with
  | zero =>
    intro (entries : List (Boxed κ)) _
    rw [Nat.pow_zero, Nat.pow_zero, Nat.mul_one]
    exact ⟨Nat.le_refl entries.length, Nat.le_refl entries.length⟩
  | succ n ih =>
    intro (children : List (Boxed (Node κ n))) sound
    have each := sound_branch_iff.mp sound
    let counts := children.map fun c => c.item.entries.length
    have total : (branch children).entries.length = counts.sum := List.length_flatMap
    have size : counts.length = (branch children).size := List.length_map _
    show (branch children).size * f.min ^ (n + 1) ≤ (branch children).entries.length ∧
      (branch children).entries.length ≤ (branch children).size * f.max ^ (n + 1)
    rw [total, ← size]
    constructor
    · refine List.card_nsmul_le_sum counts _ ?_
      intro count hcount
      obtain ⟨c, hc, rfl⟩ := List.mem_map.mp hcount
      have filled := (each c hc).filled
      calc f.min ^ (n + 1) = f.min * f.min ^ n := Nat.pow_succ'
        _ ≤ c.item.size * f.min ^ n := Nat.mul_le_mul_right _ filled.min_le
        _ ≤ c.item.entries.length := (ih c.item filled.sound).1
    · refine List.sum_le_card_nsmul counts _ ?_
      intro count hcount
      obtain ⟨c, hc, rfl⟩ := List.mem_map.mp hcount
      have filled := (each c hc).filled
      calc c.item.entries.length ≤ c.item.size * f.max ^ n := (ih c.item filled.sound).2
        _ ≤ f.max * f.max ^ n := Nat.mul_le_mul_right _ filled.le_max
        _ = f.max ^ (n + 1) := Nat.pow_succ'.symm

end Node

namespace RTree

variable [Ord κ]

/-- The height that was counted is the number of levels, and the number of keys lies between two
powers with the height in the exponent. -/
structure Measured (t : RTree κ) : Prop where
  counted : t.height = t.root.level + 1
  leaves : t.root.node.leafDepths 1 ≠ []
  depth : ∀ d ∈ t.root.node.leafDepths 1, d = t.height
  size_le : t.size ≤ t.fanout.max ^ t.height
  le_size : 2 ≤ t.height → 2 * t.fanout.min ^ (t.height - 1) ≤ t.size

theorem Sound.measured_entries {t : RTree κ} (sound : t.Sound) : t.Measured := by
  obtain ⟨least, most⟩ := Node.length_entries_bounds t.root.node sound.root.nodes
  rw [sound.length_entries] at least most
  refine ⟨sound.height, ?_, fun d hd => ?_, ?_, fun levels => ?_⟩
  · refine Node.leafDepths_ne_nil t.root.node 1 fun branches => ?_
    have held := Nat.lt_of_lt_of_le Nat.zero_lt_two (sound.root.two_le branches)
    exact Node.entries_ne_nil sound.usable t.root.node sound.root.nodes held
  · exact sound.eq_of_mem_leafDepths hd
  · rw [sound.height]
    calc t.size ≤ t.root.node.size * t.fanout.max ^ t.root.level := most
      _ ≤ t.fanout.max * t.fanout.max ^ t.root.level := Nat.mul_le_mul_right _ sound.root.le_max
      _ = t.fanout.max ^ (t.root.level + 1) := Nat.pow_succ'.symm
  · rw [sound.height] at levels ⊢
    have branches : 0 < t.root.level := Nat.lt_of_succ_lt_succ levels
    calc 2 * t.fanout.min ^ (t.root.level + 1 - 1)
        ≤ t.root.node.size * t.fanout.min ^ t.root.level :=
          Nat.mul_le_mul_right _ (sound.root.two_le branches)
      _ ≤ t.size := least

variable [Std.TransOrd κ] [Std.LawfulEqOrd κ] [ToString κ]

/-- Every index that can be reached is as high as its leaves lie deep, and holds no more and no fewer
keys than indexes of that height can. -/
theorem Reachable.measured {t : RTree κ} (h : t.Reachable) : t.Measured := h.sound.measured_entries

/-- Seventeen keys do not fit four leaves of four, so that there are three levels. -/
theorem measured_of_seventeen_keys : ∃ t : RTree Nat, (t.size, t.height) = (17, 3) ∧
    t.Measured := by
  let := Platform.reference
  let items : List (Nat × Box Float) := (List.range 17).map fun k =>
    (k, ⟨⟨k.toFloat, 0, 0⟩, ⟨k.toFloat, 1, 1⟩⟩)
  have usable : Fanout.Usable ⟨4, 2⟩ := ⟨by decide, by decide, by decide⟩
  obtain ⟨t, packed⟩ : ∃ t, ofList ⟨4, 2⟩ items = .ok t :=
    exists_ofList_eq_ok usable (by decide +kernel) (by decide)
  have counts : (ofList ⟨4, 2⟩ items).toOption.map (fun t => (t.size, t.height)) = some (17, 3) := by
    decide +kernel
  rw [packed] at counts
  exact ⟨t, Option.some.inj counts, (Reachable.ofList packed).measured⟩

end RTree

end Enclave
