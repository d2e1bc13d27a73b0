import Enclave.Region.Basic

/-!
# Precedence is an order

Precedence is transitive, of two regions one comes first, and only regions of one id are level in
it. So regions of different ids stand in one order only: a list that is in order is what sorting
makes of any list of the same regions (`Region.eq_inPrecedence`).
-/

namespace Enclave.Region

variable {r s : Region}

/-- First come regions that are not of the whole world, then those of higher priority, then those of
lesser id. -/
theorem comparePrecedence_eq_lt_iff : r.comparePrecedence s = .lt ↔
    (r.isGlobal = false ∧ s.isGlobal = true) ∨ (r.isGlobal = s.isGlobal ∧
      (s.priority < r.priority ∨ (r.priority = s.priority ∧ compare r.id s.id = .lt))) := by
  have kinds : compare r.isGlobal s.isGlobal = .lt ↔ r.isGlobal = false ∧ s.isGlobal = true := by
    cases r.isGlobal <;> cases s.isGlobal <;> decide
  simp only [comparePrecedence, Ordering.then_eq_lt, Ordering.then_eq_eq, kinds,
    Std.LawfulEqCmp.compare_eq_iff_eq, Int.compare_eq_lt]
  grind

instance : Std.TransCmp comparePrecedence :=
  have : Std.TransCmp fun r s : Region => compareOn priority s r := Std.TransCmp.opposite
  inferInstanceAs (Std.TransCmp (compareLex (compareLex (compareOn isGlobal)
    fun r s => compareOn priority s r) (compareOn Region.id)))

/-- Regions that are level in precedence have one id. -/
theorem id_eq_of_comparePrecedence (h : r.comparePrecedence s = .eq) : r.id = s.id :=
  Std.LawfulEqCmp.eq_of_compare (Ordering.then_eq_eq.mp h).2

/-- One region comes before another, or is level with it. -/
def Precedes (r s : Region) : Prop := (r.comparePrecedence s).isLE = true

instance : DecidableRel Precedes := fun r s =>
  inferInstanceAs (Decidable ((r.comparePrecedence s).isLE = true))

theorem Precedes.trans {u : Region} (h : r.Precedes s) (h' : s.Precedes u) : r.Precedes u :=
  Std.TransCmp.isLE_trans h h'

theorem precedes_total (r s : Region) : r.Precedes s ∨ s.Precedes r := by
  by_cases h : r.Precedes s
  · exact .inl h
  · exact .inr (Ordering.isLE_of_eq_lt (Std.OrientedCmp.lt_of_not_isLE h))

/-- What is not of the whole world comes before what is. -/
theorem precedes_of_isGlobal (hr : r.isGlobal = false) (hs : s.isGlobal = true) : r.Precedes s := by
  rw [Precedes, comparePrecedence_eq_lt_iff.mpr (.inl ⟨hr, hs⟩)]
  rfl

/-- Of two regions of different ids one comes strictly first. -/
theorem Precedes.comparePrecedence_eq_lt (h : r.Precedes s) (ne : r.id ≠ s.id) :
    r.comparePrecedence s = .lt := by
  rcases Ordering.isLE_iff_eq_lt_or_eq_eq.mp h with h | h
  · exact h
  · exact absurd (id_eq_of_comparePrecedence h) ne

/-! ## Lists in order -/

theorem inPrecedence_perm (l : List Region) : (inPrecedence l).Perm l := List.mergeSort_perm l _

theorem pairwise_inPrecedence (l : List Region) : (inPrecedence l).Pairwise Precedes := by
  apply List.pairwise_mergeSort
  · intro r s u
    exact Precedes.trans
  · intro r s
    exact Bool.or_eq_true_iff.mpr (precedes_total r s)

/-- A list in order, of regions that differ in their ids, is the sorted list of its regions. -/
theorem eq_inPrecedence {l l' : List Region} (perm : l.Perm l') (sorted : l.Pairwise Precedes)
    (distinct : ∀ r ∈ l, ∀ s ∈ l, r.id = s.id → r = s) : l = inPrecedence l' := by
  have perm := perm.trans (inPrecedence_perm l').symm
  refine perm.eq_of_pairwise ?_ sorted (pairwise_inPrecedence l')
  intro r s hr hs h h'
  have level : r.comparePrecedence s = .eq := Std.OrientedCmp.isLE_antisymm h h'
  exact distinct r hr s (perm.mem_iff.mpr hs) (id_eq_of_comparePrecedence level)

end Enclave.Region
