import Mathlib.Algebra.Order.Field.Basic
import Mathlib.Algebra.Order.Field.Rat
import Mathlib.Tactic.Linarith
import Mathlib.Tactic.LinearCombination
import Mathlib.Tactic.Ring
import Enclave.Geometry.Footprint

/-!
# Edges in the exact plane

With rational coordinates nothing is rounded, and how an edge lies to a point has a meaning apart
from how it is found out. The edge is a segment (`Vertex.OnSegment`), its ends included. A point is
told to be on it only if it lies there (`Footprint.onSegment_of_passing`), and every point that lies
there is told so, save perhaps the end where the edge starts (`Footprint.passing_of_onSegment`):
that one belongs to the edge before.

As on a map, `z` grows downward. Whether an edge passes below a point is told by its two ends in
either order (`Footprint.PassesBelow`, `Footprint.passing_eq_below_iff`): just one of them lies left
of the point, and the point lies to the side of the edge where `z` is less.
-/

namespace Enclave

instance : LawfulBEq (Vertex ℚ) where
  eq_of_beq {p q} h := by
    obtain ⟨hx, hz⟩ := Bool.and_eq_true_iff.mp h
    cases p; cases q
    exact congrArg₂ Vertex.mk (eq_of_beq hx) (eq_of_beq hz)
  rfl {p} := Bool.and_eq_true_iff.mpr ⟨beq_self_eq_true p.x, beq_self_eq_true p.z⟩

theorem Vertex.eq_of_coordinates {p q : Vertex ℚ} (hx : p.x = q.x) (hz : p.z = q.z) : p = q :=
  eq_of_beq (Bool.and_eq_true_iff.mpr ⟨beq_of_eq hx, beq_of_eq hz⟩)

namespace Coordinate

theorem least_eq_min (a b : ℚ) : least a b = min a b := by
  unfold least isNumber
  split_ifs with h number
  · exact (min_eq_right h.le).symm
  · exact (min_eq_left (not_lt.mp h)).symm
  · exact absurd (beq_self_eq_true a) number

theorem greatest_eq_max (a b : ℚ) : greatest a b = max a b := by
  unfold greatest isNumber
  split_ifs with h number
  · exact (max_eq_right h.le).symm
  · exact (max_eq_left (not_lt.mp h)).symm
  · exact absurd (beq_self_eq_true a) number

end Coordinate

/-! ## Segments -/

/-- On the segment from `u` to `v`, both ends included. -/
def Vertex.OnSegment (p u v : Vertex ℚ) : Prop :=
  ∃ t : ℚ, 0 ≤ t ∧ t ≤ 1 ∧ p.x = u.x + t * (v.x - u.x) ∧ p.z = u.z + t * (v.z - u.z)

theorem between_of_proportion {a b t : ℚ} (nonneg : 0 ≤ t) (le_one : t ≤ 1) :
    min a b ≤ a + t * (b - a) ∧ a + t * (b - a) ≤ max a b := by
  rcases le_total a b with h | h
  · have low := mul_nonneg nonneg (sub_nonneg.mpr h)
    have high := mul_nonneg (sub_nonneg.mpr le_one) (sub_nonneg.mpr h)
    rw [min_eq_left h, max_eq_right h]
    exact ⟨by linarith, by linarith⟩
  · have high := mul_nonneg nonneg (sub_nonneg.mpr h)
    have low := mul_nonneg (sub_nonneg.mpr le_one) (sub_nonneg.mpr h)
    rw [min_eq_right h, max_eq_left h]
    exact ⟨by linarith, by linarith⟩

/-- What lies between two coordinates divides their distance in some proportion. -/
theorem exists_proportion {a b c : ℚ} (ha : a ≤ c) (hb : c ≤ b) :
    ∃ t : ℚ, 0 ≤ t ∧ t ≤ 1 ∧ c = a + t * (b - a) := by
  rcases ha.eq_or_lt with rfl | ha
  · exact ⟨0, le_refl 0, zero_le_one, by ring⟩
  · have length : 0 < b - a := by linarith
    refine ⟨(c - a) / (b - a), ?_, ?_, ?_⟩
    · exact div_nonneg (by linarith) length.le
    · rw [div_le_one length]
      linarith
    · rw [div_mul_cancel₀ _ length.ne']
      ring

namespace Footprint

variable {p u v : Vertex ℚ}

theorem turn_eq (a b c : Vertex ℚ) :
    turn a b c = (b.x - a.x) * (c.z - a.z) - (b.z - a.z) * (c.x - a.x) := rfl

/-- The turn weighs the heights of the point over the two ends by how far it is from them. -/
theorem turn_eq_weighed (u v p : Vertex ℚ) :
    turn u v p = (v.x - p.x) * (p.z - u.z) + (p.x - u.x) * (p.z - v.z) := by
  rw [turn_eq]
  ring

theorem within_iff {a b p : Vertex ℚ} : within a b p = true ↔
    (min a.x b.x ≤ p.x ∧ p.x ≤ max a.x b.x) ∧ min a.z b.z ≤ p.z ∧ p.z ≤ max a.z b.z := by
  simp only [within, Bool.and_eq_true, decide_eq_true_eq, Coordinate.least_eq_min,
    Coordinate.greatest_eq_max, and_assoc]

theorem turn_swap (u v p : Vertex ℚ) : turn v u p = -turn u v p := by
  rw [turn_eq_weighed, turn_eq_weighed]
  ring

end Footprint

namespace Vertex

open Footprint

variable {p u v : Vertex ℚ}

theorem onSegment_start (u v : Vertex ℚ) : u.OnSegment u v :=
  ⟨0, le_refl 0, zero_le_one, by ring, by ring⟩

theorem OnSegment.symm (h : p.OnSegment u v) : p.OnSegment v u := by
  obtain ⟨t, nonneg, le_one, hx, hz⟩ := h
  refine ⟨1 - t, by linarith, by linarith, ?_, ?_⟩
  · rw [hx]
    ring
  · rw [hz]
    ring

theorem onSegment_end (u v : Vertex ℚ) : v.OnSegment u v := (onSegment_start v u).symm

/-- On the line through two points, between them from left to right. -/
theorem onSegment_of_slanted (slanted : u.x < v.x) (left : u.x ≤ p.x) (right : p.x ≤ v.x)
    (line : turn u v p = 0) : p.OnSegment u v := by
  obtain ⟨t, nonneg, le_one, hx⟩ := exists_proportion left right
  refine ⟨t, nonneg, le_one, hx, ?_⟩
  rw [turn_eq, hx] at line
  have width : v.x - u.x ≠ 0 := by linarith
  apply mul_left_cancel₀ width
  linear_combination line

/-- Above each other, and between the two in height. -/
theorem onSegment_of_upright (upright : u.x = v.x) (hx : p.x = u.x) (low : u.z ≤ p.z)
    (high : p.z ≤ v.z) : p.OnSegment u v := by
  obtain ⟨t, nonneg, le_one, hz⟩ := exists_proportion low high
  refine ⟨t, nonneg, le_one, ?_, hz⟩
  rw [hx, upright]
  ring

theorem onSegment_iff :
    p.OnSegment u v ↔ turn u v p = 0 ∧ within u v p = true := by
  rw [within_iff]
  constructor
  · rintro ⟨t, nonneg, le_one, hx, hz⟩
    refine ⟨?_, ?_, ?_⟩
    · rw [turn_eq, hx, hz]
      ring
    · exact hx ▸ between_of_proportion nonneg le_one
    · exact hz ▸ between_of_proportion nonneg le_one
  · rintro ⟨line, ⟨left, right⟩, low, high⟩
    rcases lt_trichotomy u.x v.x with slanted | upright | slanted
    · rw [min_eq_left slanted.le] at left
      rw [max_eq_right slanted.le] at right
      exact onSegment_of_slanted slanted left right line
    · rw [upright, min_self] at left
      rw [upright, max_self] at right
      have hx : p.x = v.x := le_antisymm right left
      rcases le_total u.z v.z with rising | falling
      · rw [min_eq_left rising] at low
        rw [max_eq_right rising] at high
        exact onSegment_of_upright upright (hx.trans upright.symm) low high
      · rw [min_eq_right falling] at low
        rw [max_eq_left falling] at high
        exact (onSegment_of_upright upright.symm hx low high).symm
    · rw [min_eq_right slanted.le] at left
      rw [max_eq_left slanted.le] at right
      rw [turn_swap, neg_eq_zero] at line
      exact (onSegment_of_slanted slanted left right line).symm

instance : Decidable (p.OnSegment u v) := decidable_of_iff _ onSegment_iff.symm

/-- A point of the segment that is none of its ends lies strictly within. -/
theorem OnSegment.proper (h : p.OnSegment u v) (hu : p ≠ u) (hv : p ≠ v) :
    ∃ t : ℚ, 0 < t ∧ t < 1 ∧ p.x = u.x + t * (v.x - u.x) ∧ p.z = u.z + t * (v.z - u.z) := by
  obtain ⟨t, nonneg, le_one, hx, hz⟩ := h
  refine ⟨t, lt_of_le_of_ne nonneg ?_, lt_of_le_of_ne le_one ?_, hx, hz⟩
  · rintro rfl
    exact hu (eq_of_coordinates (by linarith) (by linarith))
  · rintro rfl
    exact hv (eq_of_coordinates (by linarith) (by linarith))

end Vertex

/-! ## How an edge lies to a point -/

namespace Footprint

open Vertex

variable {p u v : Vertex ℚ}

/-- The side of the point is the turn to it. -/
theorem passingOrdered_eq (a b p : Vertex ℚ) : passingOrdered a b p =
    if a.x ≤ p.x ∧ p.x ≤ b.x then
      if turn a b p = 0 then if (a.z ≤ p.z ↔ p.z ≤ b.z) then .on else .clear
      else if turn a b p < 0 ∧ a.x ≠ p.x then .below
      else .clear
    else .clear := by
  have side : (p.z - a.z) * (b.x - a.x) - (b.z - a.z) * (p.x - a.x) = turn a b p := by
    rw [turn_eq]
    ring
  have zero : (Coordinate.zero : ℚ) = 0 := rfl
  simp only [passingOrdered, side, zero, beq_iff_eq, decide_eq_decide, Bool.not_eq_true',
    beq_eq_false_iff_ne]

theorem onSegment_of_passingOrdered {a b : Vertex ℚ} (ordered : a.x ≤ b.x)
    (on : passingOrdered a b p = .on) : p.OnSegment a b := by
  rw [passingOrdered_eq] at on
  split_ifs at on with range line both
  rcases ordered.eq_or_lt with upright | slanted
  · have hx : p.x = a.x := le_antisymm (upright ▸ range.2) range.1
    -- the ends of an upright edge stand in either order, and the two comparisons agree between them
    by_cases above : a.z ≤ p.z
    · exact onSegment_of_upright upright hx above (both.mp above)
    · have below : b.z ≤ p.z := (not_le.mp fun h => above (both.mpr h)).le
      exact (onSegment_of_upright upright.symm (hx.trans upright) below (not_le.mp above).le).symm
  · exact onSegment_of_slanted slanted range.1 range.2 line

theorem onSegment_of_passing (on : passing p u v = .on) : p.OnSegment u v := by
  unfold passing at on
  split_ifs at on with last ordered
  · rw [← eq_of_beq last]
    exact onSegment_end u v
  · exact onSegment_of_passingOrdered ordered.le on
  · exact (onSegment_of_passingOrdered (not_lt.mp ordered) on).symm

theorem passingOrdered_of_proper {a b : Vertex ℚ} (ordered : a.x ≤ b.x) {t : ℚ} (pos : 0 < t)
    (lt_one : t < 1) (hx : p.x = a.x + t * (b.x - a.x)) (hz : p.z = a.z + t * (b.z - a.z)) :
    passingOrdered a b p = .on := by
  have width : 0 ≤ b.x - a.x := by linarith
  have left : a.x ≤ p.x := by
    rw [hx]
    exact le_add_of_nonneg_right (mul_nonneg pos.le width)
  have right : p.x ≤ b.x := by
    have rest := mul_nonneg (sub_nonneg.mpr lt_one.le) width
    linarith
  have line : turn a b p = 0 := by
    rw [turn_eq, hx, hz]
    ring
  have both : a.z ≤ p.z ↔ p.z ≤ b.z := by
    rcases le_or_gt a.z b.z with rising | falling
    · have low := mul_nonneg pos.le (sub_nonneg.mpr rising)
      have high := mul_nonneg (sub_nonneg.mpr lt_one.le) (sub_nonneg.mpr rising)
      exact ⟨fun _ => by linarith, fun _ => by linarith⟩
    · have high := mul_pos pos (sub_pos.mpr falling)
      have low := mul_pos (sub_pos.mpr lt_one) (sub_pos.mpr falling)
      exact ⟨fun _ => by linarith, fun _ => by linarith⟩
  rw [passingOrdered_eq, if_pos ⟨left, right⟩, if_pos line, if_pos both]

theorem passing_of_onSegment (h : p.OnSegment u v) (start : p ≠ u) : passing p u v = .on := by
  unfold passing
  split_ifs with last ordered
  · rfl
  · obtain ⟨t, pos, lt_one, hx, hz⟩ := h.proper start fun e => last (beq_of_eq e.symm)
    exact passingOrdered_of_proper ordered.le pos lt_one hx hz
  · obtain ⟨t, pos, lt_one, hx, hz⟩ := h.symm.proper (fun e => last (beq_of_eq e.symm)) start
    exact passingOrdered_of_proper (not_lt.mp ordered) pos lt_one hx hz

/-- Just one end of the edge lies left of the point. -/
def Spans (u v p : Vertex ℚ) : Prop := ¬(u.x < p.x ↔ v.x < p.x)

theorem Spans.symm (h : Spans u v p) : Spans v u p := fun both => h both.symm

theorem Spans.cases (h : Spans u v p) :
    (u.x < p.x ∧ p.x ≤ v.x) ∨ (v.x < p.x ∧ p.x ≤ u.x) := by
  unfold Spans at h
  rw [← not_lt, ← not_lt]
  tauto

/-- An edge passes below a point if it spans the point and the point lies to the side of the edge
where `z` is less. The order of the ends does not matter: the width of the edge and the turn to the
point change their signs together. -/
structure PassesBelow (u v p : Vertex ℚ) : Prop where
  spans : Spans u v p
  beyond : (v.x - u.x) * turn u v p < 0

theorem PassesBelow.symm (h : PassesBelow u v p) : PassesBelow v u p where
  spans := h.spans.symm
  beyond := by
    have same : (u.x - v.x) * turn v u p = (v.x - u.x) * turn u v p := by
      rw [turn_swap u v]
      ring
    rw [same]
    exact h.beyond

/-- From the left end to the right end, all is told by the turn. -/
theorem passesBelow_iff (ordered : u.x ≤ v.x) :
    PassesBelow u v p ↔ (u.x < p.x ∧ p.x ≤ v.x) ∧ turn u v p < 0 := by
  constructor
  · rintro ⟨spans, beyond⟩
    have range : u.x < p.x ∧ p.x ≤ v.x := by
      rcases spans.cases with range | range
      · exact range
      · exact absurd (range.1.trans_le range.2) ordered.not_gt
    exact ⟨range, neg_of_mul_neg_right beyond (sub_nonneg.mpr ordered)⟩
  · rintro ⟨⟨left, right⟩, under⟩
    have width : 0 < v.x - u.x := sub_pos.mpr (left.trans_le right)
    exact ⟨fun both => right.not_gt (both.mp left), mul_neg_of_pos_of_neg width under⟩

/-- An edge that passes below a point has an end further down than the point. -/
theorem PassesBelow.lt_or_lt (h : PassesBelow u v p) : p.z < u.z ∨ p.z < v.z := by
  have ordered {a b : Vertex ℚ} (h : PassesBelow a b p) (le : a.x ≤ b.x) (ha : a.z ≤ p.z) :
      ¬b.z ≤ p.z := by
    obtain ⟨⟨left, right⟩, under⟩ := (passesBelow_iff le).mp h
    intro hb
    have start := mul_nonneg (sub_nonneg.mpr right) (sub_nonneg.mpr ha)
    have finish := mul_nonneg (sub_nonneg.mpr left.le) (sub_nonneg.mpr hb)
    rw [turn_eq_weighed] at under
    linarith
  by_contra! above
  rcases le_total u.x v.x with le | le
  · exact ordered h le above.1 above.2
  · exact ordered h.symm le above.2 above.1

/-- An edge that spans a point passes below it if both its ends are further down. -/
theorem Spans.passesBelow (h : Spans u v p) (hu : p.z < u.z) (hv : p.z < v.z) :
    PassesBelow u v p := by
  have ordered {a b : Vertex ℚ} (range : a.x < p.x ∧ p.x ≤ b.x) (ha : p.z < a.z) (hb : p.z < b.z) :
      PassesBelow a b p := by
    refine (passesBelow_iff (range.1.trans_le range.2).le).mpr ⟨range, ?_⟩
    have start := mul_nonneg (sub_nonneg.mpr range.2) (sub_nonneg.mpr ha.le)
    have finish := mul_pos (sub_pos.mpr range.1) (sub_pos.mpr hb)
    rw [turn_eq_weighed]
    linarith
  rcases h.cases with range | range
  · exact ordered range hu hv
  · exact (ordered range hv hu).symm

theorem passingOrdered_eq_below_iff {a b : Vertex ℚ} (ordered : a.x ≤ b.x) :
    passingOrdered a b p = .below ↔ PassesBelow a b p := by
  rw [passingOrdered_eq, passesBelow_iff ordered]
  constructor
  · intro below
    split_ifs at below with range line both under
    exact ⟨⟨lt_of_le_of_ne range.1 under.2, range.2⟩, under.1⟩
  · rintro ⟨⟨left, right⟩, under⟩
    rw [if_pos ⟨left.le, right⟩, if_neg under.ne, if_pos ⟨under, left.ne⟩]

theorem passing_eq_below_iff : passing p u v = .below ↔ PassesBelow u v p := by
  unfold passing
  split_ifs with last ordered
  · -- an edge does not pass below its own end
    have line : turn u v p = 0 := by
      rw [← eq_of_beq last, turn_eq]
      ring
    refine iff_of_false nofun fun h => ?_
    have beyond := h.beyond
    rw [line, mul_zero] at beyond
    exact lt_irrefl 0 beyond
  · exact passingOrdered_eq_below_iff ordered.le
  · rw [passingOrdered_eq_below_iff (not_lt.mp ordered)]
    exact ⟨.symm, .symm⟩

theorem passing_eq_below_comm : passing p u v = .below ↔ passing p v u = .below := by
  rw [passing_eq_below_iff, passing_eq_below_iff]
  exact ⟨.symm, .symm⟩

end Footprint

end Enclave
