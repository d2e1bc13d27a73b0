import Mathlib.Tactic.FieldSimp
import Enclave.Proofs.Geometry.Contact

/-!
# Moving a point

A point that is moved along a straight line and meets no edge of a footprint stays inside of it, or
stays outside (`Footprint.encloses_eq_of_apart`).

While it moves, the edges that pass below it may change: an edge is passed below from some place on,
because it has an end further down than the way that the point takes. So the ways in which each edge
changes add up to the number of times that the closed line enters or leaves what lies beneath the
way (`Footprint.Beneath`), and that number is even. That the change of one edge is told by its two
ends is the step (`Footprint.passesBelow_changes_iff`): over the range that the edge and the way have
in common, the one runs above the other all along (`Footprint.level_lt_iff_of_apart`).
-/

namespace Enclave.Footprint

variable {f : Footprint ℚ} {p q r u v : Vertex ℚ} {x y : ℚ}

/-! ## Levels -/

/-- The level of the line through two points over some `x`. -/
def level (u v : Vertex ℚ) (x : ℚ) : ℚ := u.z + (x - u.x) / (v.x - u.x) * (v.z - u.z)

theorem level_start (u v : Vertex ℚ) : level u v u.x = u.z := by
  rw [level, sub_self, zero_div, zero_mul, add_zero]

theorem level_end (slanted : u.x < v.x) : level u v v.x = v.z := by
  rw [level, div_self (sub_pos.mpr slanted).ne', one_mul]
  ring

/-- Between two places the level changes evenly. -/
theorem level_of_proportion (u v : Vertex ℚ) (x y t : ℚ) :
    level u v (x + t * (y - x)) = level u v x + t * (level u v y - level u v x) := by
  simp only [level, div_eq_mul_inv]
  ring

/-- The turn tells how far a point lies from the line, times the width of the edge. -/
theorem turn_eq_level (slanted : u.x < v.x) :
    turn u v p = (v.x - u.x) * (p.z - level u v p.x) := by
  have width := (sub_pos.mpr slanted).ne'
  rw [turn_eq, level]
  field_simp
  ring

theorem onSegment_of_level (slanted : u.x < v.x) (left : u.x ≤ p.x) (right : p.x ≤ v.x)
    (height : p.z = level u v p.x) : p.OnSegment u v := by
  refine Vertex.onSegment_of_slanted slanted left right ?_
  rw [turn_eq_level slanted, height, sub_self, mul_zero]

theorem passesBelow_iff_level (slanted : u.x < v.x) :
    PassesBelow u v p ↔ (u.x < p.x ∧ p.x ≤ v.x) ∧ p.z < level u v p.x := by
  rw [passesBelow_iff slanted.le, turn_eq_level slanted, ← neg_pos, ← mul_neg, neg_sub,
    mul_pos_iff_of_pos_left (sub_pos.mpr slanted), sub_pos]

theorem level_swap (wide : u.x ≠ v.x) (x : ℚ) : level v u x = level u v x := by
  have width := sub_ne_zero.mpr wide
  have width' := sub_ne_zero.mpr wide.symm
  simp only [level]
  field_simp
  ring

theorem Spans.wide (spans : Spans u v p) : u.x ≠ v.x := fun upright => spans (by rw [upright])

theorem not_passesBelow_of_upright (upright : u.x = v.x) : ¬PassesBelow u v p :=
  fun below => below.spans.wide upright

theorem passesBelow_comm : PassesBelow u v p ↔ PassesBelow v u p := ⟨.symm, .symm⟩

/-- Whichever end of an edge is named first, the edge passes below a point that it spans if its level
there is further down. -/
theorem passesBelow_iff_spans : PassesBelow u v p ↔ Spans u v p ∧ p.z < level u v p.x := by
  have ordered {a b : Vertex ℚ} (slanted : a.x < b.x) :
      PassesBelow a b p ↔ Spans a b p ∧ p.z < level a b p.x := by
    rw [passesBelow_iff_level slanted, Spans, ← not_lt (a := b.x)]
    have := fun left : b.x < p.x => slanted.trans left
    tauto
  rcases lt_trichotomy u.x v.x with slanted | upright | slanted
  · exact ordered slanted
  · exact iff_of_false (not_passesBelow_of_upright upright) fun h => h.1.wide upright
  · rw [level_swap slanted.ne]
    exact ⟨fun below => ((ordered slanted).mp below.symm).imp_left .symm,
      fun h => ((ordered slanted).mpr (h.imp_left .symm)).symm⟩

/-- Where an edge spans a point, it is met straight above or below it. -/
theorem Spans.onSegment (spans : Spans u v p) :
    (⟨p.x, level u v p.x⟩ : Vertex ℚ).OnSegment u v := by
  have ordered {a b : Vertex ℚ} (left : a.x < p.x) (right : p.x ≤ b.x) :
      (⟨p.x, level a b p.x⟩ : Vertex ℚ).OnSegment a b :=
    onSegment_of_level (left.trans_le right) left.le right rfl
  rcases spans.cases with ⟨left, right⟩ | ⟨left, right⟩
  · exact ordered left right
  · rw [← level_swap spans.wide]
    exact (ordered left right).symm

/-! ## Beneath the way -/

/-- Between the ends of a way, the left one included, and further down than the way is there. -/
def Beneath (p q v : Vertex ℚ) : Prop :=
  ¬(v.x < p.x ↔ v.x < q.x) ∧ 0 < (q.x - p.x) * turn p q v

instance : Decidable (Beneath p q v) := inferInstanceAs (Decidable (_ ∧ _))

theorem beneath_comm : Beneath p q v ↔ Beneath q p v := by
  have same : (p.x - q.x) * turn q p v = (q.x - p.x) * turn p q v := by
    rw [turn_swap p q]
    ring
  rw [Beneath, Beneath, same, iff_comm (a := v.x < p.x)]

theorem beneath_iff_level (slanted : p.x < q.x) :
    Beneath p q v ↔ (p.x ≤ v.x ∧ v.x < q.x) ∧ level p q v.x < v.z := by
  have width := sub_pos.mpr slanted
  have between : ¬(v.x < p.x ↔ v.x < q.x) ↔ p.x ≤ v.x ∧ v.x < q.x := by
    rw [← not_lt (a := v.x)]
    have := fun left : v.x < p.x => left.trans slanted
    tauto
  rw [Beneath, between, turn_eq_level slanted, mul_pos_iff_of_pos_left width,
    mul_pos_iff_of_pos_left width, sub_pos]

theorem not_beneath_of_upright (upright : p.x = q.x) : ¬Beneath p q v :=
  fun beneath => beneath.1 (by rw [upright])

/-! ## One edge -/

/-- No point is on both segments. -/
def Apart (p q u v : Vertex ℚ) : Prop := ∀ r : Vertex ℚ, r.OnSegment p q → ¬r.OnSegment u v

theorem Apart.symm (apart : Apart p q u v) : Apart q p u v := fun r on => apart r on.symm

theorem Apart.reverse (apart : Apart p q u v) : Apart p q v u := fun r on on' =>
  apart r on on'.symm

/-- Lines that do not meet over a range run one above the other all along. -/
theorem level_lt_iff_of_apart (range : x ≤ y)
    (apart : ∀ w, x ≤ w → w ≤ y → level p q w ≠ level u v w) :
    level p q x < level u v x ↔ level p q y < level u v y := by
  by_contra differ
  have atX := apart x (le_refl x) range
  have atY := apart y range (le_refl y)
  have opposed : oppose (level u v x - level p q x) (level u v y - level p q y) = true := by
    rw [oppose_iff, sub_pos, sub_neg, sub_neg, sub_pos]
    rcases lt_or_gt_of_ne atX with less | greater <;> rcases lt_or_gt_of_ne atY with less' | greater'
    · exact absurd (iff_of_true less less') differ
    · exact .inl ⟨less, greater'⟩
    · exact .inr ⟨greater, less'⟩
    · exact absurd (iff_of_false greater.not_gt greater'.not_gt) differ
  obtain ⟨ne, nonneg, le_one⟩ := zero_between opposed
  have width := sub_nonneg.mpr range
  refine apart _ (le_add_of_nonneg_right (mul_nonneg nonneg width)) ?_ ?_
  · linarith [mul_nonneg (sub_nonneg.mpr le_one) width]
  · rw [level_of_proportion, level_of_proportion]
    linear_combination div_mul_cancel₀ (level u v x - level p q x) ne

/-- The edge begins at the left end of the range, or reaches it at the point that moves; either way
it counts there if it runs below the way. -/
theorem level_changes_left (way : p.x < q.x) (slanted : u.x < v.x) (reach : p.x ≤ v.x)
    (reach' : u.x < q.x) : ¬(PassesBelow u v p ↔ Beneath p q u) ↔
      level p q (max u.x p.x) < level u v (max u.x p.x) := by
  rw [passesBelow_iff_level slanted, beneath_iff_level way]
  rcases lt_or_ge u.x p.x with left | inner
  · rw [max_eq_right left.le, level_start]
    simp only [left, reach, left.not_ge, and_self, true_and, false_and, iff_false, not_not]
  · rw [max_eq_left inner, level_start]
    simp only [inner, reach', inner.not_gt, and_self, true_and, false_and, false_iff, not_not]

theorem level_changes_right (way : p.x < q.x) (slanted : u.x < v.x) (reach : p.x ≤ v.x)
    (reach' : u.x < q.x) : ¬(PassesBelow u v q ↔ Beneath p q v) ↔
      level p q (min v.x q.x) < level u v (min v.x q.x) := by
  rw [passesBelow_iff_level slanted, beneath_iff_level way]
  rcases lt_or_ge v.x q.x with inner | right
  · rw [min_eq_left inner.le, level_end slanted]
    simp only [inner, reach, inner.not_ge, and_self, and_false, true_and, false_and, false_iff,
      not_not]
  · rw [min_eq_right right, level_end way]
    simp only [right, reach', right.not_gt, and_self, and_false, true_and, false_and, iff_false,
      not_not]

/-- A slanted way and a slanted edge. -/
theorem changes_of_slanted (way : p.x < q.x) (slanted : u.x < v.x) (apart : Apart p q u v) :
    (PassesBelow u v p ↔ PassesBelow u v q) ↔ (Beneath p q u ↔ Beneath p q v) := by
  rcases lt_or_ge v.x p.x with before | reach
  · -- the edge ends before the way begins
    have spans : ∀ w : Vertex ℚ, v.x < w.x → ¬PassesBelow u v w := fun w beyond below =>
      below.spans (iff_of_true (slanted.trans beyond) beyond)
    have between : ∀ w : Vertex ℚ, w.x < p.x → ¬Beneath p q w := fun w left beneath =>
      beneath.1 (iff_of_true left (left.trans way))
    exact iff_of_true (iff_of_false (spans p before) (spans q (before.trans way)))
      (iff_of_false (between u (slanted.trans before)) (between v before))
  rcases lt_or_ge u.x q.x with reach' | beyond
  · -- the edge and the way have a range in common
    have range : max u.x p.x ≤ min v.x q.x :=
      max_le (le_min slanted.le reach'.le) (le_min reach way.le)
    have same := level_lt_iff_of_apart (p := p) (q := q) (u := u) (v := v) range
      fun x low high meet => by
        obtain ⟨ux, px⟩ := max_le_iff.mp low
        obtain ⟨xv, xq⟩ := le_min_iff.mp high
        exact apart ⟨x, level p q x⟩ (onSegment_of_level way px xq rfl)
          (onSegment_of_level slanted ux xv meet)
    have ends : ¬(PassesBelow u v p ↔ Beneath p q u) ↔ ¬(PassesBelow u v q ↔ Beneath p q v) :=
      (level_changes_left way slanted reach reach').trans
        (same.trans (level_changes_right way slanted reach reach').symm)
    clear * - ends
    tauto
  · -- the edge begins beyond the way
    have spans : ∀ w : Vertex ℚ, w.x ≤ u.x → ¬PassesBelow u v w := fun w before below =>
      below.spans (iff_of_false before.not_gt (before.trans slanted.le).not_gt)
    have between : ∀ w : Vertex ℚ, q.x ≤ w.x → ¬Beneath p q w := fun w right beneath =>
      beneath.1 (iff_of_false (way.le.trans right).not_gt right.not_gt)
    exact iff_of_true (iff_of_false (spans p (way.le.trans beyond)) (spans q beyond))
      (iff_of_false (between u beyond) (between v (beyond.trans slanted.le)))

/-- Straight down or up, a point gets below an edge only across it. -/
theorem PassesBelow.of_upright (upright : p.x = q.x) (slanted : u.x < v.x)
    (apart : Apart p q u v) (below : PassesBelow u v p) : PassesBelow u v q := by
  rw [passesBelow_iff_level slanted] at below ⊢
  rw [← upright]
  obtain ⟨⟨left, right⟩, under⟩ := below
  refine ⟨⟨left, right⟩, ?_⟩
  by_contra! above
  exact apart ⟨p.x, level u v p.x⟩ (Vertex.onSegment_of_upright upright rfl under.le above)
    (onSegment_of_level slanted left.le right rfl)

/-- An upright edge leaves what lies beneath the way only across the way. -/
theorem Beneath.of_upright (upright : u.x = v.x) (way : p.x < q.x) (apart : Apart p q u v)
    (beneath : Beneath p q u) : Beneath p q v := by
  rw [beneath_iff_level way] at beneath ⊢
  rw [← upright]
  obtain ⟨⟨left, right⟩, further⟩ := beneath
  refine ⟨⟨left, right⟩, ?_⟩
  by_contra! above
  let meet : Vertex ℚ := ⟨u.x, level p q u.x⟩
  have on : meet.OnSegment v u :=
    Vertex.onSegment_of_upright upright.symm upright above further.le
  exact apart meet (onSegment_of_level way left right.le rfl) on.symm

theorem changes_of_ordered (way : p.x ≤ q.x) (edge : u.x ≤ v.x) (apart : Apart p q u v) :
    (PassesBelow u v p ↔ PassesBelow u v q) ↔ (Beneath p q u ↔ Beneath p q v) := by
  rcases way.lt_or_eq with way | uprightWay <;> rcases edge.lt_or_eq with slanted | upright
  · exact changes_of_slanted way slanted apart
  · have same : Beneath p q u ↔ Beneath p q v :=
      ⟨.of_upright upright way apart, .of_upright upright.symm way apart.reverse⟩
    exact iff_of_true (iff_of_false (not_passesBelow_of_upright upright)
      (not_passesBelow_of_upright upright)) same
  · have same : PassesBelow u v p ↔ PassesBelow u v q :=
      ⟨.of_upright uprightWay slanted apart, .of_upright uprightWay.symm slanted apart.symm⟩
    exact iff_of_true same (iff_of_false (not_beneath_of_upright uprightWay)
      (not_beneath_of_upright uprightWay))
  · exact iff_of_true (iff_of_false (not_passesBelow_of_upright upright)
      (not_passesBelow_of_upright upright)) (iff_of_false (not_beneath_of_upright uprightWay)
        (not_beneath_of_upright uprightWay))

/-- An edge that the way does not meet passes below the one end and not below the other just if one
end of the edge lies beneath the way and the other does not. -/
theorem passesBelow_changes_iff (apart : Apart p q u v) :
    (PassesBelow u v p ↔ PassesBelow u v q) ↔ (Beneath p q u ↔ Beneath p q v) := by
  rcases le_total p.x q.x with way | way <;> rcases le_total u.x v.x with edge | edge
  · exact changes_of_ordered way edge apart
  · rw [passesBelow_comm (p := p), passesBelow_comm (p := q), iff_comm (a := Beneath p q u)]
    exact changes_of_ordered way edge apart.reverse
  · rw [iff_comm (a := PassesBelow u v p), beneath_comm, beneath_comm (v := v)]
    exact changes_of_ordered way edge apart.symm
  · rw [passesBelow_comm (p := p), passesBelow_comm (p := q), iff_comm (a := PassesBelow v u p),
      beneath_comm, beneath_comm (v := v), iff_comm (a := Beneath q p u)]
    exact changes_of_ordered way edge apart.symm.reverse

/-! ## All edges -/

/-- Two tests are passed as often together as just one of them is, up to an even number. -/
theorem countP_add_countP {β : Type} (l : List β) (f g : β → Bool) :
    (l.countP f + l.countP g) % 2 = l.countP (fun b => f b != g b) % 2 := by
  induction l with
  | nil => rfl
  | cons b l ih =>
    simp only [List.countP_cons]
    cases f b <;> cases g b <;> simp <;> omega

/-- As many edges pass below the one end of a way that meets none as below the other, up to an even
number. -/
theorem odd_crossings_iff_of_apart (apart : ∀ e ∈ f.edges, Apart p q e.1 e.2) :
    Odd (crossings p f.edges) ↔ Odd (crossings q f.edges) := by
  have changes := f.even_changes fun v => decide (Beneath p q v)
  have same : f.edges.countP (fun e => decide (Beneath p q e.1) != decide (Beneath p q e.2)) =
      f.edges.countP fun e =>
        decide (passing p e.1 e.2 = .below) != decide (passing q e.1 e.2 = .below) := by
    refine List.countP_congr fun e he => ?_
    rw [bne_iff_ne, bne_iff_ne, ne_eq, ne_eq, decide_eq_decide, decide_eq_decide,
      passing_eq_below_iff, passing_eq_below_iff, passesBelow_changes_iff (apart e he)]
  rw [same, Nat.even_iff, ← countP_add_countP] at changes
  simp only [Nat.odd_iff, crossings]
  omega

/-- A footprint encloses both ends of a way that meets none of its edges, or neither. -/
theorem encloses_eq_of_apart (apart : ∀ e ∈ f.edges, Apart p q e.1 e.2) :
    f.encloses p = f.encloses q := by
  have off : ¬f.OnOutline p := fun ⟨e, he, on⟩ =>
    apart e he p (Vertex.onSegment_start p q) on
  have off' : ¬f.OnOutline q := fun ⟨e, he, on⟩ =>
    apart e he q (Vertex.onSegment_end p q) on
  rw [Bool.eq_iff_iff, encloses_iff_of_off off, encloses_iff_of_off off']
  exact odd_crossings_iff_of_apart apart

end Enclave.Footprint
