import Enclave.Geometry.Shape
import Enclave.Proofs.Geometry.Enclosure

/-!
# How shapes meet

Two shapes overlap when their boxes meet and, unless both are cuboids, their footprints do: a vertex
of one lies in the other, or an edge of one touches an edge of the other. The order in which the
shapes are named makes no difference (`Shape.intersects_either_way`).

Nothing is asked of the coordinates for that. Sums and products may be rounded, overflow or be no
numbers: both orders take the same turns between the same corners and compare the same coordinates
(`Footprint.segmentsTouch_comm`), and only the order of the answers differs.

Over exact coordinates, two segments touch just if they have a point in common (`Footprint.segmentsTouch_iff`). What is
computed is four turns, of the ends of each segment about the other. If both pairs have opposite
signs the segments cross, at a point that divides each of them as its turns do
(`Footprint.exists_crossing`). Otherwise an end of one lies on the other; where the segments share a
line, or are points, that takes an argument of its own (`Footprint.exists_end_of_common_line`): a
point of a line is known by how far along it is (`Vertex.along`), and of two ranges of numbers that
have a number in common one has an end in the other.

So edges of two footprints touch just if their outlines have a point in common
(`Footprint.edgesTouch_iff_outlines`).
-/

namespace Enclave

/-! ## Either way -/

section Exchange

variable {α : Type} [Coordinate α]

theorem Box.intersects_comm (b c : Box α) : b.intersects c = c.intersects b := by
  unfold intersects
  ac_rfl

namespace Footprint

/-- The four turns change places in pairs: those of the ends of the one segment about the other with
those of the ends of the other about the one. -/
theorem segmentsTouch_comm (p p' q q' : Vertex α) :
    segmentsTouch p p' q q' = segmentsTouch q q' p p' := by
  unfold segmentsTouch
  dsimp only
  ac_rfl

theorem edgesTouch_iff {f g : Footprint α} : edgesTouch f g = true ↔
    ∃ e ∈ f.edges, ∃ d ∈ g.edges, segmentsTouch e.1 e.2 d.1 d.2 = true := by
  simp only [edgesTouch, List.any_eq_true]

theorem edgesTouch_comm (f g : Footprint α) : edgesTouch f g = edgesTouch g f := by
  rw [Bool.eq_iff_iff, edgesTouch_iff, edgesTouch_iff]
  constructor
  · rintro ⟨e, he, d, hd, touch⟩
    exact ⟨d, hd, e, he, segmentsTouch_comm e.1 e.2 d.1 d.2 ▸ touch⟩
  · rintro ⟨d, hd, e, he, touch⟩
    exact ⟨e, he, d, hd, segmentsTouch_comm d.1 d.2 e.1 e.2 ▸ touch⟩

theorem overlaps_comm (f g : Footprint α) : overlaps f g = overlaps g f := by
  unfold overlaps
  rw [edgesTouch_comm f g, Bool.or_comm (f.any _)]

end Footprint

namespace Shape

omit [Coordinate α] in
theorem bothCuboids_comm (s t : Shape α) : bothCuboids s t = bothCuboids t s := by
  cases s <;> cases t <;> rfl

/-- Whether two shapes overlap does not depend on which of them is named first. -/
theorem intersects_either_way (s t : Shape α) : s.intersects t = t.intersects s := by
  unfold intersects
  cases hs : s.bounds? with
  | none => cases t.bounds? <;> rfl
  | some b =>
    cases ht : t.bounds? with
    | none => rfl
    | some c =>
      dsimp only
      rw [b.intersects_comm c, bothCuboids_comm s t, Footprint.overlaps_comm]

end Shape

end Exchange

/-! ## Along a line -/

namespace Vertex

variable {p q r u v : Vertex ℚ} {a b c : ℚ}

/-- The point of the line from `u` to `v` that is so many times as far from `u` as `v` is. -/
def along (u v : Vertex ℚ) (a : ℚ) : Vertex ℚ := ⟨u.x + a * (v.x - u.x), u.z + a * (v.z - u.z)⟩

theorem along_zero (u v : Vertex ℚ) : along u v 0 = u := by
  simp only [along, zero_mul, add_zero]

theorem along_one (u v : Vertex ℚ) : along u v 1 = v := by
  simp only [along, one_mul, add_sub_cancel]

theorem onSegment_iff_along : p.OnSegment u v ↔ ∃ t : ℚ, 0 ≤ t ∧ t ≤ 1 ∧ p = along u v t := by
  constructor
  · rintro ⟨t, nonneg, le_one, hx, hz⟩
    exact ⟨t, nonneg, le_one, eq_of_coordinates hx hz⟩
  · rintro ⟨t, nonneg, le_one, rfl⟩
    exact ⟨t, nonneg, le_one, rfl, rfl⟩

theorem along_along (u v : Vertex ℚ) (a c t : ℚ) :
    along (along u v a) (along u v c) t = along u v (a + t * (c - a)) := by
  simp only [along]
  exact eq_of_coordinates (by ring) (by ring)

/-- Of three points of a line the middle one lies between the others. -/
theorem onSegment_along (low : a ≤ b) (high : b ≤ c) :
    (along u v b).OnSegment (along u v a) (along u v c) := by
  obtain ⟨t, nonneg, le_one, rfl⟩ := exists_proportion low high
  exact onSegment_iff_along.mpr ⟨t, nonneg, le_one, (along_along u v a c t).symm⟩

theorem along_injective (ne : u ≠ v) : Function.Injective (along u v) := by
  intro a b same
  obtain ⟨hx, hz⟩ := Vertex.mk.inj same
  by_contra differ
  have apart : a - b ≠ 0 := sub_ne_zero.mpr differ
  have sameX : (a - b) * (v.x - u.x) = 0 := by linear_combination hx
  have sameZ : (a - b) * (v.z - u.z) = 0 := by linear_combination hz
  exact ne (eq_of_coordinates
    (sub_eq_zero.mp ((mul_eq_zero.mp sameX).resolve_left apart)).symm
    (sub_eq_zero.mp ((mul_eq_zero.mp sameZ).resolve_left apart)).symm)

/-- Every point to which a line does not turn is somewhere along it. -/
theorem exists_along (ne : u ≠ v) (line : Footprint.turn u v p = 0) : ∃ a, p = along u v a := by
  rw [Footprint.turn_eq] at line
  by_cases upright : v.x - u.x = 0
  · have height : v.z - u.z ≠ 0 := fun flat =>
      ne (eq_of_coordinates (sub_eq_zero.mp upright).symm (sub_eq_zero.mp flat).symm)
    rw [upright, zero_mul, zero_sub, neg_eq_zero] at line
    have same := (mul_eq_zero.mp line).resolve_left height
    refine ⟨(p.z - u.z) / (v.z - u.z), eq_of_coordinates ?_ ?_⟩
    · show p.x = u.x + _ * (v.x - u.x)
      rw [upright, mul_zero, add_zero, sub_eq_zero.mp same]
    · show p.z = u.z + _ * (v.z - u.z)
      rw [div_mul_cancel₀ _ height, add_sub_cancel]
  · have part := div_mul_cancel₀ (p.x - u.x) upright
    refine ⟨(p.x - u.x) / (v.x - u.x), eq_of_coordinates ?_ ?_⟩
    · show p.x = u.x + _ * (v.x - u.x)
      rw [part, add_sub_cancel]
    · apply mul_left_cancel₀ upright
      show (v.x - u.x) * p.z = (v.x - u.x) * (u.z + _ * (v.z - u.z))
      linear_combination line - (v.z - u.z) * part

end Vertex

namespace Footprint

open Vertex

variable {p p' q q' r u v : Vertex ℚ}

/-! ## Crossing -/

/-- The turn to a point of a segment lies between those to its ends, in the same proportion. -/
theorem turn_along (u v p p' : Vertex ℚ) (t : ℚ) :
    turn u v (along p p' t) = (1 - t) * turn u v p + t * turn u v p' := by
  simp only [turn_eq, along]
  ring

/-- The turns differ as much on the one segment as on the other, the other way round. -/
theorem turn_sub_turn (p p' q q' : Vertex ℚ) :
    turn p p' q - turn p p' q' = -(turn q q' p - turn q q' p') := by
  simp only [turn_eq]
  ring

theorem oppose_iff {a b : ℚ} : oppose a b = true ↔ (0 < a ∧ b < 0) ∨ (a < 0 ∧ 0 < b) := by
  have zero : (Coordinate.zero : ℚ) = 0 := rfl
  simp only [oppose, zero, Bool.or_eq_true, Bool.and_eq_true, decide_eq_true_eq]

/-- Numbers of opposite signs have zero between them, where it divides their distance as they do. -/
theorem zero_between {a b : ℚ} (opposed : oppose a b = true) :
    a - b ≠ 0 ∧ 0 ≤ a / (a - b) ∧ a / (a - b) ≤ 1 := by
  rcases oppose_iff.mp opposed with ⟨ha, hb⟩ | ⟨ha, hb⟩
  · have apart : 0 < a - b := by linarith
    refine ⟨apart.ne', div_nonneg ha.le apart.le, ?_⟩
    rw [div_le_one apart]
    linarith
  · have apart : a - b < 0 := by linarith
    refine ⟨apart.ne, div_nonneg_of_nonpos ha.le apart.le, ?_⟩
    rw [div_le_one_of_neg apart]
    linarith

/-- Segments whose ends lie to both sides of each other have a point in common. -/
theorem exists_crossing (opposed : oppose (turn q q' p) (turn q q' p') = true)
    (opposed' : oppose (turn p p' q) (turn p p' q') = true) :
    ∃ r : Vertex ℚ, r.OnSegment p p' ∧ r.OnSegment q q' := by
  obtain ⟨apart, nonneg, le_one⟩ := zero_between opposed
  obtain ⟨apart', nonneg', le_one'⟩ := zero_between opposed'
  let t := turn q q' p / (turn q q' p - turn q q' p')
  let s := turn p p' q / (turn p p' q - turn p p' q')
  have ht : t * (turn q q' p - turn q q' p') = turn q q' p := div_mul_cancel₀ _ apart
  have hs : s * (turn p p' q - turn p p' q') = turn p p' q := div_mul_cancel₀ _ apart'
  rw [turn_sub_turn] at hs
  have hx : (turn q q' p - turn q q' p') * (q.x - p.x) =
      turn q q' p * (p'.x - p.x) + turn p p' q * (q'.x - q.x) := by
    simp only [turn_eq]
    ring
  have hz : (turn q q' p - turn q q' p') * (q.z - p.z) =
      turn q q' p * (p'.z - p.z) + turn p p' q * (q'.z - q.z) := by
    simp only [turn_eq]
    ring
  have meet : along p p' t = along q q' s := by
    refine eq_of_coordinates (mul_left_cancel₀ apart ?_) (mul_left_cancel₀ apart ?_)
    · simp only [along]
      linear_combination (p'.x - p.x) * ht + (q'.x - q.x) * hs - hx
    · simp only [along]
      linear_combination (p'.z - p.z) * ht + (q'.z - q.z) * hs - hz
  exact ⟨along p p' t, onSegment_iff_along.mpr ⟨t, nonneg, le_one, rfl⟩,
    onSegment_iff_along.mpr ⟨s, nonneg', le_one', meet⟩⟩

/-! ## Touching -/

/-- Segments touch where they cross, or where an end of one lies on the other. -/
theorem segmentsTouch_iff_ends : segmentsTouch p p' q q' = true ↔
    (oppose (turn q q' p) (turn q q' p') = true ∧ oppose (turn p p' q) (turn p p' q') = true) ∨
      p.OnSegment q q' ∨ p'.OnSegment q q' ∨ q.OnSegment p p' ∨ q'.OnSegment p p' := by
  have zero : (Coordinate.zero : ℚ) = 0 := rfl
  simp only [segmentsTouch, zero, Bool.or_eq_true, Bool.and_eq_true, beq_iff_eq, onSegment_iff,
    or_assoc]

/-- Of two segments of one line that have a point in common, an end of one lies on the other. -/
theorem exists_end_of_common_line (hp : turn q q' p = 0) (hp' : turn q q' p' = 0)
    (on : r.OnSegment p p') (on' : r.OnSegment q q') :
    p.OnSegment q q' ∨ p'.OnSegment q q' ∨ q.OnSegment p p' ∨ q'.OnSegment p p' := by
  obtain ⟨s, nonneg, le_one, hs⟩ := onSegment_iff_along.mp on'
  by_cases point : q = q'
  · have same : r = q := by
      rw [hs, ← point]
      exact eq_of_coordinates (by simp [along]) (by simp [along])
    exact .inr (.inr (.inl (same ▸ on)))
  obtain ⟨a, rfl⟩ := exists_along point hp
  obtain ⟨b, rfl⟩ := exists_along point hp'
  have start := along_zero q q'
  have finish := along_one q q'
  -- the common point is as far along the line for the one segment as for the other
  have between : min a b ≤ s ∧ s ≤ max a b := by
    obtain ⟨t, ht, ht', hr⟩ := onSegment_iff_along.mp on
    rw [along_along] at hr
    rw [along_injective point (hs.symm.trans hr)]
    exact between_of_proportion ht ht'
  rcases lt_or_ge a 0 with before | after
  · have reached : 0 ≤ b := by
      by_contra! short
      exact (max_lt before short).not_ge (nonneg.trans between.2)
    have on := onSegment_along (u := q) (v := q') before.le reached
    rw [start] at on
    exact .inr (.inr (.inl on))
  rcases lt_or_ge 1 a with beyond | notBeyond
  · have reached : b ≤ 1 := by
      by_contra! short
      exact (lt_min beyond short).not_ge (between.1.trans le_one)
    have on := onSegment_along (u := q) (v := q') reached beyond.le
    rw [finish] at on
    exact .inr (.inr (.inr on.symm))
  · have on := onSegment_along (u := q) (v := q') after notBeyond
    rw [start, finish] at on
    exact .inl on

/-- A segment that meets a line crosses it, or meets it in an end only, or runs along it. -/
theorem meets_line (on : r.OnSegment p p') (line : turn u v r = 0) :
    oppose (turn u v p) (turn u v p') = true ∨ r = p ∨ r = p' ∨
      (turn u v p = 0 ∧ turn u v p' = 0) := by
  by_cases start : r = p
  · exact .inr (.inl start)
  by_cases finish : r = p'
  · exact .inr (.inr (.inl finish))
  obtain ⟨t, pos, lt_one, hx, hz⟩ := on.proper start finish
  obtain rfl : r = along p p' t := eq_of_coordinates hx hz
  rw [turn_along] at line
  have rest : 0 < 1 - t := sub_pos.mpr lt_one
  rcases lt_trichotomy (turn u v p) 0 with neg | zero | positive
  · have other : 0 < t * turn u v p' := by linarith [mul_neg_of_pos_of_neg rest neg]
    exact .inl (oppose_iff.mpr (.inr ⟨neg, (mul_pos_iff_of_pos_left pos).mp other⟩))
  · have other : t * turn u v p' = 0 := by
      rw [zero] at line
      linarith
    exact .inr (.inr (.inr ⟨zero, (mul_eq_zero.mp other).resolve_left pos.ne'⟩))
  · have other : t * turn u v p' < 0 := by linarith [mul_pos rest positive]
    exact .inl (oppose_iff.mpr (.inl ⟨positive, neg_of_mul_neg_right other pos.le⟩))

/-- Segments touch just if they have a point in common. -/
theorem segmentsTouch_iff :
    segmentsTouch p p' q q' = true ↔ ∃ r : Vertex ℚ, r.OnSegment p p' ∧ r.OnSegment q q' := by
  rw [segmentsTouch_iff_ends]
  constructor
  · rintro (⟨opposed, opposed'⟩ | on | on | on | on)
    · exact exists_crossing opposed opposed'
    · exact ⟨p, onSegment_start p p', on⟩
    · exact ⟨p', onSegment_end p p', on⟩
    · exact ⟨q, on, onSegment_start q q'⟩
    · exact ⟨q', on, onSegment_end q q'⟩
  · rintro ⟨r, on, on'⟩
    rcases meets_line on (onSegment_iff.mp on').1 with opposed | rfl | rfl | ⟨hp, hp'⟩
    · rcases meets_line on' (onSegment_iff.mp on).1 with opposed' | rfl | rfl | ⟨hq, hq'⟩
      · exact .inl ⟨opposed, opposed'⟩
      · exact .inr (.inr (.inr (.inl on)))
      · exact .inr (.inr (.inr (.inr on)))
      · -- the turns differ on the one segment, and so they do on the other
        have differ := (zero_between opposed).1
        have same := turn_sub_turn p p' q q'
        rw [hq, hq', sub_self, zero_eq_neg] at same
        exact absurd same differ
    · exact .inr (.inl on')
    · exact .inr (.inr (.inl on'))
    · exact .inr (exists_end_of_common_line hp hp' on on')

/-- Edges of two footprints touch just if their outlines have a point in common. -/
theorem edgesTouch_iff_outlines {f g : Footprint ℚ} :
    edgesTouch f g = true ↔ ∃ r, f.OnOutline r ∧ g.OnOutline r := by
  rw [edgesTouch_iff]
  constructor
  · rintro ⟨e, he, d, hd, touch⟩
    obtain ⟨r, on, on'⟩ := segmentsTouch_iff.mp touch
    exact ⟨r, ⟨e, he, on⟩, d, hd, on'⟩
  · rintro ⟨r, ⟨e, he, on⟩, d, hd, on'⟩
    exact ⟨e, he, d, hd, segmentsTouch_iff.mpr ⟨r, on, on'⟩⟩

end Footprint

end Enclave
