import Mathlib.Algebra.BigOperators.Group.List.Basic
import Enclave.Proofs.Geometry.Extent
import Enclave.Proofs.Geometry.Shape

/-!
# Rectangles

The outline of a box encloses what lies between its sides, and the box may be flat
(`Box.encloses_footprint_iff`). So all sound shapes are told by their footprints: a shape contains the
points between its heights that its footprint encloses (`Shape.contains_iff`).

A polygon over the four corners of a box, from one height of the box to the other, is the box drawn
in another way: listed from any corner and in either direction it is sound, contains the same points
and has the same bounds (`Box.redrawn`).
-/

namespace Enclave

/-! ## The same line, listed in another way -/

namespace Footprint

/-- The same closed line, listed from any of its vertices and in either direction. -/
def Retraces {α : Type} (f g : Footprint α) : Prop := f.IsRotated g ∨ f.reverse.IsRotated g

/-- The edges are the same, or the same with their ends exchanged. -/
theorem Retraces.edges_perm {α : Type} {f g : Footprint α} (h : f.Retraces g) :
    g.edges.Perm f.edges ∨ g.edges.Perm (f.edges.map Prod.swap) := by
  rcases h with ⟨k, rfl⟩ | ⟨k, rfl⟩
  · exact .inl (edges_rotate_perm f k)
  · exact .inr ((edges_rotate_perm f.reverse k).trans (edges_reverse_perm f))

theorem Retraces.perm {α : Type} {f g : Footprint α} (h : f.Retraces g) : f.Perm g :=
  h.elim (·.perm) fun h => (List.reverse_perm f).symm.trans h.perm

variable {f g : Footprint ℚ} {p : Vertex ℚ}

theorem Retraces.encloses_eq (h : f.Retraces g) : g.encloses p = f.encloses p :=
  h.edges_perm.elim encloses_of_perm encloses_of_perm_swap

/-- What an edge adds to twice the area. -/
def swept (e : Vertex ℚ × Vertex ℚ) : ℚ := e.1.x * e.2.z - e.2.x * e.1.z

theorem signedArea_eq (f : Footprint ℚ) : f.signedArea = (f.edges.map swept).sum / 2 := by
  rw [List.sum_eq_foldl, List.foldl_map]
  rfl

theorem sum_swept_swap (edges : List (Vertex ℚ × Vertex ℚ)) :
    ((edges.map Prod.swap).map swept).sum = -(edges.map swept).sum := by
  rw [List.sum_neg, List.map_map, List.map_map]
  congr 1
  refine List.map_congr_left fun e _ => ?_
  simp only [Function.comp_apply, swept, Prod.fst_swap, Prod.snd_swap, neg_sub]

/-- The area has the other sign if the line is run the other way round. -/
theorem Retraces.signedArea_eq (h : f.Retraces g) :
    g.signedArea = f.signedArea ∨ g.signedArea = -f.signedArea := by
  rw [Footprint.signedArea_eq, Footprint.signedArea_eq]
  rcases h.edges_perm with perm | perm
  · exact .inl (by rw [(perm.map swept).sum_eq])
  · exact .inr (by rw [(perm.map swept).sum_eq, sum_swept_swap, neg_div])

end Footprint

/-! ## Boxes on the ground -/

namespace Box

variable {b : Box ℚ} {p : Vertex ℚ}

/-- The edges of a box on the ground, from its low corner on. -/
theorem edges_footprint (b : Box ℚ) : Footprint.edges (Shape.cuboid b).footprint =
    [(⟨b.lo.x, b.lo.z⟩, ⟨b.hi.x, b.lo.z⟩), (⟨b.hi.x, b.lo.z⟩, ⟨b.hi.x, b.hi.z⟩),
      (⟨b.hi.x, b.hi.z⟩, ⟨b.lo.x, b.hi.z⟩), (⟨b.lo.x, b.hi.z⟩, ⟨b.lo.x, b.lo.z⟩)] := rfl

theorem between_of_mem_footprint (wide : b.lo.x ≤ b.hi.x) (deep : b.lo.z ≤ b.hi.z) :
    ∀ v ∈ (Shape.cuboid b).footprint,
      (b.lo.x ≤ v.x ∧ v.x ≤ b.hi.x) ∧ b.lo.z ≤ v.z ∧ v.z ≤ b.hi.z := by
  simp [Shape.footprint, wide, deep]

/-- Of the four edges only the far one, where `z` is greatest, passes below a point of the box. -/
theorem crossings_footprint (left : b.lo.x < p.x) (right : p.x ≤ b.hi.x) (above : b.lo.z ≤ p.z)
    (below : p.z < b.hi.z) :
    Footprint.crossings p (Footprint.edges (Shape.cuboid b).footprint) = 1 := by
  have near : ¬Footprint.PassesBelow ⟨b.lo.x, b.lo.z⟩ ⟨b.hi.x, b.lo.z⟩ p := fun h =>
    h.lt_or_lt.elim above.not_gt above.not_gt
  have upright : ∀ x z z' : ℚ, ¬Footprint.PassesBelow ⟨x, z⟩ ⟨x, z'⟩ p := fun _ _ _ h =>
    h.spans Iff.rfl
  have spans : Footprint.Spans ⟨b.hi.x, b.hi.z⟩ ⟨b.lo.x, b.hi.z⟩ p := fun both =>
    right.not_gt (both.mpr left)
  have far := spans.passesBelow below below
  simp [Footprint.crossings, edges_footprint, Footprint.passing_eq_below_iff, near, far, upright]

/-- The outline of a box encloses what lies between its sides. -/
theorem encloses_footprint_iff (wide : b.lo.x ≤ b.hi.x) (deep : b.lo.z ≤ b.hi.z) :
    Footprint.encloses (Shape.cuboid b).footprint p = true ↔
      (b.lo.x ≤ p.x ∧ p.x ≤ b.hi.x) ∧ b.lo.z ≤ p.z ∧ p.z ≤ b.hi.z := by
  constructor
  · intro enclosed
    obtain ⟨⟨l, hl, left⟩, ⟨r, hr, right⟩, ⟨a, ha, above⟩, c, hc, below⟩ :=
      Footprint.amid_of_encloses enclosed
    have sides := between_of_mem_footprint wide deep
    exact ⟨⟨(sides l hl).1.1.trans left, right.trans (sides r hr).1.2⟩,
      (sides a ha).2.1.trans above, below.trans (sides c hc).2.2⟩
  · rintro ⟨⟨left, right⟩, above, below⟩
    rw [Footprint.encloses_iff]
    rcases left.eq_or_lt with onLeft | left
    · have on : p.OnSegment ⟨b.lo.x, b.lo.z⟩ ⟨b.lo.x, b.hi.z⟩ :=
        Vertex.onSegment_of_upright rfl onLeft.symm above below
      exact .inl ⟨(⟨b.lo.x, b.hi.z⟩, ⟨b.lo.x, b.lo.z⟩), by simp [edges_footprint], on.symm⟩
    rcases below.eq_or_lt with onFar | below
    · have line : Footprint.turn ⟨b.lo.x, b.hi.z⟩ ⟨b.hi.x, b.hi.z⟩ p = 0 := by
        rw [Footprint.turn_eq, onFar]
        ring
      have on : p.OnSegment ⟨b.lo.x, b.hi.z⟩ ⟨b.hi.x, b.hi.z⟩ :=
        Vertex.onSegment_of_slanted (left.trans_le right) left.le right line
      exact .inl ⟨(⟨b.hi.x, b.hi.z⟩, ⟨b.lo.x, b.hi.z⟩), by simp [edges_footprint], on.symm⟩
    · exact .inr (crossings_footprint left right above below ▸ odd_one)

/-- With exact coordinates a box is valid if its corners are in order. -/
theorem isValid_exact_iff : b.isValid = true ↔
    b.lo.x ≤ b.hi.x ∧ b.lo.y ≤ b.hi.y ∧ b.lo.z ≤ b.hi.z := by
  rw [isValid_iff, Point.below_iff]
  exact ⟨fun h => h.2.2, fun h => ⟨rfl, rfl, h⟩⟩

theorem Within.eq {b c : Box ℚ} (h : b.Within c) (h' : c.Within b) : b = c := by
  obtain ⟨⟨bx, bY, bz⟩, ⟨bx', bY', bz'⟩⟩ := b
  obtain ⟨⟨cx, cy, cz⟩, ⟨cx', cy', cz'⟩⟩ := c
  obtain ⟨lx, ly, lz⟩ := Point.below_iff.mp h.lo
  obtain ⟨hx, hy, hz⟩ := Point.below_iff.mp h.hi
  obtain ⟨lx', ly', lz'⟩ := Point.below_iff.mp h'.lo
  obtain ⟨hx', hy', hz'⟩ := Point.below_iff.mp h'.hi
  congr <;> apply le_antisymm <;> assumption

end Box

/-! ## Shapes by their footprints -/

theorem Polygon.sound_iff {p : Polygon ℚ} : p.fault? = none ↔
    3 ≤ p.vertices.length ∧ p.bottom ≤ p.top ∧ Footprint.signedArea p.vertices ≠ 0 := by
  have finite : ∀ a : ℚ, (!Coordinate.isFinite a) = false := fun _ => rfl
  have numbers : (p.vertices.any (fun v => !Coordinate.isFinite v.x || !Coordinate.isFinite v.z) ||
      !Coordinate.isFinite p.bottom || !Coordinate.isFinite p.top) = false := by
    simp [finite]
  rw [fault?, numbers]
  constructor
  · intro sound
    split_ifs at sound with few none inverted flat
    exact ⟨not_lt.mp few, not_lt.mp inverted, fun zero => flat (beq_of_eq zero)⟩
  · rintro ⟨enough, ordered, area⟩
    rw [if_neg enough.not_gt, if_neg Bool.false_ne_true, if_neg ordered.not_gt]
    exact if_neg fun flat => area (eq_of_beq flat)

/-- A sound shape contains the points between its heights that its footprint encloses. -/
theorem Shape.contains_iff {s : Shape ℚ} (sound : s.fault? = none) {b : Box ℚ}
    (hb : s.bounds? = some b) {q : Point ℚ} : s.contains q = true ↔
      (b.lo.y ≤ q.y ∧ q.y ≤ b.hi.y) ∧ Footprint.encloses s.footprint ⟨q.x, q.z⟩ = true := by
  cases s with
  | cuboid c =>
    cases hb
    have valid := isValid_bounds? sound rfl
    obtain ⟨wide, -, deep⟩ := Box.isValid_exact_iff.mp valid
    rw [Box.encloses_footprint_iff wide deep]
    simp only [contains, Box.contains_iff, Point.below_iff]
    tauto
  | polygon p =>
    cases hb
    obtain ⟨ne, ordered⟩ := Polygon.sound_rises sound
    rw [contains, Polygon.contains, Bool.and_eq_true]
    refine and_congr_left fun enclosed => ?_
    constructor
    · intro boxed
      rw [Box.contains_iff, Point.below_iff, Point.below_iff] at boxed
      exact ⟨boxed.1.2.1, boxed.2.2.1⟩
    · obtain ⟨lo, hi⟩ := Polygon.bounds_heights ne ordered
      rw [lo, hi]
      rintro ⟨low, high⟩
      exact Polygon.contains_bounds_of_amid ne ordered (Footprint.amid_of_encloses enclosed) low high
  | everywhere => cases hb

/-! ## A box drawn as a polygon -/

namespace Box

variable {b : Box ℚ} {vs : Footprint ℚ}

theorem signedArea_footprint (b : Box ℚ) : Footprint.signedArea (Shape.cuboid b).footprint =
    (b.hi.x - b.lo.x) * (b.hi.z - b.lo.z) := by
  simp only [Footprint.signedArea_eq, edges_footprint, List.map_cons, List.map_nil, List.sum_cons,
    List.sum_nil, Footprint.swept]
  ring

/-- The polygon over the corners of a box is sound unless the box is flat on the ground. -/
theorem sound_of_retraces (wide : b.lo.x < b.hi.x) (deep : b.lo.z < b.hi.z)
    (tall : b.lo.y ≤ b.hi.y) (listed : Footprint.Retraces (Shape.cuboid b).footprint vs) :
    (⟨vs, b.lo.y, b.hi.y⟩ : Polygon ℚ).fault? = none := by
  have area : Footprint.signedArea (Shape.cuboid b).footprint ≠ 0 := by
    rw [signedArea_footprint]
    exact (mul_pos (sub_pos.mpr wide) (sub_pos.mpr deep)).ne'
  have four : vs.length = 4 := listed.perm.length_eq.symm
  refine Polygon.sound_iff.mpr ⟨four.symm ▸ by decide, tall, ?_⟩
  rcases listed.signedArea_eq with same | other
  · rwa [same]
  · rwa [other, neg_ne_zero]

/-- The box over the corners of a box is the box. -/
theorem bounds_of_retraces (wide : b.lo.x ≤ b.hi.x) (deep : b.lo.z ≤ b.hi.z)
    (tall : b.lo.y ≤ b.hi.y) (listed : Footprint.Retraces (Shape.cuboid b).footprint vs) :
    (⟨vs, b.lo.y, b.hi.y⟩ : Polygon ℚ).bounds = b := by
  let p : Polygon ℚ := ⟨vs, b.lo.y, b.hi.y⟩
  have corner (v : Vertex ℚ) : v ∈ vs ↔ v ∈ (Shape.cuboid b).footprint := listed.perm.mem_iff.symm
  have low : (⟨b.lo.x, b.lo.z⟩ : Vertex ℚ) ∈ vs := (corner _).mpr (by simp [Shape.footprint])
  have high : (⟨b.hi.x, b.hi.z⟩ : Vertex ℚ) ∈ vs := (corner _).mpr (by simp [Shape.footprint])
  have cover : p.bounds.IsCover (p.corners.map .ofPoint) :=
    Polygon.isCover_bounds_exact (List.ne_nil_of_mem low)
  apply Within.eq
  · apply cover.least
    intro c hc
    obtain ⟨q, hq, rfl⟩ := List.mem_map.mp hc
    obtain ⟨v, hv, height⟩ := Polygon.mem_corners_iff.mp hq
    obtain ⟨⟨left, right⟩, above, below⟩ :=
      between_of_mem_footprint wide deep v ((corner v).mp hv)
    rcases height with rfl | rfl
    · exact ⟨Point.below_iff.mpr ⟨left, le_refl b.lo.y, above⟩,
        Point.below_iff.mpr ⟨right, tall, below⟩⟩
    · exact ⟨Point.below_iff.mpr ⟨left, tall, above⟩,
        Point.below_iff.mpr ⟨right, le_refl b.hi.y, below⟩⟩
  · have reached : ∀ q ∈ p.corners, (ofPoint q).Within p.bounds := fun q hq =>
      cover.covers _ (List.mem_map_of_mem hq)
    exact ⟨(reached _ (Polygon.mem_corners_iff.mpr ⟨_, low, .inl rfl⟩)).lo,
      (reached _ (Polygon.mem_corners_iff.mpr ⟨_, high, .inr rfl⟩)).hi⟩

/-- A polygon over the corners of a box, listed from any of them and in either direction, and between
the heights of the box is sound, contains the points of the box and has it as its bounds. -/
theorem redrawn (wide : b.lo.x < b.hi.x) (deep : b.lo.z < b.hi.z) (tall : b.lo.y ≤ b.hi.y)
    (listed : Footprint.Retraces (Shape.cuboid b).footprint vs) :
    ∃ p, Polygon.make vs b.lo.y b.hi.y = .ok p ∧
      (∀ q, (Shape.polygon p).contains q = (Shape.cuboid b).contains q) ∧
      (Shape.polygon p).bounds? = (Shape.cuboid b).bounds? := by
  let p : Polygon ℚ := ⟨vs, b.lo.y, b.hi.y⟩
  have sound : p.fault? = none := sound_of_retraces wide deep tall listed
  have bounds : (Shape.polygon p).bounds? = some b :=
    congrArg some (bounds_of_retraces wide.le deep.le tall listed)
  have valid : (Shape.cuboid b).fault? = none := by
    have valid := isValid_exact_iff.mpr ⟨wide.le, tall, deep.le⟩
    rw [Shape.fault?, Option.isNone_iff_eq_none.mp valid, Option.map_none]
  refine ⟨p, Polygon.make_eq_ok_iff.mpr ⟨rfl, sound⟩, fun q => ?_, bounds⟩
  have same : Footprint.encloses vs ⟨q.x, q.z⟩ =
    Footprint.encloses (Shape.cuboid b).footprint ⟨q.x, q.z⟩ := listed.encloses_eq
  rw [Bool.eq_iff_iff, Shape.contains_iff (s := .polygon p) sound bounds,
    Shape.contains_iff valid rfl, ← same]
  rfl

/-- A box of one height, its corners listed backwards from the third: a corner is in it, and what
lies beyond its far side is not. -/
theorem redrawn_of_field : ∃ b : Box ℚ, b = ⟨⟨0, 1, 0⟩, ⟨2, 1, 4⟩⟩ ∧ b.lo.x < b.hi.x ∧
    b.lo.z < b.hi.z ∧ b.lo.y ≤ b.hi.y ∧
    Footprint.Retraces (Shape.cuboid b).footprint [⟨2, 0⟩, ⟨0, 0⟩, ⟨0, 4⟩, ⟨2, 4⟩] ∧
    ∃ p, Polygon.make [⟨2, 0⟩, ⟨0, 0⟩, ⟨0, 4⟩, ⟨2, 4⟩] 1 1 = .ok p ∧
      (Shape.polygon p).contains ⟨2, 1, 4⟩ = true ∧ (Shape.polygon p).contains ⟨2, 1, 5⟩ = false ∧
      (Shape.polygon p).bounds? = some b := by
  let b : Box ℚ := ⟨⟨0, 1, 0⟩, ⟨2, 1, 4⟩⟩
  have wide : b.lo.x < b.hi.x := by decide +kernel
  have deep : b.lo.z < b.hi.z := by decide +kernel
  have tall : b.lo.y ≤ b.hi.y := le_refl 1
  have listed : Footprint.Retraces (Shape.cuboid b).footprint
    [⟨2, 0⟩, ⟨0, 0⟩, ⟨0, 4⟩, ⟨2, 4⟩] := .inr ⟨2, rfl⟩
  obtain ⟨p, made, same, bounds⟩ := redrawn wide deep tall listed
  refine ⟨b, rfl, wide, deep, tall, listed, p, made, ?_, ?_, bounds⟩
  · rw [same]
    decide +kernel
  · rw [same]
    decide +kernel

end Box

end Enclave
