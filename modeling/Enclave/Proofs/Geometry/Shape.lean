import Enclave.Geometry.Shape
import Enclave.Proofs.Geometry.Cover

/-!
# Shapes and their boxes

A shape lies in its box, so a point outside the box is outside the shape (`Shape.contains_bounds?`).
Only the whole world has none. Shapes that are equal to `==` have boxes that are equal to `==`
(`Shape.bounds?_congr`): they may differ in the signs of zeros, and so may their boxes.

A sound shape has finite corners in order, so its box is valid (`Shape.isValid_bounds?`), and no
index refuses it.
-/

namespace Enclave

/-- What may be missing is equal where it is missing on both sides, or equal. -/
instance partialEquivBEq_option {β : Type} [BEq β] [PartialEquivBEq β] :
    PartialEquivBEq (Option β) where
  symm {b c} h := by
    cases b <;> cases c <;> first | contradiction | skip
    · rfl
    · exact BEq.symm (α := β) h
  trans {b c d} h h' := by
    cases b <;> cases c <;> cases d <;> first | contradiction | skip
    · rfl
    · exact BEq.trans (α := β) h h'

variable {α : Type} [Coordinate α]

namespace Shape

theorem bounds?_eq_none_iff {s : Shape α} : s.bounds? = none ↔ s.isGlobal = true := by
  cases s <;> simp [bounds?, isGlobal]

theorem exists_bounds?_iff {s : Shape α} : (∃ b, s.bounds? = some b) ↔ s.isGlobal = false := by
  cases s <;> simp [bounds?, isGlobal]

theorem contains_of_isGlobal {s : Shape α} (h : s.isGlobal = true) (p : Point α) :
    s.contains p = true := by
  cases s with
  | everywhere => rfl
  | cuboid | polygon => exact absurd h Bool.false_ne_true

/-- The box contains every point of the shape. -/
theorem contains_bounds? {s : Shape α} {b : Box α} (h : s.bounds? = some b) {p : Point α}
    (hp : s.contains p = true) : b.contains p = true := by
  cases s with
  | cuboid c =>
    cases h
    exact hp
  | polygon g =>
    cases h
    exact (Bool.and_eq_true_iff.mp hp).1
  | everywhere => cases h

end Shape

/-! ## Equal shapes -/

namespace Polygon

variable [Coordinate.Ordered α]

/-- Boxes grown to reach equal points are equal. -/
theorem expand_congr {b c : Box α} (h : (b == c) = true) {p q : Point α} (hp : (p == q) = true) :
    (b.expand p == c.expand q) = true := by
  have points : (Box.ofPoint p == Box.ofPoint q) = true := by
    show (p == q && p == q) = true
    rw [hp, Bool.and_self]
  exact Box.union_congr h points

theorem foldl_expand_congr {bottom bottom' top top' : α} (hbottom : (bottom == bottom') = true)
    (htop : (top == top') = true) : ∀ {vs vs' : List (Vertex α)} {b c : Box α},
      (vs == vs') = true → (b == c) = true →
      (vs.foldl (fun b v => (b.expand ⟨v.x, bottom, v.z⟩).expand ⟨v.x, top, v.z⟩) b ==
        vs'.foldl (fun b v => (b.expand ⟨v.x, bottom', v.z⟩).expand ⟨v.x, top', v.z⟩) c) = true
  | [], [], _, _, _, h => h
  | v :: vs, v' :: vs', b, c, hvs, h => by
    have ⟨hv, (hvs : (vs == vs') = true)⟩ := Bool.and_eq_true_iff.mp hvs
    have ⟨hx, hz⟩ := Bool.and_eq_true_iff.mp hv
    have low : ((⟨v.x, bottom, v.z⟩ : Point α) == ⟨v'.x, bottom', v'.z⟩) = true :=
      Bool.and_eq_true_iff.mpr ⟨hx, Bool.and_eq_true_iff.mpr ⟨hbottom, hz⟩⟩
    have high : ((⟨v.x, top, v.z⟩ : Point α) == ⟨v'.x, top', v'.z⟩) = true :=
      Bool.and_eq_true_iff.mpr ⟨hx, Bool.and_eq_true_iff.mpr ⟨htop, hz⟩⟩
    rw [List.foldl_cons, List.foldl_cons]
    exact foldl_expand_congr hbottom htop hvs (expand_congr (expand_congr h low) high)

/-- Equal polygons have equal boxes. The origin stands in for the first vertex where there is none,
so it must be a number. -/
theorem bounds_congr (zero : (Coordinate.zero : α) ≤ Coordinate.zero) {p q : Polygon α}
    (h : (p == q) = true) : (p.bounds == q.bounds) = true := by
  obtain ⟨vs, bottom, top⟩ := p
  obtain ⟨vs', bottom', top'⟩ := q
  have ⟨hvs, heights⟩ := Bool.and_eq_true_iff.mp h
  have ⟨hbottom, htop⟩ := Bool.and_eq_true_iff.mp heights
  have origin : (Coordinate.zero == (Coordinate.zero : α)) = true :=
    Coordinate.Ordered.beq_iff.mpr ⟨zero, zero⟩
  have first : (vs.head?.getD ⟨Coordinate.zero, Coordinate.zero⟩ ==
      vs'.head?.getD ⟨Coordinate.zero, Coordinate.zero⟩) = true := by
    match vs, vs', hvs with
    | [], [], _ => exact Bool.and_eq_true_iff.mpr ⟨origin, origin⟩
    | v :: vs, v' :: vs', hvs => exact (Bool.and_eq_true_iff.mp hvs).1
  have ⟨hx, hz⟩ := Bool.and_eq_true_iff.mp first
  have start := Bool.and_eq_true_iff.mpr ⟨hx, Bool.and_eq_true_iff.mpr ⟨hbottom, hz⟩⟩
  exact foldl_expand_congr hbottom htop hvs (Bool.and_eq_true_iff.mpr ⟨start, start⟩)

end Polygon

namespace Shape

/-- Equal shapes have equal boxes. -/
theorem bounds?_congr {s t : Shape Float} (h : (s == t) = true) :
    (s.bounds? == t.bounds?) = true := by
  cases s <;> cases t <;> first | cases h | skip
  case cuboid.cuboid b c => exact h
  case polygon.polygon p q => exact Polygon.bounds_congr (by decide +kernel) h
  case everywhere.everywhere => rfl

end Shape

/-! ## Boxes of sound shapes -/

theorem Coordinate.isFinite_least {a b : α} (ha : isFinite a = true) (hb : isFinite b = true) :
    isFinite (least a b) = true := by
  unfold least
  split
  · exact hb
  · split <;> assumption

theorem Coordinate.isFinite_greatest {a b : α} (ha : isFinite a = true) (hb : isFinite b = true) :
    isFinite (greatest a b) = true := by
  unfold greatest
  split
  · exact hb
  · split <;> assumption

theorem Point.isFinite_least {p q : Point α} (hp : p.isFinite = true) (hq : q.isFinite = true) :
    (p.least q).isFinite = true := by
  simp only [Point.isFinite, Bool.and_eq_true] at hp hq ⊢
  exact ⟨⟨Coordinate.isFinite_least hp.1.1 hq.1.1, Coordinate.isFinite_least hp.1.2 hq.1.2⟩,
    Coordinate.isFinite_least hp.2 hq.2⟩

theorem Point.isFinite_greatest {p q : Point α} (hp : p.isFinite = true)
    (hq : q.isFinite = true) : (p.greatest q).isFinite = true := by
  simp only [Point.isFinite, Bool.and_eq_true] at hp hq ⊢
  exact ⟨⟨Coordinate.isFinite_greatest hp.1.1 hq.1.1, Coordinate.isFinite_greatest hp.1.2 hq.1.2⟩,
    Coordinate.isFinite_greatest hp.2 hq.2⟩

namespace Box

variable [Coordinate.Ordered α] {b c : Box α} {p : Point α}

/-- Finite corners in order make a valid box. -/
theorem isValid_iff : b.isValid = true ↔
    b.lo.isFinite = true ∧ b.hi.isFinite = true ∧ b.lo.below b.hi = true := by
  constructor
  · intro valid
    have ordered := lo_below_hi_of_isValid valid
    simp only [isValid, fault?, Option.isNone_iff_eq_none] at valid
    split at valid
    · exact absurd valid (by simp)
    next finite =>
      simp only [Bool.not_eq_true', Bool.not_eq_false, Bool.and_eq_true] at finite
      exact ⟨finite.1, finite.2, ordered⟩
  · rintro ⟨lo, hi, ordered⟩
    obtain ⟨hx, hy, hz⟩ := Point.below_iff.mp ordered
    simp [isValid, fault?, lo, hi, Coordinate.Ordered.lt_iff, hx, hy, hz]

theorem isValid_ofPoint (finite : p.isFinite = true) : (ofPoint p).isValid = true :=
  isValid_iff.mpr ⟨finite, finite, Point.below_refl_of_isFinite finite⟩

theorem isValid_union (hb : b.isValid = true) (hc : c.isValid = true) :
    (b.union c).isValid = true := by
  obtain ⟨loB, hiB, ordered⟩ := isValid_iff.mp hb
  obtain ⟨loC, hiC, -⟩ := isValid_iff.mp hc
  have self := within_self_of_isValid hb
  refine isValid_iff.mpr ⟨Point.isFinite_least loB loC, Point.isFinite_greatest hiB hiC, ?_⟩
  exact Point.below_trans (Point.least_below_left self.lo c.lo)
    (Point.below_trans ordered (Point.below_greatest_left self.hi c.hi))

/-- A box grown to reach a finite point stays valid. -/
theorem isValid_expand (valid : b.isValid = true) (finite : p.isFinite = true) :
    (b.expand p).isValid = true := by
  have same : b.expand p = b.union (.ofPoint p) := rfl
  rw [same]
  exact isValid_union valid (isValid_ofPoint finite)

end Box

namespace Polygon

variable [Coordinate.Ordered α]

/-- All corners that a polygon's box is grown to reach are finite, so the box stays valid. -/
theorem isValid_foldl_expand {bottom top : α} (hbottom : Coordinate.isFinite bottom = true)
    (htop : Coordinate.isFinite top = true) : ∀ {vs : List (Vertex α)} {b : Box α},
      (∀ v ∈ vs, Coordinate.isFinite v.x = true ∧ Coordinate.isFinite v.z = true) →
      b.isValid = true →
      (vs.foldl (fun b v => (b.expand ⟨v.x, bottom, v.z⟩).expand ⟨v.x, top, v.z⟩) b).isValid = true
  | [], _, _, valid => valid
  | v :: vs, b, finite, valid => by
    obtain ⟨hx, hz⟩ := finite v List.mem_cons_self
    rw [List.foldl_cons]
    refine isValid_foldl_expand hbottom htop (fun w hw => finite w (List.mem_cons_of_mem v hw)) ?_
    exact Box.isValid_expand (Box.isValid_expand valid (by simp [Point.isFinite, hx, hz, hbottom]))
      (by simp [Point.isFinite, hx, hz, htop])

theorem isValid_bounds {p : Polygon α} (sound : p.fault? = none) : p.bounds.isValid = true := by
  rw [fault?] at sound
  split at sound
  · cases sound
  next enough =>
    split at sound
    · cases sound
    next finite =>
      simp only [Bool.or_eq_true, List.any_eq_true, Bool.not_eq_true', not_or, not_exists, not_and,
        Bool.not_eq_false] at finite
      obtain ⟨⟨vertices, bottom⟩, top⟩ := finite
      cases hvs : p.vertices with
      | nil => simp [hvs] at enough
      | cons v vs =>
        obtain ⟨hx, hz⟩ := vertices v (hvs ▸ List.mem_cons_self)
        refine isValid_foldl_expand bottom top vertices (Box.isValid_ofPoint ?_)
        simp [Point.isFinite, hvs, hx, hz, bottom]

end Polygon

/-- The box of a sound shape is valid. -/
theorem Shape.isValid_bounds? [Coordinate.Ordered α] {s : Shape α} {b : Box α}
    (sound : s.fault? = none) (h : s.bounds? = some b) : b.isValid = true := by
  cases s with
  | cuboid c =>
    cases h
    exact Option.isNone_iff_eq_none.mpr (Option.map_eq_none_iff.mp sound)
  | polygon p =>
    cases h
    exact Polygon.isValid_bounds sound
  | everywhere => cases h

end Enclave
