import Enclave.Geometry.Box
import Enclave.Proofs.Double.Comparison

/-!
# Covers

A box lies within another when its corners lie between the corners of the other. On the boxes whose
coordinates are numbers this is an order (`Box.Within`), and boxes that lie within each other are
equal to `==` (`Box.beq_iff_within`): only the signs of zeros may differ.

The cover of boxes is the least box that all of them lie within (`Box.IsCover`). Said this way, a
cover depends neither on the order of the boxes nor on how they are grouped, and `Box.cover?` gives
one. What contains a point or meets a box hands both on to every box that it lies within
(`Box.Within.contains`, `Box.Within.intersects`), so a search may pass over a cover that fails.
-/

namespace Enclave

variable {α : Type} [Coordinate α]

/-! ## Coordinates -/

namespace Coordinate

theorem le_least {a b c : α} (ha : c ≤ a) (hb : c ≤ b) : c ≤ least a b := by
  unfold least
  split
  · exact hb
  · split <;> assumption

theorem greatest_le {a b c : α} (ha : a ≤ c) (hb : b ≤ c) : greatest a b ≤ c := by
  unfold greatest
  split
  · exact hb
  · split <;> assumption

variable [Ordered α]

open Ordered

theorem isNumber_iff {a : α} : isNumber a = true ↔ a ≤ a := beq_iff.trans and_self_iff

theorem least_le_left {a : α} (ha : a ≤ a) (b : α) : least a b ≤ a := by
  unfold least
  split
  next h => exact (lt_iff.mp h).1
  next => rwa [if_pos (isNumber_iff.mpr ha)]

theorem least_le_right {a b : α} (ha : a ≤ a) (hb : b ≤ b) : least a b ≤ b := by
  unfold least
  split
  · exact hb
  next h =>
    rw [if_pos (isNumber_iff.mpr ha)]
    rcases le_total ha hb with hab | hba
    · exact hab
    · exact Classical.byContradiction fun hab => h (lt_iff.mpr ⟨hba, hab⟩)

theorem le_greatest_left {a : α} (ha : a ≤ a) (b : α) : a ≤ greatest a b := by
  unfold greatest
  split
  next h => exact (lt_iff.mp h).1
  next => rwa [if_pos (isNumber_iff.mpr ha)]

theorem le_greatest_right {a b : α} (ha : a ≤ a) (hb : b ≤ b) : b ≤ greatest a b := by
  unfold greatest
  split
  · exact hb
  next h =>
    rw [if_pos (isNumber_iff.mpr ha)]
    rcases le_total ha hb with hab | hba
    · exact Classical.byContradiction fun hba => h (lt_iff.mpr ⟨hab, hba⟩)
    · exact hba

end Coordinate

open Coordinate

/-! ## Points -/

namespace Point

theorem below_iff {p q : Point α} : p.below q = true ↔ p.x ≤ q.x ∧ p.y ≤ q.y ∧ p.z ≤ q.z := by
  simp only [below, Bool.and_eq_true, decide_eq_true_eq, and_assoc]

theorem below_least {p q r : Point α} (hp : r.below p = true) (hq : r.below q = true) :
    r.below (p.least q) = true := by
  rw [below_iff] at hp hq ⊢
  exact ⟨le_least hp.1 hq.1, le_least hp.2.1 hq.2.1, le_least hp.2.2 hq.2.2⟩

theorem greatest_below {p q r : Point α} (hp : p.below r = true) (hq : q.below r = true) :
    (p.greatest q).below r = true := by
  rw [below_iff] at hp hq ⊢
  exact ⟨greatest_le hp.1 hq.1, greatest_le hp.2.1 hq.2.1, greatest_le hp.2.2 hq.2.2⟩

variable [Ordered α] {p q r : Point α}

theorem below_trans (h : p.below q = true) (h' : q.below r = true) : p.below r = true := by
  rw [below_iff] at h h' ⊢
  exact ⟨Ordered.le_trans h.1 h'.1, Ordered.le_trans h.2.1 h'.2.1, Ordered.le_trans h.2.2 h'.2.2⟩

theorem below_refl_of_isFinite (h : p.isFinite = true) : p.below p = true := by
  simp only [isFinite, Bool.and_eq_true] at h
  exact below_iff.mpr ⟨Ordered.le_refl_of_isFinite h.1.1, Ordered.le_refl_of_isFinite h.1.2,
    Ordered.le_refl_of_isFinite h.2⟩

theorem least_below_left (hp : p.below p = true) (q : Point α) : (p.least q).below p = true := by
  rw [below_iff] at hp ⊢
  exact ⟨least_le_left hp.1 _, least_le_left hp.2.1 _, least_le_left hp.2.2 _⟩

theorem least_below_right (hp : p.below p = true) (hq : q.below q = true) :
    (p.least q).below q = true := by
  rw [below_iff] at hp hq ⊢
  exact ⟨least_le_right hp.1 hq.1, least_le_right hp.2.1 hq.2.1, least_le_right hp.2.2 hq.2.2⟩

theorem below_greatest_left (hp : p.below p = true) (q : Point α) :
    p.below (p.greatest q) = true := by
  rw [below_iff] at hp ⊢
  exact ⟨le_greatest_left hp.1 _, le_greatest_left hp.2.1 _, le_greatest_left hp.2.2 _⟩

theorem below_greatest_right (hp : p.below p = true) (hq : q.below q = true) :
    q.below (p.greatest q) = true := by
  rw [below_iff] at hp hq ⊢
  exact ⟨le_greatest_right hp.1 hq.1, le_greatest_right hp.2.1 hq.2.1,
    le_greatest_right hp.2.2 hq.2.2⟩

theorem beq_iff_below : (p == q) = true ↔ p.below q = true ∧ q.below p = true := by
  rw [below_iff, below_iff]
  show (p.x == q.x && (p.y == q.y && p.z == q.z)) = true ↔ _
  simp only [Bool.and_eq_true, Ordered.beq_iff]
  tauto

end Point

/-! ## Boxes within boxes -/

namespace Box

/-- `c` lies within `b`: its corners lie between those of `b`. -/
structure Within (c b : Box α) : Prop where
  lo : b.lo.below c.lo = true
  hi : c.hi.below b.hi = true

theorem contains_iff {b : Box α} {p : Point α} :
    b.contains p = true ↔ b.lo.below p = true ∧ p.below b.hi = true := by
  rw [Point.below_iff, Point.below_iff]
  simp only [contains, Bool.and_eq_true, decide_eq_true_eq]
  tauto

theorem intersects_iff {b c : Box α} :
    b.intersects c = true ↔ b.lo.below c.hi = true ∧ c.lo.below b.hi = true := by
  rw [Point.below_iff, Point.below_iff]
  simp only [intersects, Bool.and_eq_true, decide_eq_true_eq]
  tauto

variable [Ordered α] {b c d : Box α}

theorem Within.trans (h : b.Within c) (h' : c.Within d) : b.Within d :=
  ⟨Point.below_trans h'.lo h.lo, Point.below_trans h.hi h'.hi⟩

theorem Within.contains (h : c.Within b) {p : Point α} (hp : c.contains p = true) :
    b.contains p = true := by
  rw [contains_iff] at hp ⊢
  exact ⟨Point.below_trans h.lo hp.1, Point.below_trans hp.2 h.hi⟩

theorem Within.intersects (h : c.Within b) (hd : c.intersects d = true) :
    b.intersects d = true := by
  rw [intersects_iff] at hd ⊢
  exact ⟨Point.below_trans h.lo hd.1, Point.below_trans hd.2 h.hi⟩

theorem beq_iff_within : (b == c) = true ↔ b.Within c ∧ c.Within b := by
  show (b.lo == c.lo && b.hi == c.hi) = true ↔ _
  rw [Bool.and_eq_true, Point.beq_iff_below, Point.beq_iff_below]
  exact ⟨fun ⟨⟨h₁, h₂⟩, h₃, h₄⟩ => ⟨⟨h₂, h₃⟩, h₁, h₄⟩, fun ⟨⟨h₂, h₃⟩, h₁, h₄⟩ => ⟨⟨h₁, h₂⟩, h₃, h₄⟩⟩

theorem Within.antisymm (h : b.Within c) (h' : c.Within b) : (b == c) = true :=
  beq_iff_within.mpr ⟨h, h'⟩

instance : PartialEquivBEq (Box α) where
  symm h := (beq_iff_within.mp h).2.antisymm (beq_iff_within.mp h).1
  trans h h' := ((beq_iff_within.mp h).1.trans (beq_iff_within.mp h').1).antisymm
    ((beq_iff_within.mp h').2.trans (beq_iff_within.mp h).2)

/-! ## Valid boxes -/

theorem within_self_of_isValid (h : b.isValid = true) : b.Within b := by
  simp only [isValid, fault?, Option.isNone_iff_eq_none] at h
  split at h
  · exact absurd h (by simp)
  next finite =>
    simp only [Bool.not_eq_true', Bool.not_eq_false, Bool.and_eq_true] at finite
    exact ⟨Point.below_refl_of_isFinite finite.1, Point.below_refl_of_isFinite finite.2⟩

theorem lo_below_hi_of_isValid (h : b.isValid = true) : b.lo.below b.hi = true := by
  have self := within_self_of_isValid h
  simp only [isValid, fault?, Option.isNone_iff_eq_none] at h
  split at h
  · exact absurd h (by simp)
  split at h
  · exact absurd h (by simp)
  next ordered =>
    have lo := Point.below_iff.mp self.lo
    have hi := Point.below_iff.mp self.hi
    simp only [Bool.or_eq_true, decide_eq_true_eq, not_or, Ordered.lt_iff] at ordered
    obtain ⟨⟨hx, hy⟩, hz⟩ := ordered
    refine Point.below_iff.mpr ⟨?_, ?_, ?_⟩
    · rcases Ordered.le_total lo.1 hi.1 with h | h
      · exact h
      · exact Classical.byContradiction fun h' => hx ⟨h, h'⟩
    · rcases Ordered.le_total lo.2.1 hi.2.1 with h | h
      · exact h
      · exact Classical.byContradiction fun h' => hy ⟨h, h'⟩
    · rcases Ordered.le_total lo.2.2 hi.2.2 with h | h
      · exact h
      · exact Classical.byContradiction fun h' => hz ⟨h, h'⟩

/-- Both corners of a valid box lie in every box that it lies within. -/
theorem Within.containsBox (h : c.Within b) (valid : c.isValid = true) :
    b.containsBox c = true := by
  have ordered := lo_below_hi_of_isValid valid
  simp only [Box.containsBox, Bool.and_eq_true, contains_iff]
  exact ⟨⟨h.lo, Point.below_trans ordered h.hi⟩, Point.below_trans h.lo ordered, h.hi⟩

/-! ## Covers -/

/-- `b` is the least box that all the listed ones lie within. -/
structure IsCover (b : Box α) (cs : List (Box α)) : Prop where
  covers : ∀ c ∈ cs, c.Within b
  least : ∀ d, (∀ c ∈ cs, c.Within d) → b.Within d

omit [Ordered α] in
theorem IsCover.self {cs : List (Box α)} (h : b.IsCover cs) : b.Within b := h.least b h.covers

/-- Covers of the same boxes are equal. -/
theorem IsCover.beq {cs : List (Box α)} (h : b.IsCover cs) (h' : c.IsCover cs) :
    (b == c) = true :=
  (h.least c h'.covers).antisymm (h'.least b h.covers)

omit [Ordered α] in
theorem IsCover.perm {cs ds : List (Box α)} (h : b.IsCover cs) (perm : cs.Perm ds) :
    b.IsCover ds :=
  ⟨fun c hc => h.covers c (perm.mem_iff.mpr hc),
    fun d hd => h.least d fun c hc => hd c (perm.mem_iff.mp hc)⟩

omit [Ordered α] in
theorem isCover_singleton (h : b.Within b) : b.IsCover [b] :=
  ⟨fun c hc => by rwa [List.mem_singleton.mp hc], fun _ hd => hd b (List.mem_singleton_self b)⟩

theorem Within.union_left (h : d.Within b) (hb : b.Within b) : d.Within (b.union c) :=
  h.trans ⟨Point.least_below_left hb.lo _, Point.below_greatest_left hb.hi _⟩

theorem Within.union_right (h : d.Within c) (hb : b.Within b) (hc : c.Within c) :
    d.Within (b.union c) :=
  h.trans ⟨Point.least_below_right hb.lo hc.lo, Point.below_greatest_right hb.hi hc.hi⟩

omit [Ordered α] in
theorem union_within (hb : b.Within d) (hc : c.Within d) : (b.union c).Within d :=
  ⟨Point.below_least hb.lo hc.lo, Point.greatest_below hb.hi hc.hi⟩

/-- The union of two covers covers what both cover. -/
theorem IsCover.union {cs ds : List (Box α)} (h : b.IsCover cs) (h' : c.IsCover ds) :
    (b.union c).IsCover (cs ++ ds) := by
  constructor
  · intro e he
    rcases List.mem_append.mp he with he | he
    · exact (h.covers e he).union_left h.self
    · exact (h'.covers e he).union_right h.self h'.self
  · intro d hd
    exact union_within (h.least d fun e he => hd e (List.mem_append_left _ he))
      (h'.least d fun e he => hd e (List.mem_append_right _ he))

/-- Unions of equal boxes are equal. -/
theorem union_congr {b' c' : Box α} (hb : (b == b') = true) (hc : (c == c') = true) :
    (b.union c == b'.union c') = true := by
  have ⟨hb, hb'⟩ := beq_iff_within.mp hb
  have ⟨hc, hc'⟩ := beq_iff_within.mp hc
  have least : (b.union c).Within (b'.union c') :=
    union_within (hb.union_left (hb'.trans hb)) (hc.union_right (hb'.trans hb) (hc'.trans hc))
  have least' : (b'.union c').Within (b.union c) :=
    union_within (hb'.union_left (hb.trans hb')) (hc'.union_right (hb.trans hb') (hc.trans hc'))
  exact least.antisymm least'

theorem foldl_union_isCover {cs : List (Box α)} (hcs : ∀ c ∈ cs, c.Within c) :
    ∀ {b : Box α} {bs : List (Box α)}, b.IsCover bs → (cs.foldl union b).IsCover (bs ++ cs) := by
  induction cs with
  | nil => exact fun h => by simpa using h
  | cons c cs ih =>
    intro b bs h
    have hc := isCover_singleton (hcs c List.mem_cons_self)
    have := ih (fun d hd => hcs d (List.mem_cons_of_mem c hd)) (h.union hc)
    rwa [List.append_assoc] at this

/-- Boxes whose coordinates are numbers have a cover, unless there are none. -/
theorem exists_cover? {cs : List (Box α)} (ne : cs ≠ []) (hcs : ∀ c ∈ cs, c.Within c) :
    ∃ b, cover? cs = some b ∧ b.IsCover cs := by
  cases cs with
  | nil => exact absurd rfl ne
  | cons c cs =>
    refine ⟨cs.foldl union c, rfl, ?_⟩
    exact foldl_union_isCover (fun d hd => hcs d (List.mem_cons_of_mem c hd))
      (isCover_singleton (hcs c List.mem_cons_self))

/-- Covers of groups of boxes, covered again, cover the boxes of all groups. -/
theorem IsCover.flatMap {ι : Type} {is : List ι} {f : ι → Box α} {g : ι → List (Box α)}
    (h : b.IsCover (is.map f)) (each : ∀ i ∈ is, (f i).IsCover (g i)) :
    b.IsCover (is.flatMap g) := by
  constructor
  · intro c hc
    obtain ⟨i, hi, hc⟩ := List.mem_flatMap.mp hc
    exact ((each i hi).covers c hc).trans (h.covers _ (List.mem_map_of_mem hi))
  · intro d hd
    apply h.least
    intro c hc
    obtain ⟨i, hi, rfl⟩ := List.mem_map.mp hc
    exact (each i hi).least d fun c hc => hd c (List.mem_flatMap.mpr ⟨i, hi, hc⟩)

end Box

end Enclave
