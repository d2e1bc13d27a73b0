import Enclave.Proofs.Geometry.Shape

/-!
# The lattice of boxes

Whether boxes meet, what they have in common, the least box over them and whether one contains
another are found out separately, each by comparing the coordinates of the corners its own way. On
valid boxes all of them speak of the points that the boxes contain (`Box.Agrees`): boxes that meet
have a common point, their intersection is the valid box of just those points, and a box contains
another if it contains its points.

The union of two boxes and the cover of many are least among the boxes that contain them
(`Box.IsHull`). There is one such box up to the signs of zeros, so the cover does not depend on the
order in which boxes are listed (`Box.lattice`).
-/

namespace Enclave

variable {α : Type} [Coordinate α]

namespace Box

theorem intersection?_eq_some_iff {b c d : Box α} : b.intersection? c = some d ↔
    (b.lo.greatest c.lo).below (b.hi.least c.hi) = true ∧
      d = ⟨b.lo.greatest c.lo, b.hi.least c.hi⟩ := by
  simp only [intersection?, Option.ite_none_right_eq_some, Option.some.injEq, eq_comm (a := d)]

theorem isSome_intersection?_iff {b c : Box α} : (b.intersection? c).isSome = true ↔
    (b.lo.greatest c.lo).below (b.hi.least c.hi) = true := by
  simp only [Option.isSome_iff_exists, intersection?_eq_some_iff, exists_and_left, exists_eq,
    and_true]

variable [Coordinate.Ordered α] {b c d : Box α} {p : Point α}

/-! ## What two boxes have in common -/

section Valid

variable (hb : b.isValid = true) (hc : c.isValid = true)
include hb hc

/-- The corners of the intersection are in order just if the low corner of either box is nowhere
above the high corner of the other. -/
theorem intersects_iff_isSome : b.intersects c = true ↔ (b.intersection? c).isSome = true := by
  have selfB := within_self_of_isValid hb
  have selfC := within_self_of_isValid hc
  rw [intersects_iff, isSome_intersection?_iff]
  constructor
  · rintro ⟨bc, cb⟩
    exact Point.greatest_below (Point.below_least (lo_below_hi_of_isValid hb) bc)
      (Point.below_least cb (lo_below_hi_of_isValid hc))
  · intro ordered
    have least := Point.below_trans ordered (Point.least_below_left selfB.hi c.hi)
    have least' := Point.below_trans ordered (Point.least_below_right selfB.hi selfC.hi)
    exact ⟨Point.below_trans (Point.below_greatest_left selfB.lo c.lo) least',
      Point.below_trans (Point.below_greatest_right selfB.lo selfC.lo) least⟩

theorem contains_intersection? (h : b.intersection? c = some d) :
    d.contains p = true ↔ b.contains p = true ∧ c.contains p = true := by
  have selfB := within_self_of_isValid hb
  have selfC := within_self_of_isValid hc
  obtain ⟨-, rfl⟩ := intersection?_eq_some_iff.mp h
  simp only [contains_iff]
  constructor
  · rintro ⟨lo, hi⟩
    exact ⟨⟨Point.below_trans (Point.below_greatest_left selfB.lo c.lo) lo,
        Point.below_trans hi (Point.least_below_left selfB.hi c.hi)⟩,
      Point.below_trans (Point.below_greatest_right selfB.lo selfC.lo) lo,
      Point.below_trans hi (Point.least_below_right selfB.hi selfC.hi)⟩
  · rintro ⟨⟨loB, hiB⟩, loC, hiC⟩
    exact ⟨Point.greatest_below loB loC, Point.below_least hiB hiC⟩

theorem isValid_intersection? (h : b.intersection? c = some d) : d.isValid = true := by
  obtain ⟨loB, hiB, -⟩ := isValid_iff.mp hb
  obtain ⟨loC, hiC, -⟩ := isValid_iff.mp hc
  obtain ⟨ordered, rfl⟩ := intersection?_eq_some_iff.mp h
  exact isValid_iff.mpr
    ⟨Point.isFinite_greatest loB loC, Point.isFinite_least hiB hiC, ordered⟩

end Valid

/-- A valid box contains its own corners. -/
theorem contains_corners (hb : b.isValid = true) : b.contains b.lo = true ∧ b.contains b.hi = true := by
  have self := within_self_of_isValid hb
  have ordered := lo_below_hi_of_isValid hb
  exact ⟨contains_iff.mpr ⟨self.lo, ordered⟩, contains_iff.mpr ⟨ordered, self.hi⟩⟩

/-- Boxes meet just if some point is in both. -/
theorem intersects_iff_common (hb : b.isValid = true) (hc : c.isValid = true) :
    b.intersects c = true ↔ ∃ p, b.contains p = true ∧ c.contains p = true := by
  constructor
  · intro meet
    obtain ⟨d, hd⟩ := Option.isSome_iff_exists.mp ((intersects_iff_isSome hb hc).mp meet)
    exact ⟨d.lo, (contains_intersection? hb hc hd).mp
      (contains_corners (isValid_intersection? hb hc hd)).1⟩
  · rintro ⟨p, inB, inC⟩
    rw [contains_iff] at inB inC
    exact intersects_iff.mpr ⟨Point.below_trans inB.1 inC.2, Point.below_trans inC.1 inB.2⟩

/-! ## Boxes that contain others -/

omit [Coordinate.Ordered α] in
theorem within_of_containsBox (h : b.containsBox c = true) : c.Within b := by
  rw [containsBox, Bool.and_eq_true, contains_iff, contains_iff] at h
  exact ⟨h.1.1, h.2.2⟩

theorem containsBox_iff (hc : c.isValid = true) :
    b.containsBox c = true ↔ ∀ p, c.contains p = true → b.contains p = true := by
  constructor
  · exact fun h _ => (within_of_containsBox h).contains
  · intro h
    obtain ⟨lo, hi⟩ := contains_corners hc
    rw [containsBox, Bool.and_eq_true]
    exact ⟨h c.lo lo, h c.hi hi⟩

theorem isValid_foldl_union {cs : List (Box α)} (hb : b.isValid = true)
    (hcs : ∀ c ∈ cs, c.isValid = true) : (cs.foldl union b).isValid = true := by
  induction cs generalizing b with
  | nil => exact hb
  | cons c cs ih =>
    exact ih (isValid_union hb (hcs c List.mem_cons_self))
      fun d hd => hcs d (List.mem_cons_of_mem c hd)

/-- The least of the boxes that contain all the listed ones, itself valid. -/
structure IsHull (b : Box α) (cs : List (Box α)) : Prop where
  valid : b.isValid = true
  containsBox : ∀ c ∈ cs, b.containsBox c = true
  least : ∀ d : Box α, (∀ c ∈ cs, d.containsBox c = true) → d.containsBox b = true

theorem IsCover.isHull {cs : List (Box α)} (cover : b.IsCover cs) (valid : b.isValid = true)
    (hcs : ∀ c ∈ cs, c.isValid = true) : b.IsHull cs where
  valid := valid
  containsBox c hc := (cover.covers c hc).containsBox (hcs c hc)
  least d hd := (cover.least d fun c hc => within_of_containsBox (hd c hc)).containsBox valid

omit [Coordinate.Ordered α] in
theorem IsHull.perm {cs ds : List (Box α)} (h : b.IsHull cs) (perm : cs.Perm ds) :
    b.IsHull ds where
  valid := h.valid
  containsBox c hc := h.containsBox c (perm.mem_iff.mpr hc)
  least d hd := h.least d fun c hc => hd c (perm.mem_iff.mp hc)

/-- There is one least box, up to the signs of zeros. -/
theorem IsHull.beq {cs : List (Box α)} (h : b.IsHull cs) (h' : c.IsHull cs) :
    (b == c) = true :=
  (within_of_containsBox (h.least c h'.containsBox)).antisymm
    (within_of_containsBox (h'.least b h.containsBox))

theorem isHull_union (hb : b.isValid = true) (hc : c.isValid = true) :
    (b.union c).IsHull [b, c] := by
  have cover := (isCover_singleton (within_self_of_isValid hb)).union
    (isCover_singleton (within_self_of_isValid hc))
  refine cover.isHull (isValid_union hb hc) fun d hd => ?_
  rcases List.mem_cons.mp hd with rfl | hd
  · exact hb
  · exact List.mem_singleton.mp hd ▸ hc

/-- Valid boxes have a least box over them, unless there are none. -/
theorem exists_isHull_cover? {cs : List (Box α)} (ne : cs ≠ [])
    (valid : ∀ c ∈ cs, c.isValid = true) : ∃ b, cover? cs = some b ∧ b.IsHull cs := by
  obtain ⟨b, hb, cover⟩ := exists_cover? ne fun c hc => within_self_of_isValid (valid c hc)
  refine ⟨b, hb, cover.isHull ?_ valid⟩
  cases cs with
  | nil => exact absurd rfl ne
  | cons c cs =>
    cases hb
    exact isValid_foldl_union (valid c List.mem_cons_self)
      fun d hd => valid d (List.mem_cons_of_mem c hd)

/-! ## The lattice -/

/-- What is found out about two boxes agrees with the points that they contain. -/
structure Agrees (b c : Box α) : Prop where
  intersects_iff_isSome : b.intersects c = true ↔ (b.intersection? c).isSome = true
  intersects_iff_common : b.intersects c = true ↔ ∃ p, b.contains p = true ∧ c.contains p = true
  intersection : ∀ d, b.intersection? c = some d → d.isValid = true ∧
    ∀ p, d.contains p = true ↔ b.contains p = true ∧ c.contains p = true
  union : (b.union c).IsHull [b, c]
  containsBox_iff : b.containsBox c = true ↔ ∀ p, c.contains p = true → b.contains p = true

theorem agrees (hb : b.isValid = true) (hc : c.isValid = true) : b.Agrees c where
  intersects_iff_isSome := intersects_iff_isSome hb hc
  intersects_iff_common := intersects_iff_common hb hc
  intersection _ h :=
    ⟨isValid_intersection? hb hc h, fun _ => contains_intersection? hb hc h⟩
  union := isHull_union hb hc
  containsBox_iff := containsBox_iff hc

/-- Valid boxes are a lattice under the relations and the operations on them; listed in any order,
they have the same cover. -/
theorem lattice (hb : b.isValid = true) (hc : c.isValid = true) {cs ds : List (Box α)}
    (ne : cs ≠ []) (valid : ∀ d ∈ cs, d.isValid = true) (perm : ds.Perm cs) :
    b.Agrees c ∧ ∃ hull hull', cover? cs = some hull ∧ cover? ds = some hull' ∧
      hull.IsHull cs ∧ (hull == hull') = true := by
  obtain ⟨hull, found, isHull⟩ := exists_isHull_cover? ne valid
  have ne' : ds ≠ [] := fun none => ne (List.perm_nil.mp (none ▸ perm.symm))
  obtain ⟨hull', found', isHull'⟩ := exists_isHull_cover? ne'
    fun d hd => valid d (perm.mem_iff.mp hd)
  exact ⟨agrees hb hc, hull, hull', found, found', isHull, isHull.beq (isHull'.perm perm)⟩

/-- A box of the ground that touches a cube, with zeros of either sign: the covers of the two in
either order differ in the sign of a zero, and in nothing else. -/
theorem lattice_of_touching : ∃ b c : Box Float, b = ⟨⟨0.0, 0.0, 0.0⟩, ⟨2.0, 2.0, 2.0⟩⟩ ∧
    c = ⟨⟨2.0, -0.0, 1.0⟩, ⟨4.0, -0.0, 3.0⟩⟩ ∧ b.isValid = true ∧ c.isValid = true ∧
    [c, b].Perm [b, c] ∧ b.intersects c = true ∧ b.Agrees c ∧
    (b.union c).lo.y.toBits ≠ (c.union b).lo.y.toBits ∧
    ∃ hull hull', cover? [b, c] = some hull ∧ cover? [c, b] = some hull' ∧
      hull.IsHull [b, c] ∧ (hull == hull') = true := by
  let b : Box Float := ⟨⟨0.0, 0.0, 0.0⟩, ⟨2.0, 2.0, 2.0⟩⟩
  let c : Box Float := ⟨⟨2.0, -0.0, 1.0⟩, ⟨4.0, -0.0, 3.0⟩⟩
  have hb : b.isValid = true := by decide +kernel
  have hc : c.isValid = true := by decide +kernel
  have valid : ∀ d ∈ [b, c], d.isValid = true := by
    intro d hd
    rcases List.mem_cons.mp hd with rfl | hd
    · exact hb
    · exact List.mem_singleton.mp hd ▸ hc
  have perm : [c, b].Perm [b, c] := .swap b c []
  obtain ⟨agrees, covers⟩ := lattice hb hc (List.cons_ne_nil b [c]) valid perm
  exact ⟨b, c, rfl, rfl, hb, hc, perm, by decide +kernel, agrees, by decide +kernel, covers⟩

end Box

end Enclave
