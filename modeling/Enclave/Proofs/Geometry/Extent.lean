import Enclave.Proofs.Geometry.Cover
import Enclave.Proofs.Geometry.Enclosure
import Enclave.Geometry.Shape

/-!
# A polygon and its box

A footprint encloses nothing outside the rectangle around its vertices (`Footprint.Amid`,
`Footprint.amid_of_encloses`). To the left and right of it no edge is passed, and above it the edges
that pass below a point are those that span it: as many as lead from its left to its right as lead
back, an even number.

The box of a polygon is the least one over its corners (`Polygon.isCover_bounds`), so it rises from
the bottom of the polygon to its top and contains all that lies amid the vertices. A sound polygon
therefore contains the points between its heights that its footprint encloses, and the look at the
box beforehand turns none of them away (`Polygon.contains_iff_encloses`).
-/

namespace Enclave

instance : Coordinate.Ordered ℚ where
  le_refl_left _ := le_refl _
  le_refl_right _ := le_refl _
  le_trans := le_trans
  le_total _ _ := le_total _ _
  lt_iff := lt_iff_le_not_ge
  beq_iff := beq_iff_eq.trans le_antisymm_iff
  le_refl_of_isFinite _ := le_refl _

/-! ## The rectangle around the vertices -/

namespace Footprint

variable {f : Footprint ℚ} {p : Vertex ℚ}

/-- There are vertices to every side of the point. -/
structure Amid (f : Footprint ℚ) (p : Vertex ℚ) : Prop where
  left : ∃ v ∈ f, v.x ≤ p.x
  right : ∃ v ∈ f, p.x ≤ v.x
  above : ∃ v ∈ f, v.z ≤ p.z
  below : ∃ v ∈ f, p.z ≤ v.z

theorem exists_mem_of_edge {e : Vertex ℚ × Vertex ℚ} (he : e ∈ f.edges) {P : Vertex ℚ → Prop}
    (h : P e.1 ∨ P e.2) : ∃ v ∈ f, P v := by
  rcases h with h | h
  · exact ⟨e.1, fst_mem_of_mem_edges he, h⟩
  · exact ⟨e.2, snd_mem_of_mem_edges he, h⟩

theorem amid_of_onOutline (on : f.OnOutline p) : f.Amid p := by
  obtain ⟨e, he, on⟩ := on
  obtain ⟨⟨left, right⟩, above, below⟩ := within_iff.mp (Vertex.onSegment_iff.mp on).2
  exact ⟨exists_mem_of_edge he (min_le_iff.mp left), exists_mem_of_edge he (le_max_iff.mp right),
    exists_mem_of_edge he (min_le_iff.mp above), exists_mem_of_edge he (le_max_iff.mp below)⟩

/-- Above all vertices, the edges that pass below a point are those that change from one side of it
to the other. -/
theorem even_crossings_of_lt (lower : ∀ v ∈ f, p.z < v.z) : Even (crossings p f.edges) := by
  have changes := f.even_changes fun v => decide (v.x < p.x)
  have same : crossings p f.edges =
      f.edges.countP fun e => decide (e.1.x < p.x) != decide (e.2.x < p.x) := by
    refine List.countP_congr fun e he => ?_
    have spans : Spans e.1 e.2 p ↔ PassesBelow e.1 e.2 p :=
      ⟨fun h => h.passesBelow (lower _ (fst_mem_of_mem_edges he))
        (lower _ (snd_mem_of_mem_edges he)), PassesBelow.spans⟩
    rw [decide_eq_true_eq, passing_eq_below_iff, ← spans, bne_iff_ne, ne_eq, decide_eq_decide]
    rfl
  rwa [same]

theorem amid_of_odd_crossings (odd : Odd (crossings p f.edges)) : f.Amid p := by
  obtain ⟨e, he, below⟩ := List.countP_pos_iff.mp odd.pos
  have passes := passing_eq_below_iff.mp (of_decide_eq_true below)
  refine ⟨exists_mem_of_edge he ?_, exists_mem_of_edge he ?_, ?_, exists_mem_of_edge he ?_⟩
  · exact passes.spans.cases.imp (fun range => range.1.le) fun range => range.1.le
  · exact passes.spans.cases.symm.imp And.right And.right
  · by_contra! lower
    exact Nat.not_odd_iff_even.mpr (even_crossings_of_lt lower) odd
  · exact passes.lt_or_lt.imp le_of_lt le_of_lt

theorem amid_of_encloses (enclosed : f.encloses p = true) : f.Amid p :=
  (encloses_iff.mp enclosed).elim amid_of_onOutline amid_of_odd_crossings

end Footprint

/-! ## The box of a polygon -/

namespace Polygon

section Cover

variable {α : Type}

/-- The vertices at either height. -/
def corners (p : Polygon α) : List (Point α) :=
  p.vertices.flatMap fun v => [⟨v.x, p.bottom, v.z⟩, ⟨v.x, p.top, v.z⟩]

theorem mem_corners_iff {p : Polygon α} {c : Point α} : c ∈ p.corners ↔
    ∃ v ∈ p.vertices, c = ⟨v.x, p.bottom, v.z⟩ ∨ c = ⟨v.x, p.top, v.z⟩ := by
  simp [corners]

variable [Coordinate α] [Coordinate.Ordered α]

theorem foldl_expand_isCover {bottom top : α} {vs : List (Vertex α)}
    (numbers : ∀ c ∈ corners ⟨vs, bottom, top⟩, c.below c = true) {b : Box α} {cs : List (Box α)}
    (cover : b.IsCover cs) :
    (vs.foldl (fun b v => (b.expand ⟨v.x, bottom, v.z⟩).expand ⟨v.x, top, v.z⟩) b).IsCover
      (cs ++ (corners ⟨vs, bottom, top⟩).map .ofPoint) := by
  induction vs generalizing b cs with
  | nil => simpa [corners] using cover
  | cons v vs ih =>
    have low := numbers ⟨v.x, bottom, v.z⟩ List.mem_cons_self
    have high := numbers ⟨v.x, top, v.z⟩ (List.mem_cons_of_mem _ List.mem_cons_self)
    have grown := (cover.union (Box.isCover_singleton (b := .ofPoint ⟨v.x, bottom, v.z⟩)
      ⟨low, low⟩)).union (Box.isCover_singleton (b := .ofPoint ⟨v.x, top, v.z⟩) ⟨high, high⟩)
    have rest := ih (fun c hc => numbers c (List.mem_cons_of_mem _ (List.mem_cons_of_mem _ hc)))
      grown
    rwa [List.append_assoc, List.append_assoc] at rest

theorem isCover_bounds {p : Polygon α} (ne : p.vertices ≠ [])
    (numbers : ∀ c ∈ p.corners, c.below c = true) :
    p.bounds.IsCover (p.corners.map .ofPoint) := by
  obtain ⟨vs, bottom, top⟩ := p
  cases vs with
  | nil => exact absurd rfl ne
  | cons v vs =>
    -- the box starts as the first corner, which is met again among the others
    have first : (⟨v.x, bottom, v.z⟩ : Point α) ∈ corners ⟨v :: vs, bottom, top⟩ :=
      List.mem_cons_self
    have number := numbers _ first
    have cover := foldl_expand_isCover numbers
      (Box.isCover_singleton (b := .ofPoint ⟨v.x, bottom, v.z⟩) ⟨number, number⟩)
    refine ⟨fun c hc => cover.covers c (List.mem_append_right _ hc), fun d hd => ?_⟩
    refine cover.least d fun c hc => ?_
    rcases List.mem_append.mp hc with start | rest
    · rw [List.mem_singleton.mp start]
      exact hd _ (List.mem_map_of_mem first)
    · exact hd c rest

end Cover

section Exact

variable {p : Polygon ℚ} (ne : p.vertices ≠ [])
include ne

theorem isCover_bounds_exact : p.bounds.IsCover (p.corners.map .ofPoint) :=
  isCover_bounds ne fun c _ => Point.below_iff.mpr ⟨le_refl c.x, le_refl c.y, le_refl c.z⟩

/-- The box rises from the bottom to the top. -/
theorem bounds_heights (ordered : p.bottom ≤ p.top) :
    p.bounds.lo.y = p.bottom ∧ p.bounds.hi.y = p.top := by
  have cover := isCover_bounds_exact ne
  obtain ⟨v, hv⟩ := List.exists_mem_of_ne_nil _ ne
  have low := (cover.covers _ (List.mem_map_of_mem (mem_corners_iff.mpr ⟨v, hv, .inl rfl⟩))).lo
  have high := (cover.covers _ (List.mem_map_of_mem (mem_corners_iff.mpr ⟨v, hv, .inr rfl⟩))).hi
  -- all corners lie in the part of the box between the two heights, so there is no other part
  have least : p.bounds.Within ⟨⟨p.bounds.lo.x, p.bottom, p.bounds.lo.z⟩,
      ⟨p.bounds.hi.x, p.top, p.bounds.hi.z⟩⟩ := by
    apply cover.least
    intro b hb
    have within := cover.covers b hb
    obtain ⟨c, hc, rfl⟩ := List.mem_map.mp hb
    obtain ⟨left, -, above⟩ := Point.below_iff.mp within.lo
    obtain ⟨right, -, below⟩ := Point.below_iff.mp within.hi
    have heights : p.bottom ≤ c.y ∧ c.y ≤ p.top := by
      obtain ⟨w, -, rfl | rfl⟩ := mem_corners_iff.mp hc
      · exact ⟨le_refl p.bottom, ordered⟩
      · exact ⟨ordered, le_refl p.top⟩
    exact ⟨Point.below_iff.mpr ⟨left, heights.1, above⟩,
      Point.below_iff.mpr ⟨right, heights.2, below⟩⟩
  exact ⟨le_antisymm (Point.below_iff.mp low).2.1 (Point.below_iff.mp least.lo).2.1,
    le_antisymm (Point.below_iff.mp least.hi).2.1 (Point.below_iff.mp high).2.1⟩

/-- The box contains what lies amid the vertices, between the heights. -/
theorem contains_bounds_of_amid (ordered : p.bottom ≤ p.top) {q : Point ℚ}
    (amid : Footprint.Amid p.vertices ⟨q.x, q.z⟩) (low : p.bottom ≤ q.y) (high : q.y ≤ p.top) :
    p.bounds.contains q = true := by
  have cover := isCover_bounds_exact ne
  have corner {v : Vertex ℚ} (hv : v ∈ p.vertices) :
      (Box.ofPoint ⟨v.x, p.bottom, v.z⟩).Within p.bounds :=
    cover.covers _ (List.mem_map_of_mem (mem_corners_iff.mpr ⟨v, hv, .inl rfl⟩))
  obtain ⟨bottom, top⟩ := bounds_heights ne ordered
  obtain ⟨⟨l, hl, left⟩, ⟨r, hr, right⟩, ⟨a, ha, above⟩, b, hb, below⟩ := amid
  rw [Box.contains_iff, Point.below_iff, Point.below_iff, bottom, top]
  exact ⟨⟨(Point.below_iff.mp (corner hl).lo).1.trans left, low,
      (Point.below_iff.mp (corner ha).lo).2.2.trans above⟩,
    right.trans (Point.below_iff.mp (corner hr).hi).1, high,
      below.trans (Point.below_iff.mp (corner hb).hi).2.2⟩

end Exact

/-! ## Sound polygons -/

/-- What is made is what was asked for, and sound. -/
theorem make_eq_ok_iff {α : Type} [Coordinate α] {vs : List (Vertex α)} {bottom top : α}
    {p : Polygon α} : make vs bottom top = .ok p ↔ p = ⟨vs, bottom, top⟩ ∧ p.fault? = none := by
  unfold make
  dsimp only
  cases h : (⟨vs, bottom, top⟩ : Polygon α).fault? with
  | none =>
    constructor
    · rintro ⟨⟩
      exact ⟨rfl, h⟩
    · rintro ⟨rfl, -⟩
      rfl
  | some fault =>
    refine iff_of_false nofun ?_
    rintro ⟨rfl, sound⟩
    cases h.symm.trans sound

theorem sound_rises {p : Polygon ℚ} (sound : p.fault? = none) :
    p.vertices ≠ [] ∧ p.bottom ≤ p.top := by
  unfold fault? at sound
  split_ifs at sound with few infinite inverted flat
  refine ⟨?_, not_lt.mp inverted⟩
  intro none
  simp [none] at few

/-- A polygon that was made contains the points between its heights that its footprint encloses. -/
theorem contains_iff_encloses {vs : List (Vertex ℚ)} {bottom top : ℚ} {p : Polygon ℚ}
    (made : make vs bottom top = .ok p) (q : Point ℚ) :
    p.contains q = true ↔
      (bottom ≤ q.y ∧ q.y ≤ top) ∧ Footprint.encloses vs ⟨q.x, q.z⟩ = true := by
  obtain ⟨rfl, sound⟩ := make_eq_ok_iff.mp made
  obtain ⟨ne, ordered⟩ := sound_rises sound
  rw [contains, Bool.and_eq_true]
  refine and_congr_left fun enclosed => ?_
  constructor
  · intro boxed
    obtain ⟨lo, hi⟩ := bounds_heights ne ordered
    rw [Box.contains_iff, Point.below_iff, Point.below_iff, lo, hi] at boxed
    exact ⟨boxed.1.2.1, boxed.2.2.1⟩
  · rintro ⟨low, high⟩
    exact contains_bounds_of_amid ne ordered (Footprint.amid_of_encloses enclosed) low high

/-- A line that crosses itself: of two points in the box it encloses the lower, between its edges,
and not the upper, below which two of them pass. -/
theorem contains_iff_encloses_of_crossed : ∃ p : Polygon ℚ,
    make [⟨0, 0⟩, ⟨4, 4⟩, ⟨4, 0⟩, ⟨0, 6⟩] 0 2 = .ok p ∧
    p.bounds.contains ⟨3, 1, 2⟩ = true ∧ p.contains ⟨3, 1, 2⟩ = true ∧
    p.bounds.contains ⟨3, 1, 1⟩ = true ∧ p.contains ⟨3, 1, 1⟩ = false := by
  let p : Polygon ℚ := ⟨[⟨0, 0⟩, ⟨4, 4⟩, ⟨4, 0⟩, ⟨0, 6⟩], 0, 2⟩
  have sound : p.fault? = none := Option.isNone_iff_eq_none.mp (by decide +kernel)
  have made : make p.vertices p.bottom p.top = .ok p := make_eq_ok_iff.mpr ⟨rfl, sound⟩
  refine ⟨p, made, by decide +kernel, ?_, by decide +kernel, ?_⟩
  · exact (contains_iff_encloses made _).mpr (by decide +kernel)
  · rw [← Bool.not_eq_true, contains_iff_encloses made]
    decide +kernel

end Polygon

end Enclave
