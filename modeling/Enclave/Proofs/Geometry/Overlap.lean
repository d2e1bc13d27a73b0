import Mathlib.Data.Set.Finite.Lemmas
import Mathlib.Data.Set.Finite.List
import Enclave.Proofs.Geometry.Lattice
import Enclave.Proofs.Geometry.Motion
import Enclave.Proofs.Geometry.Rectangle

/-!
# Shapes overlap in points

Two footprints overlap just if some point is enclosed by both (`Footprint.overlaps_iff`). A vertex of
one that lies in the other is such a point, and so is any point in which edges touch. That there is
no other way to overlap takes two steps. Where the outlines have no point in common, a common point
is moved straight down to the first edge that it meets, of whichever footprint; up to there it does
not leave the other one (`Footprint.exists_onOutline`). From there it is moved along the edge to the
vertex where the edge starts, and again meets nothing (`Footprint.exists_vertex`).

The heights are looked at by the boxes, so two sound shapes overlap just if some point is in both
(`Shape.intersects_iff_shared`), whatever their form.
-/

namespace Enclave

namespace Vertex

variable {p r u v : Vertex ℚ}

/-- A part of a segment lies on it. -/
theorem OnSegment.part (hp : p.OnSegment u v) (hr : r.OnSegment u p) : r.OnSegment u v := by
  obtain ⟨t, ht, ht', rfl⟩ := onSegment_iff_along.mp hp
  obtain ⟨s, hs, hs', rfl⟩ := onSegment_iff_along.mp hr
  have whole := along_along u v 0 t s
  rw [along_zero, zero_add, sub_zero] at whole
  exact onSegment_iff_along.mpr ⟨s * t, mul_nonneg hs ht, mul_le_one₀ hs' ht ht', whole⟩

end Vertex

namespace Footprint

variable {f g : Footprint ℚ} {p : Vertex ℚ}

/-- A vertex is on the outline. -/
theorem onOutline_of_mem (hp : p ∈ f) : f.OnOutline p := by
  obtain ⟨e, he, rfl⟩ := exists_edge_to hp
  exact ⟨e, he, Vertex.onSegment_end e.1 e.2⟩

/-- No point is on both outlines. -/
def Separate (f g : Footprint ℚ) : Prop := ∀ r, f.OnOutline r → ¬g.OnOutline r

theorem Separate.symm (separate : Separate f g) : Separate g f := fun r on on' => separate r on' on

/-- From a point of an outline that meets no other, the way to the vertex where its edge starts
leads into nothing: the other footprint encloses the vertex too. -/
theorem exists_vertex (separate : Separate f g) (on : f.OnOutline p)
    (enclosed : g.encloses p = true) : ∃ v ∈ f, g.encloses v = true := by
  obtain ⟨e, he, on⟩ := on
  refine ⟨e.1, fst_mem_of_mem_edges he, ?_⟩
  rw [← enclosed]
  refine encloses_eq_of_apart fun d hd r way on' => ?_
  exact separate r ⟨e, he, on.part way⟩ ⟨d, hd, on'⟩

/-- The edge that is met first on the way down from a point. -/
theorem exists_first (edges : List (Vertex ℚ × Vertex ℚ)) (some : 0 < crossings p edges) :
    ∃ e ∈ edges, PassesBelow e.1 e.2 p ∧ ∀ d ∈ edges, PassesBelow d.1 d.2 p →
      level e.1 e.2 p.x ≤ level d.1 d.2 p.x := by
  have finite : {e | e ∈ edges ∧ PassesBelow e.1 e.2 p}.Finite :=
    edges.finite_toSet.subset fun e he => he.1
  obtain ⟨e, he, below⟩ := List.countP_pos_iff.mp some
  obtain ⟨first, ⟨hfirst, below⟩, least⟩ := Set.exists_min_image _
    (fun e : Vertex ℚ × Vertex ℚ => level e.1 e.2 p.x) finite
    ⟨e, he, passing_eq_below_iff.mp (of_decide_eq_true below)⟩
  exact ⟨first, hfirst, below, fun d hd below => least d ⟨hd, below⟩⟩

/-- Down to the first edge that is met, no other edge is crossed. -/
theorem exists_onOutline (separate : Separate f g) {e : Vertex ℚ × Vertex ℚ} (he : e ∈ f.edges)
    (below : PassesBelow e.1 e.2 p)
    (first : ∀ d ∈ g.edges, PassesBelow d.1 d.2 p → level e.1 e.2 p.x ≤ level d.1 d.2 p.x)
    (odd : Odd (crossings p g.edges)) : ∃ r, f.OnOutline r ∧ g.encloses r = true := by
  obtain ⟨spans, under⟩ := passesBelow_iff_spans.mp below
  let r : Vertex ℚ := ⟨p.x, level e.1 e.2 p.x⟩
  have on : f.OnOutline r := ⟨e, he, spans.onSegment⟩
  refine ⟨r, on, encloses_iff.mpr (.inr ?_)⟩
  have same : crossings r g.edges = crossings p g.edges := by
    refine List.countP_congr fun d hd => ?_
    rw [decide_eq_true_eq, decide_eq_true_eq, passing_eq_below_iff, passing_eq_below_iff]
    constructor
    · intro below
      obtain ⟨spans, further⟩ := passesBelow_iff_spans.mp below
      exact passesBelow_iff_spans.mpr ⟨spans, under.trans further⟩
    · intro below
      obtain ⟨spans, -⟩ := passesBelow_iff_spans.mp below
      refine passesBelow_iff_spans.mpr ⟨spans, lt_of_le_of_ne (first d hd below) fun meet => ?_⟩
      have same : r = ⟨p.x, level d.1 d.2 p.x⟩ := Vertex.eq_of_coordinates rfl meet
      exact separate r on ⟨d, hd, same ▸ spans.onSegment⟩
  rwa [same]

/-- Where two footprints have a point in common and their outlines have none, one of them encloses a
point of the outline of the other. -/
theorem exists_on_either (separate : Separate f g) (inF : f.encloses p = true)
    (inG : g.encloses p = true) :
    (∃ r, f.OnOutline r ∧ g.encloses r = true) ∨ ∃ r, g.OnOutline r ∧ f.encloses r = true := by
  rcases encloses_iff.mp inF with on | oddF
  · exact .inl ⟨p, on, inG⟩
  rcases encloses_iff.mp inG with on | oddG
  · exact .inr ⟨p, on, inF⟩
  have some : 0 < crossings p (f.edges ++ g.edges) := by
    rw [crossings, List.countP_append]
    exact Nat.add_pos_left oddF.pos _
  obtain ⟨e, he, below, first⟩ := exists_first _ some
  rcases List.mem_append.mp he with he | he
  · exact .inl (exists_onOutline separate he below
      (fun d hd => first d (List.mem_append_right _ hd)) oddG)
  · exact .inr (exists_onOutline separate.symm he below
      (fun d hd => first d (List.mem_append_left _ hd)) oddF)

/-- Footprints overlap just if some point is enclosed by both. -/
theorem overlaps_iff : f.overlaps g = true ↔ ∃ p, f.encloses p = true ∧ g.encloses p = true := by
  rw [overlaps, Bool.or_eq_true, Bool.or_eq_true, List.any_eq_true, List.any_eq_true,
    edgesTouch_iff_outlines]
  constructor
  · rintro ((⟨v, hv, enclosed⟩ | ⟨v, hv, enclosed⟩) | ⟨r, on, on'⟩)
    · exact ⟨v, encloses_iff.mpr (.inl (onOutline_of_mem hv)), enclosed⟩
    · exact ⟨v, enclosed, encloses_iff.mpr (.inl (onOutline_of_mem hv))⟩
    · exact ⟨r, encloses_iff.mpr (.inl on), encloses_iff.mpr (.inl on')⟩
  · rintro ⟨p, inF, inG⟩
    by_cases shared : ∃ r, f.OnOutline r ∧ g.OnOutline r
    · exact .inr shared
    have separate : Separate f g := fun r on on' => shared ⟨r, on, on'⟩
    rcases exists_on_either separate inF inG with ⟨r, on, enclosed⟩ | ⟨r, on, enclosed⟩
    · exact .inl (.inl (exists_vertex separate on enclosed))
    · exact .inl (.inr (exists_vertex separate.symm on enclosed))

end Footprint

namespace Shape

variable {s t : Shape ℚ} {b c : Box ℚ}

theorem eq_cuboid_of_bothCuboids (h : bothCuboids s t = true) :
    ∃ b c, s = .cuboid b ∧ t = .cuboid c := by
  cases s with
  | cuboid b =>
    cases t with
    | cuboid c => exact ⟨b, c, rfl, rfl⟩
    | polygon | everywhere => cases h
  | polygon | everywhere => cases h

/-- Shapes whose boxes meet have heights in common, so a point that both footprints enclose stands
below a point of both. -/
theorem exists_common (hs : s.fault? = none) (ht : t.fault? = none) (hb : s.bounds? = some b)
    (hc : t.bounds? = some c) (meet : b.intersects c = true)
    (overlap : Footprint.overlaps s.footprint t.footprint = true) :
    ∃ p, s.contains p = true ∧ t.contains p = true := by
  obtain ⟨v, inS, inT⟩ := Footprint.overlaps_iff.mp overlap
  obtain ⟨q, inB, inC⟩ :=
    (Box.intersects_iff_common (isValid_bounds? hs hb) (isValid_bounds? ht hc)).mp meet
  rw [Box.contains_iff, Point.below_iff, Point.below_iff] at inB inC
  exact ⟨⟨v.x, q.y, v.z⟩, (contains_iff hs hb).mpr ⟨⟨inB.1.2.1, inB.2.2.1⟩, inS⟩,
    (contains_iff ht hc).mpr ⟨⟨inC.1.2.1, inC.2.2.1⟩, inT⟩⟩

/-- Two sound shapes, neither of them the whole world, overlap just if some point is in both. -/
theorem intersects_iff_shared (hs : s.fault? = none) (ht : t.fault? = none)
    (bounded : s.isGlobal = false) (bounded' : t.isGlobal = false) :
    s.intersects t = true ↔ ∃ p, s.contains p = true ∧ t.contains p = true := by
  obtain ⟨b, hb⟩ := exists_bounds?_iff.mpr bounded
  obtain ⟨c, hc⟩ := exists_bounds?_iff.mpr bounded'
  have boxes := Box.intersects_iff_common (isValid_bounds? hs hb) (isValid_bounds? ht hc)
  simp only [intersects, hb, hc, Bool.and_eq_true, Bool.or_eq_true]
  constructor
  · rintro ⟨meet, cuboids | overlap⟩
    · obtain ⟨b, c, rfl, rfl⟩ := eq_cuboid_of_bothCuboids cuboids
      cases hb
      cases hc
      exact boxes.mp meet
    · exact exists_common hs ht hb hc meet overlap
  · rintro ⟨p, inS, inT⟩
    refine ⟨boxes.mpr ⟨p, contains_bounds? hb inS, contains_bounds? hc inT⟩, .inr ?_⟩
    exact Footprint.overlaps_iff.mpr
      ⟨_, ((contains_iff hs hb).mp inS).2, ((contains_iff ht hc).mp inT).2⟩

/-- An L and three flat boxes whose bounds meet its own: one lies between the arms and misses it, one
touches the inner corner, and one runs across an arm with no corner of either in the other. -/
theorem intersects_iff_shared_of_notch : ∃ s t t' t'' : Shape ℚ,
    s = .polygon ⟨[⟨0, 0⟩, ⟨10, 0⟩, ⟨10, 4⟩, ⟨4, 4⟩, ⟨4, 10⟩, ⟨0, 10⟩], 0, 2⟩ ∧
    t = .cuboid ⟨⟨5, 1, 5⟩, ⟨9, 1, 9⟩⟩ ∧ t' = .cuboid ⟨⟨4, 2, 4⟩, ⟨9, 2, 9⟩⟩ ∧
    t'' = .cuboid ⟨⟨6, 1, -1⟩, ⟨7, 1, 5⟩⟩ ∧
    (s.fault? = none ∧ t.fault? = none ∧ t'.fault? = none ∧ t''.fault? = none) ∧
    (s.isGlobal = false ∧ t.isGlobal = false ∧ t'.isGlobal = false ∧ t''.isGlobal = false) ∧
    (¬∃ p, s.contains p = true ∧ t.contains p = true) ∧
    (∃ p, s.contains p = true ∧ t'.contains p = true) ∧
    ∃ p, s.contains p = true ∧ t''.contains p = true := by
  let s : Shape ℚ := .polygon ⟨[⟨0, 0⟩, ⟨10, 0⟩, ⟨10, 4⟩, ⟨4, 4⟩, ⟨4, 10⟩, ⟨0, 10⟩], 0, 2⟩
  let t : Shape ℚ := .cuboid ⟨⟨5, 1, 5⟩, ⟨9, 1, 9⟩⟩
  let t' : Shape ℚ := .cuboid ⟨⟨4, 2, 4⟩, ⟨9, 2, 9⟩⟩
  let t'' : Shape ℚ := .cuboid ⟨⟨6, 1, -1⟩, ⟨7, 1, 5⟩⟩
  have hs : s.fault? = none := Option.isNone_iff_eq_none.mp (by decide +kernel)
  have ht : t.fault? = none := Option.isNone_iff_eq_none.mp (by decide +kernel)
  have ht' : t'.fault? = none := Option.isNone_iff_eq_none.mp (by decide +kernel)
  have ht'' : t''.fault? = none := Option.isNone_iff_eq_none.mp (by decide +kernel)
  refine ⟨s, t, t', t'', rfl, rfl, rfl, rfl, ⟨hs, ht, ht', ht''⟩, ⟨rfl, rfl, rfl, rfl⟩, ?_, ?_, ?_⟩
  · rw [← intersects_iff_shared hs ht rfl rfl]
    decide +kernel
  · exact (intersects_iff_shared hs ht' rfl rfl).mp (by decide +kernel)
  · exact (intersects_iff_shared hs ht'' rfl rfl).mp (by decide +kernel)

end Shape

end Enclave
