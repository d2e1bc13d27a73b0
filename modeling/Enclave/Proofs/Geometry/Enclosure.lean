import Mathlib.Algebra.Ring.Parity
import Enclave.Proofs.Geometry.Outline
import Enclave.Proofs.Geometry.Segment

/-!
# What a footprint encloses

A footprint encloses the points of its edges, and of the others those below which an odd number of
its edges pass (`Footprint.encloses_iff`). Neither depends on the direction of an edge or on the
order of the edges, so it encloses the same points wherever its list of vertices starts and
whichever way it runs (`Footprint.retraced`).

Cut along a chord, it leaves no gap and no overlap: apart from the edges and the chord, a point
belongs to the whole just if it belongs to one of the two parts and not to the other
(`Footprint.seamless`). The two parts have the chord in common, and the whole nothing that neither
of them has. This is said of any chord, also of one that leaves the footprint or crosses its edges.

All of it is about exact coordinates.
-/

namespace Enclave.Footprint

variable {f g : Footprint ℚ} {p : Vertex ℚ}

/-- On an edge of the footprint. -/
def OnOutline (f : Footprint ℚ) (p : Vertex ℚ) : Prop := ∃ e ∈ f.edges, p.OnSegment e.1 e.2

instance : Decidable (f.OnOutline p) := inferInstanceAs (Decidable (∃ e ∈ f.edges, _))

/-- How many of the edges pass below the point. -/
def crossings (p : Vertex ℚ) (edges : List (Vertex ℚ × Vertex ℚ)) : ℕ :=
  edges.countP fun e => passing p e.1 e.2 = .below

theorem crossings_swap (p : Vertex ℚ) (edges : List (Vertex ℚ × Vertex ℚ)) :
    crossings p (edges.map Prod.swap) = crossings p edges := by
  unfold crossings
  rw [List.countP_map]
  refine List.countP_congr fun e _ => ?_
  simp only [Function.comp_apply, decide_eq_true_eq]
  exact passing_eq_below_comm

/-- A point is told to be on some edge if it is on one. The edge that starts there may not tell, but
then the one that ends there does. -/
theorem exists_passing_on_iff :
    (∃ e ∈ f.edges, passing p e.1 e.2 = .on) ↔ f.OnOutline p := by
  constructor
  · rintro ⟨e, he, on⟩
    exact ⟨e, he, onSegment_of_passing on⟩
  · rintro ⟨e, he, on⟩
    by_cases start : p = e.1
    · obtain ⟨d, hd, last⟩ := exists_edge_to (fst_mem_of_mem_edges he)
      refine ⟨d, hd, ?_⟩
      rw [passing, last, start, beq_self_eq_true, if_pos rfl]
    · exact ⟨e, he, passing_of_onSegment on start⟩

theorem encloses_iff :
    f.encloses p = true ↔ f.OnOutline p ∨ Odd (crossings p f.edges) := by
  have on : (f.edges.map fun e => passing p e.1 e.2).contains .on = true ↔ f.OnOutline p := by
    rw [List.contains_iff_mem, List.mem_map]
    exact exists_passing_on_iff
  have below : (f.edges.map fun e => passing p e.1 e.2).count .below = crossings p f.edges := by
    rw [List.count, List.countP_map]
    rfl
  unfold encloses
  rw [Bool.or_eq_true, on, below, beq_iff_eq, Nat.odd_iff]

theorem encloses_iff_of_off (off : ¬f.OnOutline p) :
    f.encloses p = true ↔ Odd (crossings p f.edges) :=
  encloses_iff.trans (or_iff_right off)

/-! ## However it is traced -/

theorem encloses_congr (on : f.OnOutline p ↔ g.OnOutline p)
    (below : crossings p f.edges = crossings p g.edges) : f.encloses p = g.encloses p := by
  rw [Bool.eq_iff_iff, encloses_iff, encloses_iff, on, below]

theorem encloses_of_perm (perm : f.edges.Perm g.edges) : f.encloses p = g.encloses p := by
  refine encloses_congr ?_ (perm.countP_eq _)
  simp only [OnOutline, perm.mem_iff]

theorem encloses_of_perm_swap (perm : f.edges.Perm (g.edges.map Prod.swap)) :
    f.encloses p = g.encloses p := by
  refine encloses_congr ?_ ((perm.countP_eq _).trans (crossings_swap p g.edges))
  unfold OnOutline
  simp only [perm.mem_iff, List.mem_map]
  constructor
  · rintro ⟨-, ⟨e, he, rfl⟩, on⟩
    exact ⟨e, he, on.symm⟩
  · rintro ⟨e, he, on⟩
    exact ⟨e.swap, ⟨e, he, rfl⟩, on.symm⟩

/-- A footprint encloses its outline, and the same points wherever its list of vertices starts and
whichever way it runs. -/
theorem retraced (f : Footprint ℚ) (p : Vertex ℚ) :
    (f.OnOutline p → f.encloses p = true) ∧
    (∀ k, encloses (f.rotate k) p = f.encloses p) ∧
    encloses f.reverse p = f.encloses p :=
  ⟨fun on => encloses_iff.mpr (.inl on), fun k => encloses_of_perm (edges_rotate_perm f k),
    encloses_of_perm_swap (edges_reverse_perm f)⟩

/-- A vertex that is listed twice, a slanted edge. -/
theorem retraced_of_triangle : ∃ f : Footprint ℚ, f = [⟨0, 0⟩, ⟨4, 4⟩, ⟨4, 4⟩, ⟨4, 0⟩] ∧
    f.OnOutline ⟨3, 3⟩ ∧ f.encloses ⟨3, 3⟩ = true ∧
    encloses (f.rotate 2) ⟨3, 3⟩ = f.encloses ⟨3, 3⟩ ∧
    encloses f.reverse ⟨3, 3⟩ = f.encloses ⟨3, 3⟩ := by
  let f : Footprint ℚ := [⟨0, 0⟩, ⟨4, 4⟩, ⟨4, 4⟩, ⟨4, 0⟩]
  have on : f.OnOutline ⟨3, 3⟩ := by decide +kernel
  obtain ⟨outline, rotated, reversed⟩ := retraced f ⟨3, 3⟩
  exact ⟨f, rfl, on, outline on, rotated 2, reversed⟩

/-! ## Cut along a chord -/

section Cut

variable {i j : ℕ} (before : i < j) (within : j < f.length)
include before within

/-- The edges of the parts are those of the whole and the chord. -/
theorem onOutline_cut_iff :
    (f.stretch i j).OnOutline p ∨ (f.remainder i j).OnOutline p ↔
      p.OnSegment f[i] f[j] ∨ f.OnOutline p := by
  have perm := f.edges_cut_perm before within
  calc (f.stretch i j).OnOutline p ∨ (f.remainder i j).OnOutline p
      ↔ ∃ e ∈ (f.stretch i j).edges ++ (f.remainder i j).edges, p.OnSegment e.1 e.2 := by
        simp only [OnOutline, List.mem_append, or_and_right, exists_or]
    _ ↔ ∃ e ∈ (f[j], f[i]) :: (f[i], f[j]) :: f.edges, p.OnSegment e.1 e.2 := by
        simp only [perm.mem_iff]
    _ ↔ p.OnSegment f[j] f[i] ∨ p.OnSegment f[i] f[j] ∨ f.OnOutline p := by
        simp only [OnOutline, List.mem_cons, or_and_right, exists_or, exists_eq_left]
    _ ↔ p.OnSegment f[i] f[j] ∨ f.OnOutline p :=
        ⟨fun h => h.elim (fun on => .inl on.symm) id, .inr⟩

/-- The chord counts in both parts, so it makes no difference to whether the count is odd. -/
theorem odd_crossings_cut_iff : Odd (crossings p f.edges) ↔
    ¬(Odd (crossings p (f.stretch i j).edges) ↔ Odd (crossings p (f.remainder i j).edges)) := by
  have count := (f.edges_cut_perm before within).countP_eq fun e => passing p e.1 e.2 = .below
  rw [List.countP_append, List.countP_cons, List.countP_cons] at count
  simp only [decide_eq_true_eq, passing_eq_below_comm (u := f[j])] at count
  simp only [Nat.odd_iff, crossings]
  split_ifs at count <;> omega

end Cut

/-- The two parts of a footprint that is cut along a chord leave no gap between them, and nothing
but edges and the chord is in both for being in the whole. -/
theorem seamless (f : Footprint ℚ) {i j : ℕ} (before : i < j) (within : j < f.length)
    (p : Vertex ℚ) :
    (f.encloses p = true →
      (f.stretch i j).encloses p = true ∨ (f.remainder i j).encloses p = true) ∧
    (¬f.OnOutline p → ¬p.OnSegment f[i] f[j] →
      f.encloses p = ((f.stretch i j).encloses p ^^ (f.remainder i j).encloses p)) ∧
    (p.OnSegment f[i] f[j] →
      (f.stretch i j).encloses p = true ∧ (f.remainder i j).encloses p = true) := by
  have outline := onOutline_cut_iff (p := p) before within
  have odd := odd_crossings_cut_iff (p := p) before within
  have onChord (on : p.OnSegment f[i] f[j]) :
      (f.stretch i j).encloses p = true ∧ (f.remainder i j).encloses p = true :=
    ⟨encloses_iff.mpr (.inl ⟨_, f.chord_mem_edges_stretch before within, on.symm⟩),
      encloses_iff.mpr (.inl ⟨_, f.chord_mem_edges_remainder before within, on⟩)⟩
  refine ⟨fun whole => ?_, fun off offChord => ?_, onChord⟩
  · rw [encloses_iff, odd] at whole
    rw [encloses_iff, encloses_iff]
    tauto
  · have neither := mt outline.mp (not_or.mpr ⟨offChord, off⟩)
    obtain ⟨offStretch, offRemainder⟩ := not_or.mp neither
    rw [Bool.eq_iff_iff, Bool.xor_iff_ne, ne_eq, Bool.eq_iff_iff (a := (f.stretch i j).encloses p),
      encloses_iff_of_off off, encloses_iff_of_off offStretch, encloses_iff_of_off offRemainder]
    exact odd

/-- An L, and a chord that runs outside it from arm to arm. What lies between the arms is in both
parts, and so not in the whole. -/
theorem seamless_of_notch : ∃ f : Footprint ℚ,
    f = [⟨0, 0⟩, ⟨10, 0⟩, ⟨10, 4⟩, ⟨4, 4⟩, ⟨4, 10⟩, ⟨0, 10⟩] ∧ 2 < 4 ∧ 4 < f.length ∧
    ¬f.OnOutline ⟨6, 6⟩ ∧ ¬(⟨6, 6⟩ : Vertex ℚ).OnSegment ⟨10, 4⟩ ⟨4, 10⟩ ∧
    (f.stretch 2 4).encloses ⟨6, 6⟩ = true ∧ (f.remainder 2 4).encloses ⟨6, 6⟩ = true ∧
    f.encloses ⟨6, 6⟩ = false ∧
    (⟨7, 7⟩ : Vertex ℚ).OnSegment ⟨10, 4⟩ ⟨4, 10⟩ ∧
    (f.stretch 2 4).encloses ⟨7, 7⟩ = true ∧ (f.remainder 2 4).encloses ⟨7, 7⟩ = true := by
  let f : Footprint ℚ := [⟨0, 0⟩, ⟨10, 0⟩, ⟨10, 4⟩, ⟨4, 4⟩, ⟨4, 10⟩, ⟨0, 10⟩]
  have before : 2 < 4 := by decide
  have within : 4 < f.length := by decide
  have off : ¬f.OnOutline ⟨6, 6⟩ := by decide +kernel
  have offChord : ¬(⟨6, 6⟩ : Vertex ℚ).OnSegment ⟨10, 4⟩ ⟨4, 10⟩ := by decide +kernel
  have onChord : (⟨7, 7⟩ : Vertex ℚ).OnSegment ⟨10, 4⟩ ⟨4, 10⟩ := by decide +kernel
  have stretch : (f.stretch 2 4).encloses ⟨6, 6⟩ = true := by decide +kernel
  have remainder : (f.remainder 2 4).encloses ⟨6, 6⟩ = true := by decide +kernel
  have whole := (seamless f before within ⟨6, 6⟩).2.1 off offChord
  rw [stretch, remainder] at whole
  exact ⟨f, rfl, before, within, off, offChord, stretch, remainder, whole, onChord,
    (seamless f before within ⟨7, 7⟩).2.2 onChord⟩

end Enclave.Footprint
