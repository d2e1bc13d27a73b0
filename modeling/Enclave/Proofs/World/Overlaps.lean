import Enclave.Proofs.World.Queries

/-!
# What overlaps is what a scan finds

The regions whose boxes meet a box, and the regions whose shapes overlap a shape, are those that
looking at the whole table and sorting gives (`Territory.Reachable.surveyed`). The box or the shape
that is asked for may be anything: corners the wrong way round, coordinates that are no numbers, the
whole world.

Shapes are compared only where the index found that their boxes meet. Nothing is lost by that, since
shapes overlap only if their boxes do (`Shape.exists_bounds?_of_intersects`).
-/

namespace Enclave

open Region (Precedes)

/-- Both of two shapes that overlap have a box, and the boxes meet. -/
theorem Shape.exists_bounds?_of_intersects {s t : Shape Float} (overlap : s.intersects t = true) :
    ∃ b c, s.bounds? = some b ∧ t.bounds? = some c ∧ b.intersects c = true := by
  rw [intersects] at overlap
  split at overlap
  next b c hb hc => exact ⟨b, c, hb, hc, (Bool.and_eq_true_iff.mp overlap).1⟩
  next => exact absurd overlap Bool.false_ne_true

theorem Shape.isGlobal_of_intersects {s t : Shape Float} (overlap : s.intersects t = true) :
    s.isGlobal = false := by
  obtain ⟨b, -, hb, -⟩ := exists_bounds?_of_intersects overlap
  exact exists_bounds?_iff.mp ⟨b, hb⟩

namespace Atlas

variable {a : Atlas} {r : Region}

/-! ## Boxes -/

theorem InStep.mem_regionsMeeting_iff (inStep : a.InStep) {area : Box Float} :
    r ∈ a.regionsMeeting area ↔
      a.get? r.id = some r ∧ ∃ b, r.bounds? = some b ∧ b.intersects area = true := by
  rw [regionsMeeting, (Region.inPrecedence_perm _).mem_iff]
  exact inStep.mem_search_iff fun _ _ within => within.intersects

theorem InStep.nodup_regionsMeeting (inStep : a.InStep) (area : Box Float) :
    (a.regionsMeeting area).Nodup := by
  have keys := (inStep.indexed.sound.answers_keysMeeting area).nodup
  exact (Region.inPrecedence_perm _).nodup_iff.mpr (inStep.nodup_filterMap_get? keys)

theorem InStep.finds_regionsMeeting (inStep : a.InStep) (area : Box Float) :
    a.Finds (fun r => !r.isGlobal && r.bounds?.any (·.intersects area)) (a.regionsMeeting area) := by
  refine inStep.finds (fun r => ?_) (inStep.nodup_regionsMeeting area)
    (Region.pairwise_inPrecedence _)
  rw [inStep.mem_regionsMeeting_iff, Bool.and_eq_true, Option.any_eq_true, Bool.not_eq_true']
  refine and_congr_right fun _ => ⟨fun ⟨b, hb, meets⟩ => ?_, fun ⟨_, met⟩ => met⟩
  exact ⟨Shape.exists_bounds?_iff.mp ⟨b, hb⟩, b, hb, meets⟩

/-! ## Shapes -/

/-- The index finds every region whose shape overlaps a shape, by the box of that shape. -/
theorem InStep.mem_regionsMeeting_of_intersects (inStep : a.InStep) {shape : Shape Float}
    (here : a.get? r.id = some r) (overlap : r.shape.intersects shape = true) :
    ∃ area, shape.bounds? = some area ∧ r ∈ a.regionsMeeting area := by
  obtain ⟨b, area, hb, harea, meets⟩ := Shape.exists_bounds?_of_intersects overlap
  exact ⟨area, harea, inStep.mem_regionsMeeting_iff.mpr ⟨here, b, hb, meets⟩⟩

theorem InStep.mem_regionsOverlapping_iff (inStep : a.InStep) {shape : Shape Float} :
    r ∈ a.regionsOverlapping shape ↔ a.get? r.id = some r ∧ r.shape.intersects shape = true := by
  constructor
  · intro h
    rw [regionsOverlapping] at h
    split at h
    next area _ =>
      obtain ⟨met, overlap⟩ := List.mem_filter.mp h
      exact ⟨(inStep.mem_regionsMeeting_iff.mp met).1, overlap⟩
    next => exact absurd h List.not_mem_nil
  · rintro ⟨here, overlap⟩
    obtain ⟨area, bounded, met⟩ := inStep.mem_regionsMeeting_of_intersects here overlap
    rw [regionsOverlapping, bounded]
    exact List.mem_filter.mpr ⟨met, overlap⟩

theorem InStep.finds_regionsOverlapping (inStep : a.InStep) (shape : Shape Float) :
    a.Finds (fun r => !r.isGlobal && r.shape.intersects shape) (a.regionsOverlapping shape) := by
  have ordered : (a.regionsOverlapping shape).Nodup ∧
      (a.regionsOverlapping shape).Pairwise Precedes := by
    rw [regionsOverlapping]
    cases shape.bounds? with
    | none => exact ⟨.nil, .nil⟩
    | some area =>
      exact ⟨(inStep.nodup_regionsMeeting area).filter _,
        (Region.pairwise_inPrecedence _).filter _⟩
  refine inStep.finds (fun r => ?_) ordered.1 ordered.2
  rw [inStep.mem_regionsOverlapping_iff, Bool.and_eq_true, Bool.not_eq_true']
  exact and_congr_right fun _ => ⟨fun overlap =>
    ⟨Shape.isGlobal_of_intersects overlap, overlap⟩, And.right⟩

/-- Queries for what overlaps find what a scan finds, and no region is lost by asking the index for
boxes first. -/
structure Surveyed (a : Atlas) : Prop where
  boxes : ∀ area : Box Float,
    a.Finds (fun r => !r.isGlobal && r.bounds?.any (·.intersects area)) (a.regionsMeeting area)
  shapes : ∀ shape : Shape Float,
    a.Finds (fun r => !r.isGlobal && r.shape.intersects shape) (a.regionsOverlapping shape)
  kept : ∀ (shape : Shape Float) (r : Region), a.get? r.id = some r →
    r.shape.intersects shape = true →
      ∃ area, shape.bounds? = some area ∧ r ∈ a.regionsMeeting area

end Atlas

namespace Territory

/-- On a territory that can be reached, the queries for what overlaps a box or a shape find what
looking at every region finds. -/
theorem Reachable.surveyed {t : Territory} (h : t.Reachable) : t.atlas.Surveyed :=
  have inStep := h.consistent.toInStep
  ⟨inStep.finds_regionsMeeting, inStep.finds_regionsOverlapping,
    fun _ _ => inStep.mem_regionsMeeting_of_intersects⟩

/-- A triangle in the region of the whole world: a cuboid within the box of the triangle, but beyond
its long side, does not overlap it. -/
theorem surveyed_of_triangle : ∃ t : Territory, t.size = 2 ∧
    (t.atlas.regionsMeeting ⟨⟨3, 0, 3⟩, ⟨4, 1, 4⟩⟩).map (·.id.text) = ["triangle"] ∧
    t.atlas.regionsOverlapping (.cuboid ⟨⟨3, 0, 3⟩, ⟨4, 1, 4⟩⟩) = [] ∧
    (t.atlas.regionsOverlapping (.cuboid ⟨⟨2, 0, 2⟩, ⟨4, 1, 4⟩⟩)).map (·.id.text) = ["triangle"] ∧
    t.atlas.Surveyed := by
  let := Platform.reference
  have start : make {} .builtin = .ok ⟨{}, .builtin, .blank (.empty {})⟩ := rfl
  have reachable := (Reachable.make start).add .everywhere
  have reachable := reachable.add { id := ⟨"triangle", by decide +kernel⟩
                                    shape := .polygon ⟨[⟨0, 0⟩, ⟨4, 0⟩, ⟨0, 4⟩], 0, 1⟩ }
  refine ⟨_, by decide +kernel, by decide +kernel, ?_, by decide +kernel, reachable.surveyed⟩
  exact List.isEmpty_iff.mp (by decide +kernel)

end Territory

end Enclave
