import Enclave.Proofs.World.Territory

/-!
# What every territory keeps to

A territory that can be reached grants a request exactly if it can be granted, and never refuses one
for a fault of its own: the index takes every box that it is given and finds what it is asked for,
and no audit finds anything (`Territory.Reachable.contract`). What is granted changes what the
request is about and nothing else; what is refused changes nothing at all
(`Territory.Reachable.frame`).
-/

namespace Enclave.Territory

open Region (Names)
open Relation (ReflTransGen)

variable {t : Territory}

/-! ## When requests are granted -/

/-- When the territory grants a request, and what it refuses it for otherwise. -/
structure Contract [Platform] (t : Territory) (request : Request) : Prop where
  granted_iff : (∃ x, (t.serve request).2 = .ok x) ↔ request.Admissible t
  refused : ∀ e, (t.serve request).2 = .error e → request.Grounds t e ∧ e.isInternal = false
  /-- A parent is circular exactly if it is the region or one of its descendants. -/
  circular_iff : ∀ child parent, (t.serve request).2 = .error (.circularParent child parent) ↔
    request = .setParent child (some parent) ∧ t.atlas.contains child = true ∧
      t.atlas.contains parent = true ∧ ReflTransGen (Names t.atlas.regions) parent child

/-- Where both regions are there, only a circle stands in the way of a parent. -/
theorem eq_circularParent_of_grounds {child parent : RegionId} {e : Refusal}
    (grounds : (Request.setParent child (some parent)).Grounds t e)
    (hchild : t.atlas.contains child = true) (hparent : t.atlas.contains parent = true) :
    e = .circularParent child parent := by
  cases grounds with
  | missing subject absent =>
    cases subject
    exact absurd (absent.symm.trans hchild) Bool.false_ne_true
  | unknownParent absent => exact absurd (absent.symm.trans hparent) Bool.false_ne_true
  | circular => rfl

/-- Every territory that can be reached keeps to the contract. A region that is to be added must
have a sound shape, as every region has that was made. -/
theorem Reachable.contract [Platform] (h : t.Reachable) (request : Request)
    (sound : request.Sound) : t.Contract request := by
  have answered := answered_serve h.consistent h.sound.usable request
  have grounds : ∀ e, (t.serve request).2 = .error e → request.Grounds t e := fun e refused =>
    (answered.refused e refused).2 sound
  have granted_iff : (∃ x, (t.serve request).2 = .ok x) ↔ request.Admissible t := by
    constructor
    · rintro ⟨x, granted⟩
      obtain ⟨a, -, grants⟩ := answered.granted x granted
      exact grants.admissible
    · intro admissible
      cases outcome : (t.serve request).2 with
      | ok x => exact ⟨x, rfl⟩
      | error e => exact absurd admissible (grounds e outcome).not_admissible
  refine ⟨granted_iff, fun e refused => ⟨grounds e refused, (grounds e refused).isInternal_eq_false⟩,
    fun child parent => ⟨fun refused => Request.Grounds.circular_iff.mp (grounds _ refused), ?_⟩⟩
  rintro ⟨rfl, hchild, hparent, path⟩
  cases outcome : (t.serve (.setParent child (some parent))).2 with
  | ok x => exact absurd path ((granted_iff.mp ⟨x, outcome⟩).2 parent rfl).2
  | error e => rw [eq_circularParent_of_grounds (grounds e outcome) hchild hparent]

/-- The region of the whole world cannot lie in a region that lies in it; nor can a region without a
parent be added a second time. -/
theorem contract_of_spawn : letI := Platform.reference
    ∃ (t : Territory) (spawn : Region),
    (t.serve (.setParent .global (some spawn.id))).2 = .error (.circularParent .global spawn.id) ∧
    ¬ ∃ x, (t.serve (.add spawn)).2 = .ok x := by
  let := Platform.reference
  have start : make { verify := false } .builtin =
    .ok ⟨{ verify := false }, .builtin, .blank (.empty {})⟩ := rfl
  let spawn : Region :=
    { id := ⟨"spawn", by decide +kernel⟩
      shape := .cuboid ⟨⟨0, 0, 0⟩, ⟨2, 2, 2⟩⟩
      parent := some .global }
  have reachable := ((Reachable.make start).add .everywhere).add spawn
  have circular := reachable.contract (.setParent .global (some spawn.id)) trivial
  have sound : spawn.shape.fault? = none := Option.isNone_iff_eq_none.mp (by decide +kernel)
  have again := reachable.contract (.add spawn) sound
  refine ⟨_, spawn, (circular.circular_iff .global spawn.id).mpr ⟨rfl, ?_, ?_, .single ?_⟩, ?_⟩
  · decide +kernel
  · decide +kernel
  · exact (Option.bind_eq_some_iff (f := Region.parent)).mp (by decide +kernel)
  · rw [again.granted_iff]
    exact fun admissible => Bool.false_ne_true (admissible.2.1.symm.trans (by decide +kernel))

/-! ## What requests change -/

/-- What a request leaves alone, and what it changes. -/
structure Frame [Platform] (t : Territory) (request : Request) : Prop where
  refused : ∀ e, (t.serve request).2 = .error e → (t.serve request).1 = t
  granted : ∀ x, (t.serve request).2 = .ok x →
    (t.serve request).1.generation = t.generation + 1 ∧
      (t.serve request).1.policy = t.policy ∧ (t.serve request).1.catalogue = t.catalogue ∧
      request.Change t.atlas.regions (t.serve request).1.atlas.regions x ∧
      (t.serve request).1.atlas.InStep

/-- A request that is refused leaves everything as it is. One that is granted makes its change in
the table and no other; the index and the list keep in step, and the next generation begins. -/
theorem Reachable.frame [Platform] (h : t.Reachable) (request : Request) : t.Frame request := by
  have answered := answered_serve h.consistent h.sound.usable request
  refine ⟨fun e refused => (answered.refused e refused).1, fun x granted => ?_⟩
  obtain ⟨a, next, grants⟩ := answered.granted x granted
  rw [next]
  exact ⟨congrArg Nat.succ grants.generation_eq, rfl, rfl, grants.change,
    grants.toConsistent.succ.toInStep⟩

/-- When the region of the whole world is removed, what lay in it stays and has no parent. -/
theorem frame_of_removed_parent : letI := Platform.reference
    ∃ (t : Territory) (spawn : RegionId),
    Names t.atlas.regions spawn .global ∧
    (t.serve (.remove .global)).1.generation = t.generation + 1 ∧
    Orphaned t.atlas.regions (t.serve (.remove .global)).1.atlas.regions .global := by
  let := Platform.reference
  have start : make { verify := false } .builtin =
    .ok ⟨{ verify := false }, .builtin, .blank (.empty {})⟩ := rfl
  let spawn : Region :=
    { id := ⟨"spawn", by decide +kernel⟩
      shape := .cuboid ⟨⟨0, 0, 0⟩, ⟨2, 2, 2⟩⟩
      parent := some .global }
  let blank : Territory := ⟨{ verify := false }, .builtin, .blank (.empty {})⟩
  let t := ((blank.add .everywhere).1.add spawn).1
  have reachable : t.Reachable := ((Reachable.make start).add .everywhere).add spawn
  have frame := reachable.frame (.remove .global)
  refine ⟨t, spawn.id, (Option.bind_eq_some_iff (f := Region.parent)).mp (by decide +kernel), ?_⟩
  have granted : (t.serve (.remove .global)).2.isOk = true := by decide +kernel
  cases outcome : (t.serve (.remove .global)).2 with
  | error e =>
    rw [outcome] at granted
    cases granted
  | ok r =>
    obtain ⟨generation, -, -, change, -⟩ := frame.granted r outcome
    exact ⟨generation, change.2⟩

end Enclave.Territory
