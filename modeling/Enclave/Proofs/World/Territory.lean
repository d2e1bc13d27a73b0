import Enclave.Proofs.World.Answers

/-!
# Every atlas of a territory is consistent

Whatever is asked of a territory, and in whatever order, its atlas is consistent
(`Territory.Reachable.consistent`). A request that is refused leaves the atlas as it is; of every
other, what it gives is consistent by itself. So the audit that a policy may ask for finds nothing,
and it makes no difference whether it is asked for.
-/

namespace Enclave.Territory

variable {α : Type} {t : Territory} {p : Policy} {c : Catalogue}

/-- A request publishes what it gives, as the next generation, or leaves the territory as it is. -/
theorem commit_cases (t : Territory) (change : Except Refusal (α × Atlas)) :
    (t.commit change).1 = t ∨
      ∃ x a, change = .ok (x, a) ∧ (t.commit change).1 = { t with atlas := a.succ } := by
  rcases change with refusal | ⟨x, a⟩
  · exact .inl rfl
  · rw [commit, publish]
    split
    · exact .inl rfl
    · exact .inr ⟨x, a, rfl, rfl⟩

/-- No request changes the policy or the catalogue. -/
theorem commit_frame (t : Territory) (change : Except Refusal (α × Atlas)) :
    (t.commit change).1.policy = t.policy ∧ (t.commit change).1.catalogue = t.catalogue := by
  rcases t.commit_cases change with same | ⟨_, _, -, next⟩
  · rw [same]
    exact ⟨rfl, rfl⟩
  · rw [next]
    exact ⟨rfl, rfl⟩

@[simp] theorem policy_add [Platform] (t : Territory) (r : Region) :
    (t.add r).1.policy = t.policy := (t.commit_frame _).1

@[simp] theorem catalogue_add [Platform] (t : Territory) (r : Region) :
    (t.add r).1.catalogue = t.catalogue := (t.commit_frame _).2

/-! ## Sound territories -/

/-- The atlas is consistent, and the policy can be used. -/
structure Sound (t : Territory) : Prop extends t.atlas.Consistent where
  usable : t.policy.fanout.Usable
  bounds : t.policy.minPriority ≤ t.policy.maxPriority

theorem sound_make (h : make p c = .ok t) : t.Sound := by
  obtain ⟨⟨⟩, bounds, h⟩ := bind_eq_ok_iff.mp h
  obtain ⟨index, made, h⟩ := bind_eq_ok_iff.mp h
  obtain rfl := pure_eq_ok_iff.mp h
  obtain ⟨usable, rfl⟩ := RTree.make_eq_ok_iff.mp (Refusal.ofIndex_eq_ok_iff.mp made)
  have forest : Region.Forest (∅ : RegionTable) :=
    Region.forest_of_forall_not_names fun _ _ ⟨_, h, _⟩ => nomatch h
  exact ⟨⟨Atlas.inStep_blank (RTree.sound_empty usable) rfl, forest⟩, usable,
    p.ends_checkBounds.ok () bounds⟩

/-- Declarations give a territory under any policy that can be used, if they can be loaded. -/
theorem ends_ofDeclarations [Platform] (p : Policy) (c : Catalogue) (ds : List Declaration) :
    Ends (ofDeclarations p c ds)
      (fun t => p.minPriority ≤ p.maxPriority ∧ t.policy = p ∧ t.catalogue = c ∧
        Atlas.LoadedFrom p c 0 ds t.atlas)
      fun e => p.minPriority ≤ p.maxPriority → p.fanout.Usable → Unloadable p c ds e := by
  refine (p.ends_checkBounds.imp_refused fun e inverted bounds =>
    absurd inverted (Int.not_lt.mpr bounds)).bind fun _ bounds => ?_
  refine ((Atlas.ends_ofDeclarations p c 0 ds).imp_refused fun e h _ => h).bind
    fun a loaded => .pure ⟨bounds, rfl, rfl, loaded⟩

theorem sound_ofDeclarations [Platform] {ds : List Declaration}
    (h : ofDeclarations p c ds = .ok t) : t.Sound := by
  obtain ⟨bounds, rfl, rfl, loaded⟩ := (ends_ofDeclarations p c ds).ok t h
  exact ⟨loaded.toConsistent, loaded.usable, bounds⟩

/-- No request leaves a territory less sound. -/
theorem Sound.serve [Platform] (sound : t.Sound) (request : Request) :
    (t.serve request).1.Sound := by
  have answered := answered_serve sound.toConsistent sound.usable request
  cases outcome : (t.serve request).2 with
  | error e =>
    rw [(answered.refused e outcome).1]
    exact sound
  | ok x =>
    obtain ⟨a, next, grants⟩ := answered.granted x outcome
    rw [next]
    exact ⟨grants.toConsistent.succ, sound.usable, sound.bounds⟩

/-! ## Every territory -/

/-- Territories that can be reached: a territory without regions or of declared ones, and what any
requests make of it, in any order, whether they are refused or not, and each on any platform. -/
inductive Reachable : Territory → Prop
  | make {p : Policy} {c : Catalogue} {t : Territory} : make p c = .ok t → Reachable t
  | ofDeclarations [Platform] {p : Policy} {c : Catalogue} {ds : List Declaration} {t : Territory} :
    ofDeclarations p c ds = .ok t → Reachable t
  | add [Platform] {t : Territory} : Reachable t → (r : Region) → Reachable (t.add r).1
  | remove [Platform] {t : Territory} : Reachable t → (id : RegionId) → Reachable (t.remove id).1
  | removeWith [Platform] {t : Territory} : Reachable t → (id : RegionId) →
    (succession : Succession) → Reachable (t.removeWith id succession).1
  | redefine [Platform] {t : Territory} : Reachable t → (id : RegionId) → (shape : Shape Float) →
    Reachable (t.redefine id shape).1
  | setParent {t : Territory} : Reachable t → (id : RegionId) → (parent : Option RegionId) →
    Reachable (t.setParent id parent).1
  | setPriority {t : Territory} : Reachable t → (id : RegionId) → (priority : Int) →
    Reachable (t.setPriority id priority).1
  | setFlag {t : Territory} : Reachable t → (id : RegionId) → (flag : FlagName) →
    (setting : Setting) → Reachable (t.setFlag id flag setting).1
  | clearFlag {t : Territory} : Reachable t → (id : RegionId) → (flag : FlagName) →
    Reachable (t.clearFlag id flag).1
  | update {t : Territory} : Reachable t → (id : RegionId) → (edit : Region → Region) →
    Reachable (t.update id edit).1
  | reload [Platform] {t : Territory} : Reachable t → (ds : List Declaration) →
    Reachable (t.reload ds).1

theorem Reachable.serve [Platform] (h : t.Reachable) : ∀ request, (t.serve request).1.Reachable
  | .add r => h.add r
  | .remove id => h.remove id
  | .removeWith id succession => h.removeWith id succession
  | .redefine id shape => h.redefine id shape
  | .setParent id parent => h.setParent id parent
  | .setPriority id priority => h.setPriority id priority
  | .setFlag id flag setting => h.setFlag id flag setting
  | .clearFlag id flag => h.clearFlag id flag
  | .update id edit => h.update id edit
  | .reload ds => h.reload ds

/-- Under the usual policy any catalogue has a territory without regions. -/
theorem reachable_blank (c : Catalogue) : Reachable ⟨{}, c, .blank (.empty {})⟩ :=
  .make (p := {}) (c := c) rfl

theorem Reachable.sound (h : t.Reachable) : t.Sound := by
  -- Requests that leave the index alone are the same on every platform.
  let := Platform.reference
  induction h with
  | make h => exact sound_make h
  | ofDeclarations h => exact sound_ofDeclarations h
  | add _ r ih => exact ih.serve (.add r)
  | remove _ id ih => exact ih.serve (.remove id)
  | removeWith _ id succession ih => exact ih.serve (.removeWith id succession)
  | redefine _ id shape ih => exact ih.serve (.redefine id shape)
  | setParent _ id parent ih => exact ih.serve (.setParent id parent)
  | setPriority _ id priority ih => exact ih.serve (.setPriority id priority)
  | setFlag _ id flag setting ih => exact ih.serve (.setFlag id flag setting)
  | clearFlag _ id flag ih => exact ih.serve (.clearFlag id flag)
  | update _ id edit ih => exact ih.serve (.update id edit)
  | reload _ ds ih => exact ih.serve (.reload ds)

theorem Reachable.consistent (h : t.Reachable) : t.atlas.Consistent := h.sound.toConsistent

/-- An audit of any territory that can be reached finds nothing, whether or not its policy asks for
audits. -/
theorem Reachable.audited (h : t.Reachable) : t.atlas.audit = none ∧ t.atlas.Consistent :=
  ⟨h.consistent.audit_eq_none, h.consistent⟩

/-- A region whose parent is removed stays and has none, on a territory that is never audited. -/
theorem audited_of_removed_parent : ∃ t : Territory, t.policy.verify = false ∧
    t.atlas.declarations.map (fun d => (d.id, d.parent)) = [("spawn", none)] ∧
    t.atlas.audit = none ∧ t.atlas.Consistent := by
  let := Platform.reference
  have start : make { verify := false } .builtin =
    .ok ⟨{ verify := false }, .builtin, .blank (.empty {})⟩ := rfl
  have reachable := (Reachable.make start).add .everywhere
  have reachable := reachable.add
    { id := ⟨"spawn", by decide +kernel⟩
      shape := .cuboid ⟨⟨0, 0, 0⟩, ⟨2, 2, 2⟩⟩
      parent := some .global }
  have reachable := reachable.remove .global
  exact ⟨_, by decide +kernel, by decide +kernel, reachable.audited⟩

end Enclave.Territory
