import Enclave.Proofs.World.Territory

/-!
# What becomes of declared parents

Whether a territory is made of declarations or reloaded from them, it comes to hold one region for
each, with the parents that can stand: of each cycle of declared parents one edge is dropped, the
one of the greatest id, and no edge off a cycle is, unless it leads to no region
(`Territory.parents_of_declarations`). So the parents form a forest, and the order of the
declarations is of no account. On another platform the index may be laid out otherwise, over the
same boxes (`Territory.relaid`), and that is all.
-/

namespace Enclave

open Relation (TransGen)

/-- The table holds what is declared with the parents that stand, which are all but one of each
cycle. -/
structure Parented (ds : List Declaration) (t : RegionTable) : Prop extends Loaded ds t where
  one_dropped : ∀ id, TransGen (Declares ds) id id →
    ∃! k, (TransGen (Declares ds) id k ∧ TransGen (Declares ds) k id) ∧
      ∃ r, t.get? k = some r ∧ r.parent = none

theorem Loaded.parented {ds : List Declaration} {t : RegionTable} (loaded : Loaded ds t) :
    Parented ds t := ⟨loaded, fun _ => loaded.one_dropped⟩

namespace Territory

variable {t : Territory} {ds ds' : List Declaration}

theorem reload_eq_of_loaded [Platform] {a : Atlas}
    (loaded : Atlas.ofDeclarations t.policy t.catalogue t.generation ds = .ok a) :
    t.reload ds = ({ t with atlas := a.succ }, .ok a.size) := by
  have from' := (Atlas.ends_ofDeclarations t.policy t.catalogue t.generation ds).ok a loaded
  rw [reload, loaded]
  exact commit_eq_of_consistent from'.toConsistent a.size

/-- What is reloaded is what the declarations are loaded as. -/
theorem exists_loaded_of_reload [Platform] {t' : Territory} {count : Nat}
    (h : t.reload ds = (t', .ok count)) :
    ∃ a, Atlas.ofDeclarations t.policy t.catalogue t.generation ds = .ok a := by
  cases loaded : Atlas.ofDeclarations t.policy t.catalogue t.generation ds with
  | ok a => exact ⟨a, rfl⟩
  | error e =>
    rw [reload, loaded] at h
    cases h

theorem ofDeclarations_eq_ok_iff [Platform] {p : Policy} {c : Catalogue} :
    ofDeclarations p c ds = .ok t ↔ p.checkBounds = .ok () ∧
      ∃ a, Atlas.ofDeclarations p c 0 ds = .ok a ∧ t = ⟨p, c, a⟩ := by
  constructor
  · intro h
    obtain ⟨⟨⟩, bounds, h⟩ := bind_eq_ok_iff.mp h
    obtain ⟨a, loaded, h⟩ := bind_eq_ok_iff.mp h
    exact ⟨bounds, a, loaded, (pure_eq_ok_iff.mp h).symm⟩
  · rintro ⟨bounds, a, loaded, rfl⟩
    rw [ofDeclarations, bounds, loaded]
    rfl

/-- The territory over an index that is laid out otherwise. -/
def relaid (t : Territory) (index : RTree RegionId) : Territory :=
  { t with atlas := { t.atlas with index } }

/-- Whatever parents are declared, dangling, unreadable or in a circle: declarations that are not
refused come to the regions declared, with the parents that can stand, in whatever order they are
given. -/
theorem parents_of_declarations [Platform] (ds : List Declaration) :
    (∀ p c t, ofDeclarations p c ds = .ok t → Parented ds t.atlas.regions ∧
      (∀ ds' : List Declaration, ds'.Perm ds → ofDeclarations p c ds' = .ok t) ∧
      ∀ (_ : Platform) (ds' : List Declaration), ds'.Perm ds →
        ∃ index, index.boxes = t.atlas.index.boxes ∧
          ofDeclarations p c ds' = .ok (t.relaid index)) ∧
    ∀ (t t' : Territory) count, t.reload ds = (t', .ok count) →
      Parented ds t'.atlas.regions ∧ count = ds.length ∧
      (∀ ds' : List Declaration, ds'.Perm ds → t.reload ds' = (t', .ok count)) ∧
      ∀ (_ : Platform) (ds' : List Declaration), ds'.Perm ds →
        ∃ index, index.boxes = t'.atlas.index.boxes ∧
          t.reload ds' = (t'.relaid index, .ok count) := by
  constructor
  · intro p c t h
    obtain ⟨bounds, a, loaded, rfl⟩ := ofDeclarations_eq_ok_iff.mp h
    have from' := (Atlas.ends_ofDeclarations p c 0 ds).ok a loaded
    have elsewhere {ds' : List Declaration} (perm : ds'.Perm ds) :=
      Atlas.exists_ofDeclarations_perm loaded perm
    refine ⟨from'.loaded.parented, fun ds' perm => ?_, fun other ds' perm => ?_⟩
    · rw [← h, ofDeclarations, ofDeclarations, Atlas.ofDeclarations_perm from'.loadable perm]
    · obtain ⟨index, boxes, loaded'⟩ := elsewhere perm other
      exact ⟨index, boxes, ofDeclarations_eq_ok_iff.mpr ⟨bounds, _, loaded', rfl⟩⟩
  · intro t t' count h
    obtain ⟨a, loaded⟩ := exists_loaded_of_reload h
    have from' := (Atlas.ends_ofDeclarations t.policy t.catalogue t.generation ds).ok a loaded
    have elsewhere {ds' : List Declaration} (perm : ds'.Perm ds) :=
      Atlas.exists_ofDeclarations_perm loaded perm
    obtain ⟨rfl, count_eq⟩ := Prod.mk.inj ((reload_eq_of_loaded loaded).symm.trans h)
    obtain rfl := Except.ok.inj count_eq
    refine ⟨from'.loaded.parented, from'.loaded.size_eq, fun ds' perm => ?_,
      fun other ds' perm => ?_⟩
    · rw [← h, reload, Atlas.ofDeclarations_perm from'.loadable perm, reload]
    · obtain ⟨index, boxes, loaded'⟩ := elsewhere perm other
      exact ⟨index, boxes, reload_eq_of_loaded loaded'⟩

/-- Two regions in a circle, one that is its own parent, and one whose parent is missing: the lesser
of the two in the circle keeps its parent, and no other does, in whatever order they are given. -/
theorem parents_of_circle : letI := Platform.reference
    ∃ (ds : List Declaration) (t : Territory) (barn : RegionId),
    ofDeclarations {} .builtin ds = .ok t ∧ ofDeclarations {} .builtin ds.reverse = .ok t ∧
      t.atlas.declarations.map (fun d => (d.id, d.parent)) =
        [("alone", none), ("barn", some "mill"), ("cot", none), ("mill", none)] ∧
      TransGen (Declares ds) barn barn ∧
      ∃! k, (TransGen (Declares ds) barn k ∧ TransGen (Declares ds) k barn) ∧
        ∃ r, t.atlas.regions.get? k = some r ∧ r.parent = none := by
  let := Platform.reference
  let ds : List Declaration :=
    [{ id := "Mill", shape := .everywhere, parent := some "barn" },
      { id := "cot", shape := .everywhere, parent := some "nowhere" },
      { id := "alone", shape := .everywhere, parent := some "ALONE" },
      { id := "barn", shape := .everywhere, parent := some "MILL" }]
  let barn : RegionId := ⟨"barn", by decide +kernel⟩
  let mill : RegionId := ⟨"mill", by decide +kernel⟩
  have given : (ofDeclarations {} .builtin ds).toOption.map
      (fun t => t.atlas.declarations.map fun d => (d.id, d.parent)) =
        some [("alone", none), ("barn", some "mill"), ("cot", none), ("mill", none)] := by
    decide +kernel
  obtain ⟨t, made, listed⟩ := Option.map_eq_some_iff.mp given
  have made : ofDeclarations {} .builtin ds = .ok t := by
    cases h : ofDeclarations {} .builtin ds <;> rw [h] at made <;> cases made
    rfl
  obtain ⟨parented, perm, -⟩ := (parents_of_declarations ds).1 {} .builtin t made
  have out : Declares ds barn mill :=
    ⟨_, .tail _ (.tail _ (.tail _ (.head _))), rfl, "MILL", rfl, rfl⟩
  have back : Declares ds mill barn := ⟨_, .head _, rfl, "barn", rfl, rfl⟩
  have circle : TransGen (Declares ds) barn barn := .tail (.single out) back
  exact ⟨ds, t, barn, made, perm ds.reverse ds.reverse_perm, listed, circle,
    parented.one_dropped barn circle⟩

end Territory

end Enclave
