import Mathlib.Data.List.Duplicate
import Enclave.Proofs.World.Validation
import Enclave.World.Loading

/-!
# Drafts hold what is declared

Declarations can be loaded if each is valid and no two have one id (`Loadable`); otherwise they are
refused by naming a declaration that is not valid, or an id that two of them have (`Unloadable`).
What their draft holds can be said without the order in which they were entered (`Drafted`): the
region that each describes, without its parent, and the text of each declared parent.
-/

namespace Enclave

variable {p : Policy} {c : Catalogue} {ds ds' : List Declaration} {d : Declaration}

/-- Each declaration is valid, and no two have one id. -/
structure Loadable (p : Policy) (c : Catalogue) (ds : List Declaration) : Prop where
  valid : ∀ d ∈ ds, d.Valid p c
  distinct : (ds.map fun d => RegionId.parse d.id).Nodup

theorem Loadable.perm (h : Loadable p c ds) (perm : ds'.Perm ds) : Loadable p c ds' where
  valid d hd := h.valid d (perm.mem_iff.mp hd)
  distinct := (perm.map _).nodup_iff.mpr h.distinct

/-- The refusal names a declaration that is not valid, or an id that two declarations have. -/
inductive Unloadable (p : Policy) (c : Catalogue) (ds : List Declaration) (e : Refusal) : Prop
  | faulty (d : Declaration) : d ∈ ds → d.Faulty p c e → Unloadable p c ds e
  | duplicate (id : RegionId) : List.Duplicate (.ok id) (ds.map fun d => RegionId.parse d.id) →
    e = .duplicateId id → Unloadable p c ds e

theorem Unloadable.not_loadable {e : Refusal} (h : Unloadable p c ds e) : ¬ Loadable p c ds := by
  intro loadable
  cases h with
  | faulty d hd faulty => exact faulty.not_valid (loadable.valid d hd)
  | duplicate id twice _ => exact twice.not_nodup loadable.distinct

theorem Unloadable.mono {e : Refusal} (h : Unloadable p c ds e) (sub : ds.Sublist ds') :
    Unloadable p c ds' e := by
  cases h with
  | faulty d hd faulty => exact .faulty d (sub.subset hd) faulty
  | duplicate id twice he => exact .duplicate id (twice.mono_sublist (sub.map _)) he

namespace Draft

variable {draft : Draft}

/-- The draft holds the region that each declaration describes, and the text of its parent. -/
structure Drafted (p : Policy) (c : Catalogue) (ds : List Declaration) (draft : Draft) : Prop
    extends Loadable p c ds where
  get?_regions_iff : ∀ id r, draft.regions.get? id = some r ↔
    ∃ d ∈ ds, RegionId.parse d.id = .ok id ∧ r = d.plain id
  get?_parents_iff : ∀ id text, draft.parents.get? id = some text ↔
    ∃ d ∈ ds, RegionId.parse d.id = .ok id ∧ d.parent = some text
  size_eq : draft.regions.size = ds.length

theorem drafted_nil : Drafted p c [] {} where
  valid _ h := absurd h List.not_mem_nil
  distinct := .nil
  get?_regions_iff _ _ := ⟨nofun, fun ⟨_, h, _⟩ => absurd h List.not_mem_nil⟩
  get?_parents_iff _ _ := ⟨nofun, fun ⟨_, h, _⟩ => absurd h List.not_mem_nil⟩
  size_eq := rfl

theorem Drafted.contains_iff (drafted : Drafted p c ds draft) (id : RegionId) :
    draft.regions.contains id = true ↔ ∃ d ∈ ds, RegionId.parse d.id = .ok id := by
  rw [Table.contains_iff_get?]
  constructor
  · rintro ⟨r, found⟩
    obtain ⟨d, hd, read, -⟩ := (drafted.get?_regions_iff id r).mp found
    exact ⟨d, hd, read⟩
  · rintro ⟨d, hd, read⟩
    exact ⟨d.plain id, (drafted.get?_regions_iff id _).mpr ⟨d, hd, read, rfl⟩⟩

/-- One more declaration, valid and of a new id. -/
theorem Drafted.concat (drafted : Drafted p c ds draft) (valid : d.Valid p c) {id : RegionId}
    (read : RegionId.parse d.id = .ok id) (fresh : draft.regions.contains id = false) :
    Drafted p c (ds ++ [d]) {
      regions := draft.regions.insert id (d.plain id)
      parents := match d.parent with
        | some text => draft.parents.insert id text
        | none => draft.parents } := by
  have undeclared : ∀ d' ∈ ds, RegionId.parse d'.id ≠ .ok id := fun d' hd' read' =>
    Bool.false_ne_true (fresh.symm.trans ((drafted.contains_iff id).mpr ⟨d', hd', read'⟩))
  refine ⟨⟨?_, ?_⟩, ?_, ?_, ?_⟩
  · intro d' hd'
    rcases List.mem_append.mp hd' with hd' | hd'
    · exact drafted.valid d' hd'
    · exact List.mem_singleton.mp hd' ▸ valid
  · rw [List.map_append, List.map_singleton, ← List.concat_eq_append]
    refine drafted.distinct.concat fun h => ?_
    obtain ⟨d', hd', same⟩ := List.mem_map.mp h
    exact undeclared d' hd' (same.trans read)
  · intro id' r
    by_cases h : id' = id
    · subst h
      grind [Table.get?_insert_self]
    · rw [Table.get?_insert_of_ne h, drafted.get?_regions_iff]
      grind
  · intro id' text
    by_cases h : id' = id
    · subst h
      have none : draft.parents.get? id' = none := Option.eq_none_iff_forall_ne_some.mpr
        fun text' found => by
          obtain ⟨d', hd', read', -⟩ := (drafted.get?_parents_iff id' text').mp found
          exact undeclared d' hd' read'
      cases hp : d.parent <;> grind [Table.get?_insert_self]
    · have parents := drafted.get?_parents_iff id' text
      cases hp : d.parent <;> grind [Table.get?_insert_of_ne]
  · have grown := (Table.insert_perm (v := d.plain id) fresh).length_eq
    rw [List.length_append, ← drafted.size_eq]
    exact grown

/-- Entering a declaration drafts it too. -/
theorem Drafted.ends_enter (drafted : Drafted p c ds draft) (d : Declaration) :
    Ends (draft.enter p c d) (Drafted p c (ds ++ [d])) (Unloadable p c (ds ++ [d])) := by
  have last : d ∈ ds ++ [d] := List.mem_append_right ds (List.mem_singleton_self d)
  refine (d.ends_ofDeclaration.imp_refused fun e => .faulty d last).bind ?_
  rintro _ ⟨id, read, sound, rfl⟩
  refine ((p.ends_checkRegion c _).imp_refused fun e rejects =>
    .faulty d last (.region _ rejects)).bind fun _ admits => ?_
  dsimp only
  split
  next taken =>
    refine .throw_bind (.duplicate _ ?_ rfl)
    obtain ⟨d', hd', read'⟩ := (drafted.contains_iff id).mp taken
    have before : .ok id ∈ ds.map fun d => RegionId.parse d.id := List.mem_map.mpr ⟨d', hd', read'⟩
    have now : .ok id ∈ [d].map fun d => RegionId.parse d.id := List.mem_singleton.mpr read.symm
    rw [List.duplicate_iff_sublist, List.map_append]
    exact (List.singleton_sublist.mpr before).append (List.singleton_sublist.mpr now)
  next fresh =>
    have valid : d.Valid p c := ⟨⟨_, read⟩, sound, admits.priority, admits.settings⟩
    exact .pure (drafted.concat valid read (Bool.eq_false_iff.mpr fresh))

theorem Drafted.ends_foldlM_enter (ds' : List Declaration) : ∀ {ds draft}, Drafted p c ds draft →
    Ends (ds'.foldlM (enter p c) draft) (Drafted p c (ds ++ ds')) (Unloadable p c (ds ++ ds')) := by
  induction ds' with
  | nil =>
    intro ds draft drafted
    rw [List.append_nil]
    exact .pure drafted
  | cons d ds' ih =>
    intro ds draft drafted
    rw [List.foldlM_cons, List.append_cons]
    refine ((drafted.ends_enter d).imp_refused fun e h => ?_).bind fun _ => ih
    exact h.mono (List.sublist_append_left _ ds')

/-- What can be loaded is drafted, and nothing else is. -/
theorem ends_ofDeclarations (p : Policy) (c : Catalogue) (ds : List Declaration) :
    Ends (ofDeclarations p c ds) (Drafted p c ds) (Unloadable p c ds) :=
  drafted_nil.ends_foldlM_enter ds

end Draft

end Enclave
