import Enclave.Proofs.World.Audit
import Enclave.Proofs.World.Parentage

/-!
# What is loaded is consistent

The index is packed from the regions of the loaded table, which differ in their ids and have sound
shapes, so it is never refused; the list is sorted from the same regions. So declarations are
refused only for what they declare, and otherwise give a consistent atlas
(`Atlas.ends_ofDeclarations`), the same one in whatever order they come. On another platform it is
the same too, but for how the index is laid out (`Atlas.exists_ofDeclarations_perm`).
-/

namespace Enclave

open Region (Keyed)

variable {p : Policy} {c : Catalogue} {ds ds' : List Declaration} {t : RegionTable}

/-- The index packed from the regions of a table, in whatever order they are listed, has their
boxes. -/
theorem get?_of_ofList [Platform] {f : Fanout} {values : List Region} {index : RTree RegionId}
    (listed : values.Perm t.values) (keyed : Keyed t)
    (h : RTree.ofList f (values.filterMap Region.indexEntry?) = .ok index) (id : RegionId) :
    index.get? id = (t.get? id).bind Region.bounds? := by
  apply Option.ext
  intro b
  rw [RTree.get?, Table.get?_eq_some_iff, (RTree.sound_ofList h).2.mem_iff]
  simp only [List.mem_filterMap, listed.mem_iff, Table.mem_values_iff, Region.indexEntry?,
    Option.map_eq_some_iff, Prod.mk.injEq, Option.bind_eq_some_iff]
  constructor
  · rintro ⟨r, ⟨k, found⟩, b', hb, rfl, rfl⟩
    exact ⟨r, keyed k r found ▸ found, hb⟩
  · rintro ⟨r, found, hb⟩
    exact ⟨r, ⟨id, found⟩, b, hb, keyed id r found, rfl⟩

/-- So it is in step with the table. -/
theorem indexed_ofList [Platform] {f : Fanout} {values : List Region} {index : RTree RegionId}
    (listed : values.Perm t.values) (keyed : Keyed t)
    (h : RTree.ofList f (values.filterMap Region.indexEntry?) = .ok index) : Indexed t index := by
  have sound := (RTree.sound_ofList h).1
  refine ⟨sound, ?_⟩
  intro id
  rw [← get?_of_ofList listed keyed h id]
  cases hb : index.get? id with
  | none => rfl
  | some b =>
    have self := Box.within_self_of_isValid (sound.valid id b ((Table.get?_eq_some_iff ..).mp hb))
    exact self.antisymm self

theorem listed_ofTable (keyed : Keyed t) (generation : Nat) (index : RTree RegionId) :
    Listed t (Atlas.ofTable generation t index).globals := by
  apply listed_sortGlobals
  · exact keyed.nodup_map_id_values.sublist (List.filter_sublist.map _)
  · intro id
    simp only [List.mem_map, List.mem_filter, Table.mem_values_iff]
    constructor
    · rintro ⟨r, ⟨⟨k, found⟩, global⟩, rfl⟩
      exact ⟨r, keyed k r found ▸ found, global⟩
    · rintro ⟨r, found, global⟩
      exact ⟨r, ⟨⟨id, found⟩, global⟩, keyed id r found⟩

theorem sublist_indexEntries (l : List Region) :
    ((l.filterMap Region.indexEntry?).map (·.1)).Sublist (l.map (·.id)) := by
  induction l with
  | nil => exact .slnil
  | cons r l ih =>
    have entry : r.indexEntry? = r.bounds?.map (r.id, ·) := rfl
    cases hb : r.bounds? with
    | none =>
      rw [List.filterMap_cons_none (by rw [entry, hb]; rfl)]
      exact ih.cons r.id
    | some b =>
      rw [List.filterMap_cons_some (by rw [entry, hb]; rfl)]
      exact ih.cons_cons r.id

/-- All that is loaded has boxes that the index can take. -/
theorem Loaded.exists_ofList_eq_ok [Platform] (loaded : Loaded ds t) (loadable : Loadable p c ds)
    (usable : p.fanout.Usable) {values : List Region} (listed : values.Perm t.values) :
    ∃ index, RTree.ofList p.fanout (values.filterMap Region.indexEntry?) = .ok index := by
  apply RTree.exists_ofList_eq_ok usable
  · intro e he
    obtain ⟨r, hr, entry⟩ := List.mem_filterMap.mp he
    obtain ⟨id, found⟩ := Table.mem_values_iff.mp (listed.mem_iff.mp hr)
    obtain ⟨b, bounds, rfl⟩ := Option.map_eq_some_iff.mp entry
    obtain ⟨d, hd, -, bare⟩ := loaded.declared id r found
    have shape : r.shape = d.shape := congrArg Region.shape bare
    exact Shape.isValid_bounds? (shape ▸ (loadable.valid d hd).shape) bounds
  · have distinct := (listed.map (·.id)).nodup_iff.mpr loaded.keyed.nodup_map_id_values
    exact distinct.sublist (sublist_indexEntries values)

namespace Atlas

/-- The atlas is what is declared, under a policy that can be used. -/
structure LoadedFrom (p : Policy) (c : Catalogue) (generation : Nat) (ds : List Declaration)
    (a : Atlas) : Prop extends a.Consistent where
  usable : p.fanout.Usable
  loadable : Loadable p c ds
  generation_eq : a.generation = generation
  loaded : Loaded ds a.regions

/-- What can be loaded is loaded, and nothing else is. -/
theorem ends_ofDeclarations [Platform] (p : Policy) (c : Catalogue) (generation : Nat)
    (ds : List Declaration) : Ends (ofDeclarations p c generation ds)
      (LoadedFrom p c generation ds) fun e => p.fanout.Usable → Unloadable p c ds e := by
  refine ((Draft.ends_ofDeclarations p c ds).imp_refused fun _ h _ => h).bind
    fun draft drafted => ?_
  have loaded := drafted.loaded
  have listed := Platform.listed_perm draft.table.values
  have packed : Ends (Refusal.ofIndex (RTree.ofList p.fanout
      ((Platform.listed draft.table.values).filterMap Region.indexEntry?)))
      (fun index => p.fanout.Usable ∧ Indexed draft.table index)
      fun e => p.fanout.Usable → Unloadable p c ds e := by
    refine ⟨fun index h => ?_, fun e refused usable => ?_⟩
    · have packed := Refusal.ofIndex_eq_ok_iff.mp h
      exact ⟨RTree.usable_of_ofList packed, indexed_ofList listed loaded.keyed packed⟩
    · obtain ⟨index, packed⟩ := loaded.exists_ofList_eq_ok drafted.toLoadable usable listed
      exact nomatch refused.symm.trans (Refusal.ofIndex_eq_ok_iff.mpr packed)
  refine packed.bind fun index ⟨usable, indexed⟩ => .pure ?_
  have globals := listed_ofTable loaded.keyed generation index
  exact ⟨⟨⟨loaded.keyed, indexed, globals⟩, loaded.forest⟩, usable, drafted.toLoadable, rfl, loaded⟩

/-- Declarations that can be loaded have one draft, in whatever order they come. -/
theorem exists_draft_perm (loadable : Loadable p c ds) (perm : ds'.Perm ds) :
    ∃ draft, Draft.Drafted p c ds draft ∧ Draft.ofDeclarations p c ds = .ok draft ∧
      Draft.ofDeclarations p c ds' = .ok draft := by
  have drafts : ∀ {ds}, Loadable p c ds →
      ∃ draft, Draft.ofDeclarations p c ds = .ok draft ∧ Draft.Drafted p c ds draft :=
    fun {ds} loadable => ((Draft.ends_ofDeclarations p c ds).imp_refused fun _ unloadable =>
      unloadable.not_loadable loadable).exists_ok
  obtain ⟨draft, made, drafted⟩ := drafts loadable
  obtain ⟨draft', made', drafted'⟩ := drafts (loadable.perm perm)
  obtain rfl := drafted.unique perm drafted'
  exact ⟨_, drafted, made, made'⟩

/-- What is loaded does not depend on the order of the declarations. -/
theorem ofDeclarations_perm [Platform] (loadable : Loadable p c ds) (perm : ds'.Perm ds)
    (generation : Nat) : ofDeclarations p c generation ds' = ofDeclarations p c generation ds := by
  obtain ⟨draft, -, made, made'⟩ := exists_draft_perm loadable perm
  rw [ofDeclarations, ofDeclarations, made, made']

/-- A draft is loaded by packing the index of its table. -/
theorem exists_index_of_draft [Platform] {draft : Draft} {generation : Nat} {a : Atlas}
    (made : Draft.ofDeclarations p c ds = .ok draft)
    (h : ofDeclarations p c generation ds = .ok a) :
    ∃ index, RTree.ofList p.fanout
      ((Platform.listed draft.table.values).filterMap Region.indexEntry?) = .ok index ∧
        a = ofTable generation draft.table index := by
  obtain ⟨draft', made', h⟩ := bind_eq_ok_iff.mp h
  obtain rfl := Except.ok.inj (made.symm.trans made')
  obtain ⟨index, packed, h⟩ := bind_eq_ok_iff.mp h
  exact ⟨index, Refusal.ofIndex_eq_ok_iff.mp packed, (pure_eq_ok_iff.mp h).symm⟩

/-- Nor does it depend on the platform, but for how the index is laid out. -/
theorem exists_ofDeclarations_perm [Platform] {generation : Nat} {a : Atlas}
    (h : ofDeclarations p c generation ds = .ok a) (perm : ds'.Perm ds) :
    ∀ _ : Platform, ∃ index, index.boxes = a.index.boxes ∧
      ofDeclarations p c generation ds' = .ok { a with index } := by
  have from' := (ends_ofDeclarations p c generation ds).ok a h
  obtain ⟨draft, drafted, made, made'⟩ := exists_draft_perm from'.loadable perm
  have keyed := drafted.loaded.keyed
  obtain ⟨index, packed, rfl⟩ := exists_index_of_draft made h
  have recorded := get?_of_ofList (Platform.listed_perm _) keyed packed
  intro other
  obtain ⟨a', h', -⟩ := (ends_ofDeclarations p c generation ds').imp_refused
    (fun _ refused => (refused from'.usable).not_loadable (from'.loadable.perm perm)) |>.exists_ok
  obtain ⟨index', packed', rfl⟩ := exists_index_of_draft made' h'
  have recorded' := get?_of_ofList (Platform.listed_perm _) keyed packed'
  exact ⟨index', Table.ext_get? fun id => (recorded' id).trans (recorded id).symm, h'⟩

end Atlas

end Enclave
