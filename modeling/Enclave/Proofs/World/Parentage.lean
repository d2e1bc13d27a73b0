import Enclave.Proofs.Region.Ancestry
import Enclave.Proofs.Region.Cycle
import Enclave.Proofs.World.Drafting

/-!
# Which declared parents stand

A declared parent stands if it is a loaded region and its child is not the greatest id of a cycle of
declared parents. For the parents are attached in the order of the children's ids, so that of the
edges of a cycle the one of the greatest id comes last, when all others are there
(`Draft.Attached.attach`). So what is loaded can be said without the order of attaching, nor of the
declarations (`Loaded`), and there is one table only of which it holds (`Loaded.unique`).
-/

namespace Enclave

open Region (Forest Keyed Names)
open Relation (ReflTransGen TransGen)

variable {p : Policy} {c : Catalogue} {ds ds' : List Declaration} {t t' : RegionTable}

/-- A declaration of the first id names the second as its parent, in whatever spelling. -/
def Declares (ds : List Declaration) (child parent : RegionId) : Prop :=
  ∃ d ∈ ds, RegionId.parse d.id = .ok child ∧
    ∃ text, d.parent = some text ∧ RegionId.parse text = .ok parent

/-- The region without its parent. -/
def Region.bare (r : Region) : Region := { r with parent := none }

namespace Draft

variable {draft draft' : Draft}

theorem Drafted.keyed (drafted : Drafted p c ds draft) : Keyed draft.regions := by
  intro id r found
  obtain ⟨d, -, -, rfl⟩ := (drafted.get?_regions_iff id r).mp found
  rfl

theorem Drafted.parent_eq_none (drafted : Drafted p c ds draft) {id : RegionId} {r : Region}
    (found : draft.regions.get? id = some r) : r.parent = none := by
  obtain ⟨d, -, -, rfl⟩ := (drafted.get?_regions_iff id r).mp found
  rfl

theorem Drafted.declares_iff (drafted : Drafted p c ds draft) {child parent : RegionId} :
    Declares ds child parent ↔
      ∃ text, draft.parents.get? child = some text ∧ RegionId.parse text = .ok parent := by
  constructor
  · rintro ⟨d, hd, read, text, declared, parent⟩
    exact ⟨text, (drafted.get?_parents_iff child text).mpr ⟨d, hd, read, declared⟩, parent⟩
  · rintro ⟨text, found, parent⟩
    obtain ⟨d, hd, read, declared⟩ := (drafted.get?_parents_iff child text).mp found
    exact ⟨d, hd, read, text, declared, parent⟩

/-- A region declares one parent at most. -/
theorem Drafted.functional (drafted : Drafted p c ds draft) {child parent parent' : RegionId}
    (h : Declares ds child parent) (h' : Declares ds child parent') : parent = parent' := by
  obtain ⟨text, found, read⟩ := drafted.declares_iff.mp h
  obtain ⟨text', found', read'⟩ := drafted.declares_iff.mp h'
  obtain rfl := Option.some.inj (found.symm.trans found')
  exact Except.ok.inj (read.symm.trans read')

theorem Drafted.known_of_declares (drafted : Drafted p c ds draft) {child parent : RegionId}
    (h : Declares ds child parent) : draft.regions.contains child = true := by
  obtain ⟨d, hd, read, -⟩ := h
  exact (drafted.contains_iff child).mpr ⟨d, hd, read⟩

/-- Declarations are drafted in one way, in whatever order they come. -/
theorem Drafted.unique (drafted : Drafted p c ds draft) (perm : ds'.Perm ds)
    (drafted' : Drafted p c ds' draft') : draft' = draft := by
  have regions : draft'.regions = draft.regions := Table.ext_get? fun id => Option.ext fun r => by
    simp only [drafted.get?_regions_iff, drafted'.get?_regions_iff, perm.mem_iff]
  have parents : draft'.parents = draft.parents := Table.ext_get? fun id => Option.ext fun r => by
    simp only [drafted.get?_parents_iff, drafted'.get?_parents_iff, perm.mem_iff]
  cases draft
  cases draft'
  cases regions
  cases parents
  rfl

/-! ## Attaching parents -/

/-- The table of the drafted regions, to which those declared parents of the passed ids are attached
that stand. -/
structure Attached (ds : List Declaration) (draft : Draft) (passed : List RegionId)
    (t : RegionTable) : Prop where
  forest : Forest t
  bare : ∀ id, (t.get? id).map Region.bare = draft.regions.get? id
  names_iff : ∀ child parent, Names t child parent ↔ child ∈ passed ∧
    Declares ds child parent ∧ t.contains parent = true ∧ ¬ Closes (Declares ds) child

namespace Attached

variable {passed : List RegionId}

theorem contains_eq (attached : Attached ds draft passed t) (id : RegionId) :
    t.contains id = draft.regions.contains id := by
  rw [Table.contains, Table.contains, ← attached.bare id, Option.isSome_map]

theorem keyed (attached : Attached ds draft passed t) (drafted : Drafted p c ds draft) :
    Keyed t := fun id r found =>
  drafted.keyed id r.bare ((attached.bare id).symm.trans (congrArg _ found))

/-- A parent that stands is attached. -/
theorem insert {k parent : RegionId} {r : Region} (attached : Attached ds draft passed t)
    (drafted : Drafted p c ds draft) (found : t.get? k = some r) (edge : Declares ds k parent)
    (known : t.contains parent = true) (stands : ¬ Closes (Declares ds) k)
    (notAbove : ¬ ReflTransGen (Names t) parent k) :
    Attached ds draft (passed ++ [k]) (t.insert k { r with parent := some parent }) := by
  refine ⟨attached.forest.attach known rfl notAbove, fun id => ?_, fun child parent' => ?_⟩
  · by_cases here : id = k
    · subst here
      rw [Table.get?_insert_self, ← attached.bare, found]
      rfl
    · rw [Table.get?_insert_of_ne here, attached.bare]
  · have contains : ∀ id, (t.insert k { r with parent := some parent }).contains id = true ↔
        t.contains id = true := fun id => by
      rw [Table.contains_insert_iff, or_iff_right_of_imp]
      rintro rfl
      exact Table.contains_iff_get?.mpr ⟨r, found⟩
    rw [Region.names_insert_iff, contains, List.mem_append, List.mem_singleton, attached.names_iff]
    by_cases here : child = k
    · subst here
      simp only [ne_eq, not_true_eq_false, false_and, or_false, true_and, or_true]
      constructor
      · intro same
        obtain rfl := Option.some.inj same
        exact ⟨edge, known, stands⟩
      · exact fun ⟨edge', _, _⟩ => congrArg some (drafted.functional edge edge')
    · simp [here]

end Attached

/-- Before parents are attached, nothing names one. -/
theorem Drafted.attached_nil (drafted : Drafted p c ds draft) :
    Attached ds draft [] draft.regions := by
  have nameless : ∀ child parent, ¬ Names draft.regions child parent :=
    fun child parent ⟨r, found, names⟩ =>
      Option.some_ne_none parent (names.symm.trans (drafted.parent_eq_none found))
  refine ⟨Region.forest_of_forall_not_names nameless, fun id => ?_, fun child parent => ?_⟩
  · cases found : draft.regions.get? id with
    | none => rfl
    | some r =>
      have parentless := drafted.parent_eq_none found
      obtain ⟨_, _, _, _, _, _, _⟩ := r
      cases parentless
      rfl
  · exact iff_of_false (nameless child parent) fun h => List.not_mem_nil h.1

/-- One more declared parent. Its child comes after all ids passed, so whether the edge closes a
cycle can be seen by a walk from the parent. -/
theorem Attached.attach {passed rest : List RegionId} {k : RegionId} {text : String}
    (drafted : Drafted p c ds draft) (attached : Attached ds draft passed t)
    (ordered : draft.parents.keys = passed ++ k :: rest)
    (declared : draft.parents.get? k = some text) :
    Attached ds draft (passed ++ [k]) (attach t k text) := by
  have parses : ∀ parent, Declares ds k parent ↔ RegionId.parse text = .ok parent := by
    intro parent
    rw [drafted.declares_iff]
    simp [declared]
  -- Where the edge does not stand the table stays, and so do the names.
  have skip : (∀ parent, Declares ds k parent →
      t.contains parent = true → Closes (Declares ds) k) → Attached ds draft (passed ++ [k]) t := by
    intro falls
    refine ⟨attached.forest, attached.bare, fun child parent => ?_⟩
    rw [attached.names_iff, List.mem_append, List.mem_singleton]
    constructor
    · exact fun ⟨before, stands⟩ => ⟨.inl before, stands⟩
    · rintro ⟨before | rfl, stands⟩
      · exact ⟨before, stands⟩
      · exact absurd (falls parent stands.1 stands.2.1) stands.2.2
  rw [Draft.attach]
  split
  next fault unread =>
    exact skip fun parent h => nomatch unread.symm.trans ((parses parent).mp h)
  next parent read =>
    have edge : Declares ds k parent := (parses parent).mpr read
    have above_iff : ReflTransGen (Names t) parent k ↔ Closes (Declares ds) k := by
      refine reflTransGen_iff_closes drafted.functional drafted.known_of_declares ?_ edge
      intro child parent
      rw [attached.names_iff, attached.contains_eq]
      refine and_congr_left fun ⟨h, _⟩ => Table.mem_passed_iff ordered ?_
      obtain ⟨text', found', -⟩ := drafted.declares_iff.mp h
      exact Table.mem_keys_iff.mpr ⟨text', found'⟩
    have reaches_iff := Region.reaches_iff t parent k
    split
    next falls =>
      refine skip fun parent' edge' known => above_iff.mp (reaches_iff.mp ?_)
      obtain rfl := drafted.functional edge edge'
      simpa [known] using falls
    next stands =>
      simp only [Bool.or_eq_true, Bool.not_eq_true', not_or, Bool.not_eq_false] at stands
      obtain ⟨known, apart⟩ := stands
      have notAbove := mt reaches_iff.mpr apart
      split
      next r found =>
        exact attached.insert drafted found edge known (mt above_iff.mpr notAbove) notAbove
      next missing =>
        have := (attached.contains_eq k).trans (drafted.known_of_declares edge)
        rw [Table.contains, missing] at this
        cases this

/-- All declared parents attached that stand. -/
theorem Drafted.attached_table (drafted : Drafted p c ds draft) :
    Attached ds draft draft.parents.keys draft.table := by
  have run : ∀ (rest passed : List (RegionId × String)) {t : RegionTable},
      draft.parents.entries = passed ++ rest → Attached ds draft (passed.map (·.1)) t →
      Attached ds draft draft.parents.keys
        (rest.foldl (fun t e => Draft.attach t e.1 e.2) t) := by
    intro rest
    induction rest with
    | nil =>
      intro passed t entries attached
      rwa [Table.keys, entries, List.append_nil]
    | cons e rest ih =>
      intro passed t entries attached
      have ordered : draft.parents.keys = passed.map (·.1) ++ e.1 :: rest.map (·.1) := by
        rw [Table.keys, entries, List.map_append, List.map_cons]
      have declared : draft.parents.get? e.1 = some e.2 :=
        (Table.get?_eq_some_iff ..).mpr (entries ▸ List.mem_append_right passed List.mem_cons_self)
      refine ih (passed ++ [e]) (entries.trans (List.append_cons ..)) ?_
      rw [List.map_append]
      exact attached.attach drafted ordered declared
  exact run draft.parents.entries [] rfl drafted.attached_nil

end Draft

/-! ## What is loaded -/

/-- The table holds what is declared, with the parents that stand. -/
structure Loaded (ds : List Declaration) (t : RegionTable) : Prop where
  size_eq : t.size = ds.length
  described : ∀ d ∈ ds, ∃ r, RegionId.parse d.id = .ok r.id ∧ t.get? r.id = some r ∧
    r.bare = d.plain r.id
  declared : ∀ id r, t.get? id = some r →
    ∃ d ∈ ds, RegionId.parse d.id = .ok id ∧ r.bare = d.plain id
  /-- A declared parent stands if it is loaded and its child is not the greatest id of a cycle. -/
  names_iff : ∀ child parent, Names t child parent ↔
    Declares ds child parent ∧ t.contains parent = true ∧ ¬ Closes (Declares ds) child
  forest : Forest t

theorem Draft.Drafted.loaded {draft : Draft} (drafted : Drafted p c ds draft) :
    Loaded ds draft.table := by
  have attached := drafted.attached_table
  have stripped : draft.table.mapValues (fun _ => Region.bare) = draft.regions :=
    Table.ext_get? fun id => (Table.get?_mapValues _).trans (attached.bare id)
  have size_eq : draft.table.size = draft.regions.size := by
    rw [← stripped]
    exact (List.length_map _).symm
  refine ⟨size_eq.trans drafted.size_eq, ?_, ?_, ?_, attached.forest⟩
  · intro d hd
    obtain ⟨id, read⟩ := (drafted.valid d hd).id
    have plain := (drafted.get?_regions_iff id _).mpr ⟨d, hd, read, rfl⟩
    obtain ⟨r, found, bare⟩ := Option.map_eq_some_iff.mp ((attached.bare id).trans plain)
    obtain rfl := attached.keyed drafted id r found
    exact ⟨r, read, found, bare⟩
  · intro id r found
    have plain := (attached.bare id).symm.trans (congrArg (Option.map Region.bare) found)
    exact (drafted.get?_regions_iff id _).mp plain
  · intro child parent
    rw [attached.names_iff, and_iff_right_of_imp]
    rintro ⟨h, -⟩
    obtain ⟨text, found, -⟩ := drafted.declares_iff.mp h
    exact Table.mem_keys_iff.mpr ⟨text, found⟩

namespace Loaded

theorem keyed (loaded : Loaded ds t) : Keyed t := fun id r found => by
  obtain ⟨d, -, -, bare⟩ := loaded.declared id r found
  exact congrArg Region.id bare

theorem contains_iff (loaded : Loaded ds t) (id : RegionId) :
    t.contains id = true ↔ ∃ d ∈ ds, RegionId.parse d.id = .ok id := by
  rw [Table.contains_iff_get?]
  constructor
  · rintro ⟨r, found⟩
    obtain ⟨d, hd, read, -⟩ := loaded.declared id r found
    exact ⟨d, hd, read⟩
  · rintro ⟨d, hd, read⟩
    obtain ⟨r, read', found, -⟩ := loaded.described d hd
    exact ⟨r, Except.ok.inj (read'.symm.trans read) ▸ found⟩

theorem known_of_declares (loaded : Loaded ds t) {child parent : RegionId}
    (h : Declares ds child parent) : t.contains child = true := by
  obtain ⟨d, hd, read, -⟩ := h
  exact (loaded.contains_iff child).mpr ⟨d, hd, read⟩

/-- Of the regions of a cycle those have no parent that would close it. -/
theorem parent_eq_none_iff (loaded : Loaded ds t) {id : RegionId} {r : Region}
    (loop : TransGen (Declares ds) id id) (found : t.get? id = some r) :
    r.parent = none ↔ Closes (Declares ds) id := by
  constructor
  · intro parentless
    obtain ⟨parent, edge, back⟩ := TransGen.head'_iff.mp loop
    have known : t.contains parent = true := by
      rcases back.cases_head with rfl | ⟨_, next, -⟩
      · exact loaded.known_of_declares edge
      · exact loaded.known_of_declares next
    refine Classical.byContradiction fun stands => ?_
    obtain ⟨r', found', names⟩ := (loaded.names_iff id parent).mpr ⟨edge, known, stands⟩
    obtain rfl := Option.some.inj (found.symm.trans found')
    exact Option.some_ne_none parent (names.symm.trans parentless)
  · intro closes
    refine Option.eq_none_iff_forall_ne_some.mpr fun parent names => ?_
    exact ((loaded.names_iff id parent).mp ⟨r, found, names⟩).2.2 closes

/-- Of the regions of each cycle of declared parents one has no parent. -/
theorem one_dropped (loaded : Loaded ds t) {id : RegionId} (loop : TransGen (Declares ds) id id) :
    ∃! k, (TransGen (Declares ds) id k ∧ TransGen (Declares ds) k id) ∧
      ∃ r, t.get? k = some r ∧ r.parent = none := by
  have listed : ∀ a b, Declares ds a b → a ∈ t.keys := fun a b h =>
    Table.mem_keys_iff.mpr (Table.contains_iff_get?.mp (loaded.known_of_declares h))
  refine (existsUnique_congr fun k => and_congr_right fun ⟨out, back⟩ => ?_).mpr
    (existsUnique_closes listed loop)
  obtain ⟨next, edge, -⟩ := TransGen.head'_iff.mp back
  obtain ⟨r, found⟩ := Table.contains_iff_get?.mp (loaded.known_of_declares edge)
  rw [← loaded.parent_eq_none_iff (back.trans out) found]
  simp [found]

theorem get?_of_get? (loaded : Loaded ds t) (loaded' : Loaded ds t') {id : RegionId} {r : Region}
    (found : t.get? id = some r) : t'.get? id = some r := by
  obtain ⟨d, hd, read, bare⟩ := loaded.declared id r found
  obtain ⟨r', read', found', bare'⟩ := loaded'.described d hd
  obtain rfl := Except.ok.inj (read'.symm.trans read)
  have names_iff : ∀ parent, Names t r'.id parent ↔ Names t' r'.id parent := fun parent => by
    rw [loaded.names_iff, loaded'.names_iff, loaded.contains_iff, loaded'.contains_iff]
  have parent : r.parent = r'.parent := Option.ext fun parent => by
    simpa [Names, found, found'] using names_iff parent
  have same : r = r' :=
    calc r = { r.bare with parent := r.parent } := rfl
      _ = { r'.bare with parent := r'.parent } := by rw [bare, bare', parent]
      _ = r' := rfl
  exact same ▸ found'

/-- Only one table holds what is declared. -/
theorem unique (loaded : Loaded ds t) (loaded' : Loaded ds t') : t = t' :=
  Table.ext_get? fun _ => Option.ext fun _ =>
    ⟨loaded.get?_of_get? loaded', loaded'.get?_of_get? loaded⟩

end Loaded

end Enclave
