import Enclave.Index.Tree
import Enclave.Proofs.Index.Packing
import Enclave.Proofs.Outcome
import Enclave.Proofs.Table

/-!
# Sound indexes

An index is sound when its root is, its height is the number of levels, and the leaves hold exactly
the recorded boxes, all of them valid (`RTree.Sound`). The first indexes are sound, and every change
that is made keeps an index sound; so every index that can be reached is (`RTree.Reachable.sound`).
A change that is refused gives no new index, so it takes no part in this.

Each change may be made on a platform of its own: nothing that is decided by costs, by the number of
slabs or by the order of a list is looked at here.

A query passes over every node whose box fails the test. On an index that can be reached it still
finds what looking at every recorded box finds (`RTree.Reachable.answers`), for every point and
every box that is asked for: neither need be finite, and the box need not be in order. A test may
only ask a box to reach far enough, so that it passes on a box if it passes on one that lies within.
In which order the keys are found is not said; it depends on how the nodes came to be.
-/

namespace Enclave.RTree

variable {κ : Type} [Ord κ]

/-- Every recorded key with its box, as a leaf holds it. -/
def records (t : RTree κ) : List (Boxed κ) := t.boxes.entries.map fun e => ⟨e.2, e.1⟩

/-- The nodes are sound, are as high as was counted, and hold exactly what is recorded. -/
structure Sound (t : RTree κ) : Prop where
  usable : t.fanout.Usable
  root : t.root.Sound t.fanout
  height : t.height = t.root.level + 1
  entries : t.root.node.entries.Perm t.records
  valid : ∀ k b, (k, b) ∈ t.boxes.entries → b.isValid = true

theorem get?_rebuilt (t : RTree κ) (s : Trunk κ) (boxes : Table κ (Box Float)) (k : κ) :
    (t.rebuilt s boxes).get? k = boxes.get? k := rfl

theorem mem_records {t : RTree κ} {e : Boxed κ} :
    e ∈ t.records ↔ (e.item, e.box) ∈ t.boxes.entries := by
  simp only [records, List.mem_map, Prod.exists]
  constructor
  · rintro ⟨k, b, h, rfl⟩
    exact h
  · exact fun h => ⟨e.item, e.box, h, rfl⟩

theorem Sound.mem_entries_iff {t : RTree κ} (h : t.Sound) {e : Boxed κ} :
    e ∈ t.root.node.entries ↔ (e.item, e.box) ∈ t.boxes.entries :=
  h.entries.mem_iff.trans mem_records

theorem Sound.length_entries {t : RTree κ} (h : t.Sound) :
    t.root.node.entries.length = t.size :=
  h.entries.length_eq.trans (List.length_map _)

theorem Sound.nodes_valid {t : RTree κ} (h : t.Sound) : t.root.node.Valid :=
  fun e he => h.valid e.item e.box (h.mem_entries_iff.mp he)

theorem Sound.trunk {t : RTree κ} (h : t.Sound) : t.trunk.Sound t.fanout := ⟨h.root, h.height⟩

/-! ## First indexes -/

theorem sound_empty {f : Fanout} (usable : f.Usable) : (empty f : RTree κ).Sound where
  usable := usable
  root := ⟨trivial, Nat.zero_le _, fun h => absurd h (Nat.lt_irrefl 0)⟩
  height := rfl
  entries := .refl _
  valid _ _ h := absurd h List.not_mem_nil

theorem make_eq_ok_iff {f : Fanout} {t : RTree κ} :
    make f = .ok t ↔ f.Usable ∧ t = empty f := by
  rw [← Fanout.faults_eq_nil_iff, make]
  split
  next h => simp [h, eq_comm]
  next h => simpa using fun h' => absurd h' h

section Changes

variable [Std.TransOrd κ] [Std.LawfulEqOrd κ] [ToString κ]

/-- What is recorded is the boxes that were there and those of the list, whose boxes are valid. -/
theorem record_perm {items : List (κ × Box Float)} :
    ∀ {boxes recorded : Table κ (Box Float)}, record boxes items = .ok recorded →
      recorded.entries.Perm (items ++ boxes.entries) ∧ ∀ e ∈ items, e.2.isValid = true := by
  induction items with
  | nil =>
    intro boxes recorded h
    cases h
    exact ⟨.refl _, fun _ h => absurd h List.not_mem_nil⟩
  | cons item items ih =>
    intro boxes recorded h
    obtain ⟨k, b⟩ := item
    rw [record] at h
    split at h
    · exact absurd h (by simp)
    next valid =>
      split at h
      · exact absurd h (by simp)
      next fresh =>
        obtain ⟨perm, rest⟩ := ih h
        have first := Table.insert_perm (v := b) (Bool.not_eq_true _ ▸ fresh)
        refine ⟨perm.trans ((first.append_left items).trans List.perm_middle), ?_⟩
        intro e he
        rcases List.mem_cons.mp he with rfl | he
        · exact Option.isNone_iff_eq_none.mpr valid
        · exact rest e he

/-- Packing answers for what is recorded, and all that is listed is recorded. -/
theorem sound_ofList [Platform] {f : Fanout} {items : List (κ × Box Float)} {t : RTree κ}
    (h : ofList f items = .ok t) : t.Sound ∧ t.boxes.entries.Perm items := by
  obtain ⟨start, hstart, h⟩ := bind_eq_ok_iff.mp h
  obtain ⟨usable, rfl⟩ := make_eq_ok_iff.mp hstart
  obtain ⟨boxes, hboxes, h⟩ := bind_eq_ok_iff.mp h
  obtain ⟨recorded, valid⟩ := record_perm hboxes
  have empty : (empty f : RTree κ).boxes.entries = [] := rfl
  rw [empty, List.append_nil] at recorded
  obtain rfl := pure_eq_ok_iff.mp h
  have packable : ∀ e ∈ items.map fun i => (⟨i.2, i.1⟩ : Boxed κ), e.box.isValid = true :=
    fun e he => by
      obtain ⟨i, hi, rfl⟩ := List.mem_map.mp he
      exact valid i hi
  obtain ⟨⟨root, height⟩, entries⟩ := Packing.sound_build usable packable
  have recordedValid : ∀ k b, (k, b) ∈ boxes.entries → b.isValid = true :=
    fun k b hb => valid (k, b) (recorded.mem_iff.mp hb)
  exact ⟨⟨usable, root, height, entries.trans (recorded.symm.map _), recordedValid⟩, recorded⟩

/-- New keys with valid boxes are recorded. -/
theorem exists_record_eq_ok {items : List (κ × Box Float)} :
    ∀ {boxes : Table κ (Box Float)}, (∀ e ∈ items, e.2.isValid = true) →
      (items.map (·.1)).Nodup → (∀ e ∈ items, boxes.contains e.1 = false) →
      ∃ recorded, record boxes items = .ok recorded := by
  induction items with
  | nil => exact fun {boxes} _ _ _ => ⟨boxes, rfl⟩
  | cons item items ih =>
    intro boxes valid distinct fresh
    obtain ⟨k, b⟩ := item
    obtain ⟨validHere, validThere⟩ := List.forall_mem_cons.mp valid
    obtain ⟨freshHere, freshThere⟩ := List.forall_mem_cons.mp fresh
    obtain ⟨single, distinct⟩ := List.nodup_cons.mp distinct
    rw [record, Option.isNone_iff_eq_none.mp validHere]
    simp only [freshHere, Bool.false_eq_true, if_false]
    refine ih validThere distinct fun e he => ?_
    have other : e.1 ≠ k := by
      rintro rfl
      exact single (List.mem_map.mpr ⟨e, he, rfl⟩)
    rw [Table.contains, Table.get?_insert_of_ne other]
    exact freshThere e he

omit [Std.LawfulEqOrd κ] in
theorem usable_of_ofList [Platform] {f : Fanout} {items : List (κ × Box Float)} {t : RTree κ}
    (h : ofList f items = .ok t) : f.Usable := by
  obtain ⟨start, made, -⟩ := bind_eq_ok_iff.mp h
  exact (make_eq_ok_iff.mp made).1

/-- Different keys with valid boxes are packed, under any bounds that can be used. -/
theorem exists_ofList_eq_ok [Platform] {f : Fanout} {items : List (κ × Box Float)}
    (usable : f.Usable) (valid : ∀ e ∈ items, e.2.isValid = true)
    (distinct : (items.map (·.1)).Nodup) : ∃ t : RTree κ, ofList f items = .ok t := by
  have made : make f = .ok (empty f : RTree κ) := make_eq_ok_iff.mpr ⟨usable, rfl⟩
  have fresh : ∀ e ∈ items, (empty f : RTree κ).boxes.contains e.1 = false := fun _ _ => rfl
  obtain ⟨boxes, recorded⟩ := exists_record_eq_ok valid distinct fresh
  exact ⟨_, bind_eq_ok_iff.mpr ⟨_, made, bind_eq_ok_iff.mpr ⟨boxes, recorded, rfl⟩⟩⟩

/-! ## Changes -/

omit [Std.LawfulEqOrd κ] in
theorem insert_eq_ok_iff [Platform] {t t' : RTree κ} {k : κ} {b : Box Float} :
    t.insert k b = .ok t' ↔ b.isValid = true ∧ t.contains k = false ∧
      t' = t.rebuilt (t.trunk.insert t.fanout ⟨b, k⟩) (t.boxes.insert k b) := by
  rw [RTree.insert, Box.isValid]
  cases b.fault? with
  | some fault => simp
  | none => by_cases fresh : t.contains k = true <;> simp [fresh, eq_comm]

theorem Sound.insert [Platform] {t t' : RTree κ} (sound : t.Sound) {k : κ} {b : Box Float}
    (h : t.insert k b = .ok t') : t'.Sound := by
  obtain ⟨valid, fresh, rfl⟩ := insert_eq_ok_iff.mp h
  have recorded := Table.insert_perm (v := b) fresh
  obtain ⟨⟨root, height⟩, entries⟩ :=
    Trunk.sound_insert sound.usable (e := ⟨b, k⟩) valid sound.trunk sound.nodes_valid
  refine ⟨sound.usable, root, height, ?_, ?_⟩
  · have records := recorded.map fun e : κ × Box Float => (⟨e.2, e.1⟩ : Boxed κ)
    exact entries.trans ((sound.entries.cons _).trans records.symm)
  · intro k' b' h'
    rcases List.mem_cons.mp (recorded.mem_iff.mp h') with h' | h'
    · rwa [(Prod.mk.inj h').2]
    · exact sound.valid k' b' h'

/-- The search for a recorded key does not fail: a key is refused only if it is not recorded. -/
theorem Sound.remove_eq_ok_iff [Platform] {t t' : RTree κ} (sound : t.Sound) {k : κ}
    {b : Box Float} : t.remove k = .ok (b, t') ↔ t.get? k = some b ∧
      t' = t.rebuilt (t.trunk.remove t.fanout k b) (t.boxes.erase k) := by
  rw [RTree.remove]
  cases hget : t.get? k with
  | none => simp
  | some b' =>
    have hmem := (Table.get?_eq_some_iff t.boxes k b').mp hget
    have held : t.root.node.holds k b' = true :=
      Node.holds_of_mem (e := ⟨b', k⟩) (sound.valid k b' hmem) t.root.node sound.root.nodes
        (sound.mem_entries_iff.mpr hmem)
    simp only [held, if_true, Except.ok.injEq, Prod.mk.injEq, Option.some.injEq]
    constructor
    · rintro ⟨rfl, rfl⟩
      exact ⟨rfl, rfl⟩
    · rintro ⟨rfl, rfl⟩
      exact ⟨rfl, rfl⟩

theorem Sound.remove [Platform] {t t' : RTree κ} (sound : t.Sound) {k : κ} {b : Box Float}
    (h : t.remove k = .ok (b, t')) : t'.Sound := by
  obtain ⟨hget, rfl⟩ := sound.remove_eq_ok_iff.mp h
  have hmem := (Table.get?_eq_some_iff t.boxes k b).mp hget
  have held := Node.holds_of_mem (e := ⟨b, k⟩) (sound.valid k b hmem) t.root.node sound.root.nodes
    (sound.mem_entries_iff.mpr hmem)
  obtain ⟨⟨root, height⟩, e, found, entries⟩ :=
    Trunk.sound_remove sound.usable sound.trunk sound.nodes_valid held
  -- The entry taken out is one of the key, and the key is recorded with one box only.
  obtain rfl : e = ⟨b, k⟩ := by
    obtain ⟨box, item⟩ := e
    obtain rfl : item = k := Std.LawfulEqCmp.eq_of_compare (beq_iff_eq.mp found)
    have recorded := sound.mem_entries_iff.mp (entries.mem_iff.mpr List.mem_cons_self)
    exact congrArg (Boxed.mk · item) (Table.eq_of_mem_entries recorded hmem)
  have recorded := Table.erase_perm hmem
  refine ⟨sound.usable, root, height, ?_, ?_⟩
  · exact (entries.symm.trans (sound.entries.trans (recorded.map _))).cons_inv
  · intro k' b' h'
    exact sound.valid k' b' (recorded.mem_iff.mpr (List.mem_cons_of_mem _ h'))

/-! ## Every index -/

/-- Indexes that can be reached: an index made without keys or of many at once, and what changes
that are not refused make of it, in any order and each on any platform. -/
inductive Reachable : RTree κ → Prop
  | make {f : Fanout} {t : RTree κ} : make f = .ok t → Reachable t
  | ofList [Platform] {f : Fanout} {items : List (κ × Box Float)} {t : RTree κ} :
    ofList f items = .ok t → Reachable t
  | insert [Platform] {t t' : RTree κ} {k : κ} {b : Box Float} :
    Reachable t → t.insert k b = .ok t' → Reachable t'
  | remove [Platform] {t t' : RTree κ} {k : κ} {b : Box Float} :
    Reachable t → t.remove k = .ok (b, t') → Reachable t'
  | clear {t : RTree κ} : Reachable t → Reachable t.clear

theorem Reachable.sound {t : RTree κ} (h : t.Reachable) : t.Sound := by
  induction h with
  | make h =>
    obtain ⟨usable, rfl⟩ := make_eq_ok_iff.mp h
    exact sound_empty usable
  | ofList h => exact (sound_ofList h).1
  | insert _ h ih => exact ih.insert h
  | remove _ h ih => exact ih.remove h
  | clear _ ih => exact sound_empty ih.usable

end Changes

/-! ## Queries -/

section Queries

/-- The keys whose recorded boxes pass a test, found by looking at every recorded box. -/
def scan (t : RTree κ) (test : Box Float → Bool) : List κ :=
  (t.boxes.entries.filter fun e => test e.2).map (·.1)

/-- The keys are those that a scan finds, each of them once. -/
structure Answers (t : RTree κ) (test : Box Float → Bool) (keys : List κ) : Prop where
  perm_scan : keys.Perm (t.scan test)
  nodup : keys.Nodup
  mem_iff : ∀ k, k ∈ keys ↔ ∃ b, t.get? k = some b ∧ test b = true

theorem scan_eq_records (t : RTree κ) (test : Box Float → Bool) :
    t.scan test = (t.records.filter (test ·.box)).map (·.item) := by
  simp only [scan, records, List.filter_map, List.map_map, Function.comp_def]

variable [Std.TransOrd κ]

theorem nodup_scan (t : RTree κ) (test : Box Float → Bool) : (t.scan test).Nodup :=
  t.boxes.nodup_keys.sublist (List.filter_sublist.map _)

variable [Std.LawfulEqOrd κ]

theorem mem_scan_iff {t : RTree κ} {test : Box Float → Bool} {k : κ} :
    k ∈ t.scan test ↔ ∃ b, t.get? k = some b ∧ test b = true := by
  simp only [scan, get?, Table.get?_eq_some_iff, List.mem_map, List.mem_filter, Prod.exists,
    exists_and_right, exists_eq_right]

/-- A search that no box within can slip through finds what a scan finds. -/
theorem Sound.answers_search {t : RTree κ} (sound : t.Sound) {test : Box Float → Bool}
    (mono : ∀ b c : Box Float, c.Within b → test c = true → test b = true) :
    t.Answers test (t.search test) := by
  have perm : (t.search test).Perm (t.scan test) := by
    rw [search, Node.search_eq_filter mono t.root.node sound.root.nodes, scan_eq_records]
    exact (sound.entries.filter _).map _
  exact ⟨perm, perm.nodup_iff.mpr (t.nodup_scan test), fun k => perm.mem_iff.trans mem_scan_iff⟩

theorem Sound.answers_keysAt {t : RTree κ} (sound : t.Sound) (p : Point Float) :
    t.Answers (·.contains p) (t.keysAt p) :=
  sound.answers_search fun _ _ within => within.contains

theorem Sound.answers_keysMeeting {t : RTree κ} (sound : t.Sound) (area : Box Float) :
    t.Answers (·.intersects area) (t.keysMeeting area) :=
  sound.answers_search fun _ _ within => within.intersects

variable [ToString κ]

/-- What the queries find on an index that can be reached. -/
theorem Reachable.answers {t : RTree κ} (h : t.Reachable) :
    (∀ p : Point Float, t.Answers (·.contains p) (t.keysAt p)) ∧
      ∀ area : Box Float, t.Answers (·.intersects area) (t.keysMeeting area) :=
  ⟨h.sound.answers_keysAt, h.sound.answers_keysMeeting⟩

/-- An index of two keys, of which a query finds the one whose box holds the point. -/
theorem answers_of_two_keys : ∃ t : RTree Nat, t.keys = [3, 7] ∧ t.keysAt ⟨1, 1, 1⟩ = [7] ∧
    (∀ p : Point Float, t.Answers (·.contains p) (t.keysAt p)) ∧
      ∀ area : Box Float, t.Answers (·.intersects area) (t.keysMeeting area) := by
  let := Platform.reference
  have start : make ⟨4, 2⟩ = .ok (empty ⟨4, 2⟩ : RTree Nat) := rfl
  have first : Box.isValid (⟨⟨0, 0, 0⟩, ⟨2, 2, 2⟩⟩ : Box Float) = true := by decide +kernel
  have second : Box.isValid (⟨⟨5, 0, 0⟩, ⟨7, 2, 2⟩⟩ : Box Float) = true := by decide +kernel
  have reachable := (Reachable.make start).insert (insert_eq_ok_iff.mpr ⟨first, rfl, rfl⟩) (k := 7)
  have reachable := reachable.insert (insert_eq_ok_iff.mpr ⟨second, rfl, rfl⟩) (k := 3)
  exact ⟨_, by decide +kernel, by decide +kernel, reachable.answers⟩

end Queries

end Enclave.RTree
