import Enclave.Proofs.Index.Audit

/-!
# An index is the finite map of what it records

A `Command` is what may be asked to change an index. An index and the table of its recorded boxes
answer every command alike, and come to the same table by it (`RTree.Records.obey`); so they answer
every run of commands alike (`RTree.Records.run`). How the nodes lie, what is dissolved and what is
put in anew cannot be told from the answers.

That the table is what the leaves hold is part of soundness. What can be looked up in an index is
therefore told of its leaves too (`RTree.Describes`), and the bounds of its root cover the recorded
boxes and no more.
-/

namespace Enclave

variable {κ : Type}

/-! ## Covers of roots -/

/-- A root has a cover exactly if there is something below it. -/
theorem Root.Sound.cover?_cases {f : Fanout} (usable : f.Usable) {r : Root κ} (sound : r.Sound f)
    (valid : r.node.Valid) : (r.node.entries = [] ∧ r.node.cover? = none) ∨
      (r.node.entries ≠ [] ∧
        ∃ b, r.node.cover? = some b ∧ b.IsCover (Boxed.boxes r.node.entries)) := by
  obtain ⟨n, node⟩ := r
  by_cases pos : 0 < node.size
  · have cover := Node.exists_cover? node sound.nodes valid pos
    exact .inr ⟨Node.entries_ne_nil usable node sound.nodes pos, cover⟩
  · have two_le := sound.two_le
    dsimp only at two_le
    -- A branch at the root has children, so this is a leaf.
    obtain rfl : n = 0 := by omega
    obtain rfl : node = Node.leaf [] := List.length_eq_zero_iff.mp (Nat.eq_zero_of_not_pos pos)
    exact .inl ⟨rfl, rfl⟩

namespace RTree

variable [Ord κ]

/-! ## What can be looked up -/

/-- What is told of an index is told of the entries in its leaves. -/
structure Describes (t : RTree κ) : Prop where
  size_eq : t.size = t.root.node.entries.length
  get?_iff : ∀ k b, t.get? k = some b ↔ ⟨b, k⟩ ∈ t.root.node.entries
  contains_iff : ∀ k, t.contains k = true ↔ ∃ b, ⟨b, k⟩ ∈ t.root.node.entries
  keys_perm : t.keys.Perm (t.root.node.entries.map (·.item))
  keys_nodup : t.keys.Nodup
  bounds?_eq_none_iff : t.bounds? = none ↔ t.keys = []
  /-- The bounds are the least box that every recorded box lies within. -/
  bounds : ∀ b, t.bounds? = some b → b.IsCover t.boxes.values

theorem boxes_records (t : RTree κ) : Boxed.boxes t.records = t.boxes.values := by
  simp only [Boxed.boxes, records, List.map_map, Table.values, Function.comp_def]

theorem items_records (t : RTree κ) : t.records.map (·.item) = t.keys := by
  simp only [records, List.map_map, keys, Table.keys, Function.comp_def]

theorem Sound.keys_perm {t : RTree κ} (sound : t.Sound) :
    t.keys.Perm (t.root.node.entries.map (·.item)) :=
  t.items_records ▸ (sound.entries.map _).symm

theorem Sound.bounds?_cases {t : RTree κ} (sound : t.Sound) :
    (t.keys = [] ∧ t.bounds? = none) ∨
      (t.keys ≠ [] ∧ ∃ b, t.bounds? = some b ∧ b.IsCover t.boxes.values) := by
  have empty_iff : t.keys = [] ↔ t.root.node.entries = [] := by
    rw [← List.map_eq_nil_iff (f := (·.item)) (l := t.root.node.entries)]
    exact ⟨fun h => (h ▸ sound.keys_perm).nil_eq.symm, fun h => (h ▸ sound.keys_perm).eq_nil⟩
  have boxes : (Boxed.boxes t.root.node.entries).Perm t.boxes.values :=
    t.boxes_records ▸ sound.entries.map _
  rw [ne_eq, empty_iff]
  rcases sound.root.cover?_cases sound.usable sound.nodes_valid with
    ⟨nothing, none⟩ | ⟨something, b, some, cover⟩
  · exact .inl ⟨nothing, none⟩
  · exact .inr ⟨something, b, some, cover.perm boxes⟩

variable [Std.TransOrd κ] [Std.LawfulEqOrd κ]

theorem Sound.describes {t : RTree κ} (sound : t.Sound) : t.Describes where
  size_eq := sound.length_entries.symm
  get?_iff k b := (Table.get?_eq_some_iff ..).trans (sound.mem_entries_iff (e := ⟨b, k⟩)).symm
  contains_iff k := by
    rw [contains, Table.contains_eq_true_iff]
    exact exists_congr fun b => (sound.mem_entries_iff (e := ⟨b, k⟩)).symm
  keys_perm := sound.keys_perm
  keys_nodup := t.boxes.nodup_keys
  bounds?_eq_none_iff := by
    rcases sound.bounds?_cases with ⟨nothing, none⟩ | ⟨something, b, some, -⟩
    · exact iff_of_true none nothing
    · exact iff_of_false (some ▸ Option.some_ne_none b) something
  bounds b found := by
    rcases sound.bounds?_cases with ⟨-, none⟩ | ⟨-, b', some, cover⟩
    · cases none.symm.trans found
    · cases some.symm.trans found
      exact cover

end RTree

/-! ## Commands -/

/-- What may be asked to change an index. -/
inductive Command (κ : Type) where
  | insert (k : κ) (b : Box Float)
  | remove (k : κ)
  | clear

namespace Command

/-- The answer to a command: the box of the key that was removed, if one was, or why the command is
refused. -/
abbrev Reply := Except IndexFault (Option (Box Float))

/-- The command leaves alone what is recorded for a key. -/
def Spares (k : κ) : Command κ → Prop
  | insert k' _ | remove k' => k' ≠ k
  | clear => False

/-- What becomes of a state by commands one after the other, and the answer to each. -/
def run {σ : Type} (obey : σ → Command κ → σ × Reply) : σ → List (Command κ) → σ × List Reply
  | s, [] => (s, [])
  | s, c :: cs =>
    let (next, reply) := obey s c
    let (last, replies) := run obey next cs
    (last, reply :: replies)

end Command

open Command (Reply)

variable [Ord κ] [Std.TransOrd κ] [ToString κ]

/-- What an index makes of a command. It stays as it is where it gives no new one. -/
def RTree.obey [Platform] (t : RTree κ) : Command κ → RTree κ × Reply
  | .insert k b =>
    match t.insert k b with
    | .ok next => (next, .ok none)
    | .error fault => (t, .error fault)
  | .remove k =>
    match t.remove k with
    | .ok (b, next) => (next, .ok (some b))
    | .error fault => (t, .error fault)
  | .clear => (t.clear, .ok none)

/-- An index that refuses a command stays as it is. -/
theorem RTree.obey_of_error [Platform] {t : RTree κ} {c : Command κ} {fault : IndexFault}
    (refused : (t.obey c).2 = .error fault) : (t.obey c).1 = t := by
  unfold RTree.obey at refused ⊢
  cases c with
  | insert k b =>
    dsimp only at refused ⊢
    split at refused
    · cases refused
    · rfl
  | remove k =>
    dsimp only at refused ⊢
    split at refused
    · cases refused
    · rfl
  | clear => cases refused

theorem RTree.Reachable.obey [Platform] {t : RTree κ} (h : t.Reachable) (c : Command κ) :
    (t.obey c).1.Reachable := by
  unfold RTree.obey
  cases c with
  | insert k b =>
    dsimp only
    split
    · exact h.insert ‹_›
    · exact h
  | remove k =>
    dsimp only
    split
    · exact h.remove ‹_›
    · exact h
  | clear => exact h.clear

theorem RTree.Reachable.run [Platform] {t : RTree κ} (h : t.Reachable) (cs : List (Command κ)) :
    (Command.run RTree.obey t cs).1.Reachable := by
  induction cs generalizing t with
  | nil => exact h
  | cons c cs ih => exact ih (h.obey c)

/-- What a finite map of valid boxes makes of a command. -/
def Table.obey (m : Table κ (Box Float)) : Command κ → Table κ (Box Float) × Reply
  | .insert k b =>
    match b.fault?, m.get? k with
    | some fault, _ => (m, .error (.invalidBox b fault))
    | none, some _ => (m, .error (.duplicateKey (toString k)))
    | none, none => (m.insert k b, .ok none)
  | .remove k =>
    match m.get? k with
    | some b => (m.erase k, .ok (some b))
    | none => (m, .error (.missingKey (toString k)))
  | .clear => (∅, .ok none)

namespace Table

variable {m : Table κ (Box Float)} {k : κ}

/-- What a map refuses is refused for a fault of the command. -/
theorem faultless_of_error (m : Table κ (Box Float)) {c : Command κ} {fault : IndexFault}
    (refused : (m.obey c).2 = .error fault) : ∀ flaw, fault ≠ .corrupt flaw := by
  unfold obey at refused
  cases c with
  | insert k b =>
    dsimp only at refused
    split at refused
    · cases refused
      exact nofun
    · cases refused
      exact nofun
    · cases refused
  | remove k =>
    dsimp only at refused
    split at refused
    · cases refused
    · cases refused
      exact nofun
  | clear => cases refused

theorem obey_remove_of_get? {b : Box Float} (found : m.get? k = some b) :
    (m.obey (.remove k)).2 = .ok (some b) := by
  simp only [obey, found]

variable [Std.LawfulEqOrd κ]

theorem get?_obey_of_spares {c : Command κ} (spares : c.Spares k) :
    (m.obey c).1.get? k = m.get? k := by
  unfold obey
  cases c with
  | insert k' b =>
    dsimp only
    split
    · rfl
    · rfl
    · exact get?_insert_of_ne (Ne.symm spares)
  | remove k' =>
    dsimp only
    split
    · exact get?_erase_of_ne (Ne.symm spares)
    · rfl
  | clear => exact spares.elim

/-- Commands that leave a key alone, in whatever number, leave what is recorded for it. -/
theorem get?_run_of_spares {cs : List (Command κ)} (spares : ∀ c ∈ cs, c.Spares k) :
    (Command.run obey m cs).1.get? k = m.get? k := by
  induction cs generalizing m with
  | nil => rfl
  | cons c cs ih =>
    obtain ⟨here, there⟩ := List.forall_mem_cons.mp spares
    exact (ih there).trans (get?_obey_of_spares here)

end Table

namespace RTree

variable [Std.LawfulEqOrd κ] {t : RTree κ} {m : Table κ (Box Float)}

/-! ## The index follows the map -/

/-- The index is sound and records what the map holds. -/
structure Records (t : RTree κ) (m : Table κ (Box Float)) : Prop extends t.Sound where
  boxes_eq : t.boxes = m

omit [Std.TransOrd κ] [ToString κ] [Std.LawfulEqOrd κ] in
theorem Sound.records_boxes (sound : t.Sound) : t.Records t.boxes := ⟨sound, rfl⟩

omit [Std.LawfulEqOrd κ] in
/-- Whether a box is recorded is asked in the same order of the index and of the map. -/
theorem insert_eq [Platform] (t : RTree κ) (k : κ) (b : Box Float) : t.insert k b =
    match b.fault?, t.boxes.get? k with
    | some fault, _ => .error (.invalidBox b fault)
    | none, some _ => .error (.duplicateKey (toString k))
    | none, none =>
      .ok (t.rebuilt (t.trunk.insert t.fanout ⟨b, k⟩) (t.boxes.insert k b)) := by
  rw [RTree.insert, contains, Table.contains]
  cases b.fault? with
  | some fault => rfl
  | none => cases t.boxes.get? k <;> rfl

/-- On a sound index the search for a recorded key does not fail. -/
theorem Sound.remove_eq [Platform] (sound : t.Sound) (k : κ) : t.remove k =
    match t.boxes.get? k with
    | none => .error (.missingKey (toString k))
    | some b => .ok (b, t.rebuilt (t.trunk.remove t.fanout k b) (t.boxes.erase k)) := by
  cases found : t.boxes.get? k with
  | none => rw [RTree.remove, RTree.get?, found]
  | some b => exact sound.remove_eq_ok_iff.mpr ⟨found, rfl⟩

/-- The step: the answer is that of the map, and what the index then records is what the map then
holds. -/
theorem Records.obey [Platform] (records : t.Records m) (c : Command κ) :
    (t.obey c).2 = (m.obey c).2 ∧ (t.obey c).1.Records (m.obey c).1 := by
  obtain ⟨sound, rfl⟩ := records
  cases c with
  | insert k b =>
    have step (next : RTree κ) : t.insert k b = .ok next → next.Sound := sound.insert
    simp only [RTree.obey, Table.obey, insert_eq] at step ⊢
    cases fault : b.fault? with
    | some fault => exact ⟨rfl, sound, rfl⟩
    | none =>
      cases found : t.boxes.get? k with
      | some b' => exact ⟨rfl, sound, rfl⟩
      | none =>
        rw [fault, found] at step
        exact ⟨rfl, step _ rfl, rfl⟩
  | remove k =>
    have step (b : Box Float) (next : RTree κ) : t.remove k = .ok (b, next) → next.Sound :=
      sound.remove
    simp only [RTree.obey, Table.obey, sound.remove_eq] at step ⊢
    cases found : t.boxes.get? k with
    | none => exact ⟨rfl, sound, rfl⟩
    | some b =>
      rw [found] at step
      exact ⟨rfl, step _ _ rfl, rfl⟩
  | clear => exact ⟨rfl, sound_empty sound.usable, rfl⟩

/-- The run, by induction on the commands: index and map stay in step from one to the next. -/
theorem Records.run [Platform] (records : t.Records m) (cs : List (Command κ)) :
    (Command.run RTree.obey t cs).2 = (Command.run Table.obey m cs).2 ∧
      (Command.run RTree.obey t cs).1.Records (Command.run Table.obey m cs).1 := by
  induction cs generalizing t m with
  | nil => exact ⟨rfl, records⟩
  | cons c cs ih =>
    obtain ⟨reply, next⟩ := records.obey c
    obtain ⟨replies, last⟩ := ih next
    exact ⟨congrArg₂ List.cons reply replies, last⟩

/-! ## Contents -/

omit [Std.LawfulEqOrd κ] in
/-- An entry that is put in comes to the leaves, and nothing else does or goes. -/
theorem Sound.entries_insert [Platform] (sound : t.Sound) {k : κ} {b : Box Float} {next : RTree κ}
    (h : t.insert k b = .ok next) : next.boxes = t.boxes.insert k b ∧
      next.root.node.entries.Perm (⟨b, k⟩ :: t.root.node.entries) := by
  obtain ⟨valid, -, rfl⟩ := insert_eq_ok_iff.mp h
  exact ⟨rfl, (Trunk.sound_insert sound.usable (e := ⟨b, k⟩) valid sound.trunk sound.nodes_valid).2⟩

/-- The entry of a key that is removed goes from the leaves, and nothing else does or comes, whatever
nodes are dissolved on the way. -/
theorem Sound.entries_remove [Platform] (sound : t.Sound) {k : κ} {b : Box Float} {next : RTree κ}
    (h : t.remove k = .ok (b, next)) : t.get? k = some b ∧ next.boxes = t.boxes.erase k ∧
      t.root.node.entries.Perm (⟨b, k⟩ :: next.root.node.entries) := by
  obtain ⟨found, same⟩ := sound.remove_eq_ok_iff.mp h
  have boxes : next.boxes = t.boxes.erase k := congrArg (·.boxes) same
  have recorded : t.records.Perm (⟨b, k⟩ :: next.records) := by
    have erased := Table.erase_perm ((Table.get?_eq_some_iff t.boxes k b).mp found)
    rw [← boxes] at erased
    exact erased.map fun e => (⟨e.2, e.1⟩ : Boxed κ)
  exact ⟨found, boxes, sound.entries.trans (recorded.trans ((sound.remove h).entries.symm.cons _))⟩

/-- An index as the finite map of what it records. -/
structure Refines [Platform] (t : RTree κ) : Prop where
  insert_iff : ∀ k b, (∃ next, t.insert k b = .ok next) ↔ b.isValid = true ∧ t.contains k = false
  inserted : ∀ k b next, t.insert k b = .ok next → next.boxes = t.boxes.insert k b ∧
    next.root.node.entries.Perm (⟨b, k⟩ :: t.root.node.entries)
  remove_iff : ∀ k, (∃ x, t.remove k = .ok x) ↔ t.contains k = true
  removed : ∀ k b next, t.remove k = .ok (b, next) → t.get? k = some b ∧
    next.boxes = t.boxes.erase k ∧ t.root.node.entries.Perm (⟨b, k⟩ :: next.root.node.entries)
  /-- What is refused is so for a fault of the command, and leaves the index as it is. -/
  refused : ∀ c fault, (t.obey c).2 = .error fault →
    (t.obey c).1 = t ∧ ∀ flaw, fault ≠ .corrupt flaw
  /-- Index and map answer every run of commands alike, and come to record the same. -/
  run : ∀ cs, (Command.run obey t cs).2 = (Command.run Table.obey t.boxes cs).2 ∧
    (Command.run obey t cs).1.boxes = (Command.run Table.obey t.boxes cs).1 ∧
    (Command.run obey t cs).1.Describes
  /-- A key is removed with the box that it was inserted with, whatever is done in between with
  others. -/
  returned : ∀ k b cs, (t.obey (.insert k b)).2 = .ok none → (∀ c ∈ cs, c.Spares k) →
    ((Command.run obey (t.obey (.insert k b)).1 cs).1.obey (.remove k)).2 = .ok (some b)
  describes : t.Describes
  audit : t.flaw? = none

/-- Only what a command asks for can be at fault, and then the index stays as it is. -/
theorem Sound.obey_refused [Platform] (sound : t.Sound) (c : Command κ) {fault : IndexFault}
    (refused : (t.obey c).2 = .error fault) : (t.obey c).1 = t ∧ ∀ flaw, fault ≠ .corrupt flaw := by
  have reply := (sound.records_boxes.obey c).1
  exact ⟨obey_of_error refused, t.boxes.faultless_of_error (reply.symm.trans refused)⟩

theorem Sound.remove_after_insert [Platform] (sound : t.Sound) {k : κ} {b : Box Float}
    {cs : List (Command κ)} (granted : (t.obey (.insert k b)).2 = .ok none)
    (spares : ∀ c ∈ cs, c.Spares k) :
    ((Command.run obey (t.obey (.insert k b)).1 cs).1.obey (.remove k)).2 = .ok (some b) := by
  obtain ⟨reply, inserted⟩ := sound.records_boxes.obey (.insert k b)
  have last := (inserted.run cs).2
  have held : (t.boxes.obey (.insert k b)).1.get? k = some b := by
    rw [reply] at granted
    unfold Table.obey at granted ⊢
    dsimp only at granted ⊢
    split at granted
    · cases granted
    · cases granted
    · exact Table.get?_insert_self
  have left := (Table.get?_run_of_spares spares).trans held
  exact (last.obey (.remove k)).1.trans (Table.obey_remove_of_get? left)

/-- Every index that can be reached is the finite map of what it records, whatever nodes are split,
dissolved or put together anew. -/
theorem Reachable.refines [Platform] (h : t.Reachable) : t.Refines := by
  have sound := h.sound
  refine ⟨fun k b => ?_, fun k b next => sound.entries_insert, fun k => ?_,
    fun k b next => sound.entries_remove, fun c fault => sound.obey_refused c, fun cs => ?_,
    fun k b cs => sound.remove_after_insert, sound.describes, sound.flaw?_eq_none⟩
  · simp only [insert_eq_ok_iff, exists_and_left, exists_eq, and_true]
  · rw [contains, Table.contains_iff_get?]
    constructor
    · rintro ⟨⟨b, next⟩, removed⟩
      exact ⟨b, (sound.entries_remove removed).1⟩
    · rintro ⟨b, found⟩
      exact ⟨_, sound.remove_eq_ok_iff.mpr ⟨found, rfl⟩⟩
  · obtain ⟨replies, last⟩ := sound.records_boxes.run cs
    exact ⟨replies, last.boxes_eq, last.describes⟩

/-- Five keys far from each other lie in two leaves. With two keys gone one leaf is dissolved, and
the key that is left in it goes to the other. -/
theorem refines_of_dissolved_leaf : letI := Platform.reference
    ∃ t : RTree Nat, (t.height, (Command.run obey t [.remove 1, .remove 2]).1.height,
      (Command.run obey t [.remove 1, .remove 2]).1.keys) = (2, 1, [3, 4, 5]) ∧ t.Refines := by
  let := Platform.reference
  have start : make ⟨4, 2⟩ = .ok (empty ⟨4, 2⟩ : RTree Nat) := rfl
  have reachable := (Reachable.make start).run [
    .insert 1 ⟨⟨0, 0, 0⟩, ⟨1, 1, 1⟩⟩, .insert 2 ⟨⟨1, 0, 0⟩, ⟨2, 1, 1⟩⟩,
    .insert 3 ⟨⟨2, 0, 0⟩, ⟨3, 1, 1⟩⟩, .insert 4 ⟨⟨8, 0, 0⟩, ⟨9, 1, 1⟩⟩,
    .insert 5 ⟨⟨9, 0, 0⟩, ⟨10, 1, 1⟩⟩]
  exact ⟨_, by decide +kernel, reachable.refines⟩

end RTree

end Enclave
