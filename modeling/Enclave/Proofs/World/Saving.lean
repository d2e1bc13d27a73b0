import Enclave.Proofs.World.Orders

/-!
# What is stored does not fall behind

A loaded world remembers the generation that was saved last. Between one save and the next the world
may be changed through the realm or past it, saves may be switched off or fail, and other worlds and
archives go their own way. Still the generation remembered never runs ahead, and what is stored is
what the world was at that generation (`Realm.Kept`). So a save that does nothing, since nothing is
newer than the generation remembered, does nothing rightly: what is stored is what the world is.

Each event keeps this (`Realm.Kept.step`), and so does any number of them (`Realm.Kept.run`). The
world must not be loaded anew meanwhile, nor may anyone else store anything for it.
-/

namespace Enclave

variable {name other : WorldName} {archive : String} {w : LoadedWorld}

/-! ## Events -/

/-- What may happen to a realm. -/
inductive Event where
  | serve (world : WorldName) (order : Order)
  /-- The territory of a world is changed past the realm, which saves nothing then. -/
  | edit (world : WorldName) (request : Request)
  | save (world : WorldName)
  | load (world : WorldName) (archive : String) (policy : Policy)
  | unload (world : WorldName)
  | setAvailable (archive : String) (available : Bool)
  /-- Someone else stores regions for a world. -/
  | store (archive : String) (world : WorldName) (ds : List Declaration)

/-- The world stays loaded, and only the realm stores anything for it in the archive. -/
def Event.Spares (name : WorldName) (archive : String) : Event → Prop
  | load world _ _ | unload world => world ≠ name
  | store archive' world _ => archive' ≠ archive ∨ world ≠ name
  | serve .. | edit .. | save _ | setAvailable .. => True

/-- The world is saved to the same archive, under the same policy. -/
def LoadedWorld.Succeeds (w' w : LoadedWorld) : Prop :=
  w'.archive = w.archive ∧ w'.territory.policy = w.territory.policy

namespace Realm

/-- The realm with an archive changed, if it has the archive. -/
def modifyArchive {σ : Type} (r : Realm σ) (name : String) (f : σ → σ) : Realm σ :=
  match r.archives.get? name with
  | some a => { r with archives := r.archives.insert name (f a) }
  | none => r

/-- What becomes of a realm by an event. -/
def step [Platform] (r : Realm MemoryArchive) : Event → Realm MemoryArchive
  | .serve name order => (r.serve name order).1
  | .edit name request => (r.edit name (·.serve request)).1
  | .save name => (r.save? name).1
  | .load name archive policy => (r.load name archive policy).toOption.getD r
  | .unload name => r.unload name
  | .setAvailable archive available => r.modifyArchive archive fun a => { a with available }
  | .store archive name ds => r.modifyArchive archive fun a => (Archive.save a name ds).toOption.getD a

/-- What becomes of a realm by events one after the other. -/
def run [Platform] (r : Realm MemoryArchive) (es : List Event) : Realm MemoryArchive :=
  es.foldl step r

/-- A world is loaded, and this is the archive that it is saved to. -/
structure Holds (r : Realm MemoryArchive) (name : WorldName) (w : LoadedWorld) (a : MemoryArchive) :
    Prop where
  world : r.worlds.get? name = some w
  archive : r.archives.get? w.archive = some a

/-- What is stored for a world is what the world is. -/
def UpToDate (r : Realm MemoryArchive) (name : WorldName) : Prop :=
  ∃ w a, r.Holds name w a ∧ a.stored? name = some w.territory.atlas.declarations

/-- The world is at this snapshot. -/
def IsAt (r : Realm MemoryArchive) (name : WorldName) (s : Atlas) : Prop :=
  ∃ w, r.worlds.get? name = some w ∧ w.territory.atlas = s

/-- The world came to this snapshot, by some of the events. -/
def CameTo [Platform] (r : Realm MemoryArchive) (name : WorldName) (es : List Event)
    (s : Atlas) : Prop :=
  ∃ es', es' <+: es ∧ (r.run es').IsAt name s

variable {r r' : Realm MemoryArchive} {a a' : MemoryArchive}

theorem Holds.isAt_iff {r : Realm MemoryArchive} {a : MemoryArchive} (holds : r.Holds name w a)
    {s : Atlas} : r.IsAt name s ↔ s = w.territory.atlas := by
  constructor
  · rintro ⟨w', found, rfl⟩
    cases holds.world.symm.trans found
    rfl
  · rintro rfl
    exact ⟨w, holds.world, rfl⟩

end Realm

/-! ## One save -/

namespace MemoryArchive

/-- The archive with these regions stored for a world. -/
def keep (a : MemoryArchive) (world : WorldName) (ds : List Declaration) : MemoryArchive :=
  { a with worlds := a.worlds.insert world ds, saves := a.saves + 1 }

@[simp] theorem stored?_keep_self (a : MemoryArchive) (world : WorldName) (ds : List Declaration) :
    (a.keep world ds).stored? world = some ds := Table.get?_insert_self

theorem stored?_keep_of_ne (a : MemoryArchive) {world : WorldName} (ne : other ≠ world)
    (ds : List Declaration) : (a.keep world ds).stored? other = a.stored? other :=
  Table.get?_insert_of_ne ne

/-- An archive stores whatever it is given while it is available, and nothing otherwise. -/
theorem save_eq (a : MemoryArchive) (world : WorldName) (ds : List Declaration) :
    Archive.save a world ds = if a.available then .ok (a.keep world ds)
      else .error (.unavailable "memory store disabled") := by
  change (a.check >>= fun _ => pure (a.keep world ds)) = _
  unfold check
  split <;> rfl

end MemoryArchive

namespace Realm

variable {r r' : Realm MemoryArchive} {a a' : MemoryArchive}

/-- The realm once a world is saved. -/
def saved (r : Realm MemoryArchive) (name : WorldName) (w : LoadedWorld) (a : MemoryArchive) :
    Realm MemoryArchive where
  catalogue := r.catalogue
  archives := r.archives.insert w.archive (a.keep name w.territory.atlas.declarations)
  worlds := r.worlds.insert name { w with persisted := w.territory.generation }

/-- A save that has something to do comes to what the archive of the world says. -/
theorem saveWorld_of_newer (known : r.archives.get? w.archive = some a)
    (newer : w.persisted < w.territory.generation) : r.saveWorld name w =
      if a.available then (r.saved name w a, .ok ())
      else (r, .error (.unavailable "memory store disabled")) := by
  rw [saveWorld, if_neg (Nat.not_le.mpr newer), Realm.archive, known, Except.bind,
    MemoryArchive.save_eq]
  split <;> rfl

theorem saveWorld_of_not_newer (caughtUp : w.territory.generation ≤ w.persisted) :
    r.saveWorld name w = (r, .ok ()) := if_pos caughtUp

/-- A save changes nothing, or stores the world in its archive. -/
theorem saveWorld_cases (r : Realm MemoryArchive) (name : WorldName) (w : LoadedWorld) :
    (r.saveWorld name w).1 = r ∨
      ∃ a, r.archives.get? w.archive = some a ∧ (r.saveWorld name w).1 = r.saved name w a := by
  by_cases caughtUp : w.territory.generation ≤ w.persisted
  · rw [saveWorld_of_not_newer caughtUp]
    exact .inl rfl
  · cases known : r.archives.get? w.archive with
    | none =>
      rw [saveWorld, if_neg caughtUp, Realm.archive, known]
      exact .inl rfl
    | some a =>
      rw [saveWorld_of_newer known (Nat.not_le.mp caughtUp)]
      split
      · exact .inr ⟨a, rfl, rfl⟩
      · exact .inl rfl

/-! ## Other worlds -/

/-- The second realm has the same of a world as the first, and the same stored for it. -/
structure Leaves (name : WorldName) (archive : String) (r r' : Realm MemoryArchive) : Prop where
  world : r'.worlds.get? name = r.worlds.get? name
  stored : (r'.archives.get? archive).map (·.stored? name) =
    (r.archives.get? archive).map (·.stored? name)

namespace Leaves

theorem refl (r : Realm MemoryArchive) : Leaves name archive r r := ⟨rfl, rfl⟩

theorem trans {r'' : Realm MemoryArchive} (h : Leaves name archive r r')
    (h' : Leaves name archive r' r'') : Leaves name archive r r'' :=
  ⟨h'.world.trans h.world, h'.stored.trans h.stored⟩

theorem put (ne : other ≠ name) (w : LoadedWorld) : Leaves name archive r (r.put other w) :=
  ⟨get?_put_of_ne ne.symm, rfl⟩

theorem unload (ne : other ≠ name) : Leaves name archive r (r.unload other) :=
  ⟨Table.get?_erase_of_ne ne.symm, rfl⟩

theorem insertArchive {archive' : String} (found : r.archives.get? archive' = some a)
    (same : archive' = archive → a'.stored? name = a.stored? name) :
    Leaves name archive r { r with archives := r.archives.insert archive' a' } := by
  refine ⟨rfl, ?_⟩
  by_cases h : archive = archive'
  · subst h
    simp only [Table.get?_insert_self, found, Option.map_some, same rfl]
  · simp only [Table.get?_insert_of_ne h]

theorem modifyArchive {archive' : String} {f : MemoryArchive → MemoryArchive}
    (same : ∀ a, archive' = archive → (f a).stored? name = a.stored? name) :
    Leaves name archive r (r.modifyArchive archive' f) := by
  unfold Realm.modifyArchive
  split
  next a found => exact insertArchive found (same a)
  next => exact refl r

theorem saveWorld (ne : other ≠ name) (w : LoadedWorld) :
    Leaves name archive r (r.saveWorld other w).1 := by
  rcases r.saveWorld_cases other w with same | ⟨a, known, saved⟩
  · rw [same]
    exact refl r
  · rw [saved]
    exact (insertArchive known fun _ => a.stored?_keep_of_ne ne.symm _).trans (put ne _)

theorem change {α : Type} (ne : other ≠ name) (f : Territory → Territory × Except Refusal α) :
    Leaves name archive r (r.change other f).1 := by
  cases loaded : r.worlds.get? other with
  | none =>
    rw [change_of_absent loaded]
    exact refl r
  | some w =>
    rcases change_cases (f := f) loaded with made | saved
    · rw [made]
      exact put ne _
    · rw [saved]
      exact (put ne _).trans (saveWorld ne _)

theorem edit {α : Type} (ne : other ≠ name) (f : Territory → Territory × Except Refusal α) :
    Leaves name archive r (r.edit other f).1 := by
  cases loaded : r.worlds.get? other with
  | none =>
    rw [edit_of_absent loaded]
    exact refl r
  | some w =>
    rw [edit_of_loaded loaded]
    exact put ne _

theorem save? (ne : other ≠ name) : Leaves name archive r (r.save? other).1 := by
  unfold Realm.save?
  split
  · exact saveWorld ne _
  · exact refl r

theorem load [Platform] (ne : other ≠ name) (archive' : String) (policy : Policy) :
    Leaves name archive r ((r.load other archive' policy).toOption.getD r) := by
  cases loaded : r.load other archive' policy with
  | error fault => exact refl r
  | ok next =>
    obtain ⟨_, _, t, -, -, -, rfl⟩ := load_eq_ok loaded
    exact put ne _

theorem store {archive' : String} (elsewhere : archive' ≠ archive ∨ other ≠ name)
    (ds : List Declaration) : Leaves name archive r
      (r.modifyArchive archive' fun a => (Archive.save a other ds).toOption.getD a) := by
  refine modifyArchive fun a here => ?_
  rw [MemoryArchive.save_eq]
  split
  · exact a.stored?_keep_of_ne (elsewhere.resolve_left (not_not.mpr here)).symm ds
  · rfl

end Leaves

/-! ## The world itself -/

/-- What is known of a world and its archive, of which the world has had some snapshots: no two of
them are of one generation, and what is stored is the one of the generation remembered. -/
structure Kept (had : Atlas → Prop) (r : Realm MemoryArchive) (name : WorldName) (w : LoadedWorld)
    (a : MemoryArchive) : Prop extends r.Holds name w a where
  sound : w.territory.Sound
  now : had w.territory.atlas
  distinct : ∀ s s', had s → had s' → s.generation = s'.generation → s = s'
  newest : ∀ s, had s → s.generation ≤ w.territory.generation
  persisted_le : w.persisted ≤ w.territory.generation
  stored : 0 < w.persisted → ∃ s, had s ∧ s.generation = w.persisted ∧
    a.stored? name = some s.declarations

namespace Kept

variable {had : Atlas → Prop}

/-- Nothing has happened to the world or to what is stored for it. -/
theorem of_leaves (kept : Kept had r name w a) (leaves : Leaves name w.archive r r') :
    ∃ a', Kept had r' name w a' := by
  have stored := leaves.stored
  rw [kept.archive, Option.map_some] at stored
  obtain ⟨a', found, same⟩ := Option.map_eq_some_iff.mp stored
  exact ⟨a', { kept with
    world := leaves.world.trans kept.world
    archive := found
    stored := fun pos => same ▸ kept.stored pos }⟩

/-- The world has had the snapshot that it is at. -/
theorem again (kept : Kept had r name w a) :
    Kept (fun s => had s ∨ s = w.territory.atlas) r name w a := by
  have same : (fun s => had s ∨ s = w.territory.atlas) = had := by
    funext s
    exact propext ⟨fun h => h.elim id fun now => now ▸ kept.now, .inl⟩
  rwa [same]

/-- A change comes to a generation that the world has not had before, and leaves what is stored. -/
theorem advance (kept : Kept had r name w a) {t : Territory} (sound : t.Sound)
    (next : t.generation = w.territory.generation + 1) :
    Kept (fun s => had s ∨ s = t.atlas) (r.put name { w with territory := t }) name
      { w with territory := t } a where
  world := get?_put_self
  archive := kept.archive
  sound := sound
  now := .inr rfl
  distinct := by
    have newer : ∀ s, had s → s.generation < t.atlas.generation := by
      intro s hs
      have := kept.newest s hs
      unfold Territory.generation at next this
      omega
    rintro s s' (hs | rfl) (hs' | rfl) level
    · exact kept.distinct s s' hs hs' level
    · exact absurd level (newer s hs).ne
    · exact absurd level (newer s' hs').ne'
    · rfl
  newest := by
    rintro s (hs | rfl)
    · exact (kept.newest s hs).trans (next ▸ Nat.le_succ _)
    · exact le_rfl
  persisted_le := kept.persisted_le.trans (next ▸ Nat.le_succ _)
  stored pos := by
    obtain ⟨s, hs, stored⟩ := kept.stored pos
    exact ⟨s, .inl hs, stored⟩

/-- What is refused leaves the world as it is, and what is granted advances it. -/
theorem put {α : Type} (kept : Kept had r name w a) {answer : Territory × Except Refusal α}
    (advances : w.territory.Advances answer) : answer.1.policy = w.territory.policy ∧
      Kept (fun s => had s ∨ s = answer.1.atlas) (r.put name { w with territory := answer.1 }) name
        { w with territory := answer.1 } a := by
  cases outcome : answer.2 with
  | error e =>
    rw [advances.refused e outcome]
    exact ⟨rfl, { kept.again with world := get?_put_self, archive := kept.archive }⟩
  | ok x =>
    obtain ⟨sound, policy, next⟩ := advances.granted x outcome
    exact ⟨policy, kept.advance sound next⟩

/-- A save that succeeds catches up, and one that fails changes nothing. -/
theorem saveWorld (kept : Kept had r name w a) : ∃ w' a', w'.territory = w.territory ∧
    w'.archive = w.archive ∧ Kept had (r.saveWorld name w).1 name w' a' ∧
      ((r.saveWorld name w).2 = .ok () → w.territory.generation ≤ w'.persisted) := by
  by_cases caughtUp : w.territory.generation ≤ w.persisted
  · rw [saveWorld_of_not_newer caughtUp]
    exact ⟨w, a, rfl, rfl, kept, fun _ => caughtUp⟩
  · rw [saveWorld_of_newer kept.archive (Nat.not_le.mp caughtUp)]
    split
    · refine ⟨{ w with persisted := w.territory.generation },
        a.keep name w.territory.atlas.declarations, rfl, rfl, ?_, fun _ => le_rfl⟩
      exact { kept with
        world := Table.get?_insert_self
        archive := Table.get?_insert_self
        persisted_le := le_rfl
        stored := fun _ => ⟨_, kept.now, rfl, a.stored?_keep_self name _⟩ }
    · exact ⟨w, a, rfl, rfl, kept, nofun⟩

/-- What is not older than the generation remembered is stored. -/
theorem stored_of_le (kept : Kept had r name w a) (pos : 0 < w.territory.generation)
    (caughtUp : w.territory.generation ≤ w.persisted) :
    a.stored? name = some w.territory.atlas.declarations := by
  have level : w.persisted = w.territory.generation := Nat.le_antisymm kept.persisted_le caughtUp
  obtain ⟨s, had, generation, stored⟩ := kept.stored (level ▸ pos)
  obtain rfl := kept.distinct s _ had kept.now (generation.trans level)
  exact stored

/-! ### Events -/

theorem isAt {now : Atlas} (kept : Kept (fun s => had s ∨ s = now) r name w a)
    (same : w.territory.atlas = now) : Kept (fun s => had s ∨ r.IsAt name s) r name w a := by
  subst same
  simpa only [kept.isAt_iff] using kept

theorem still (kept : Kept had r name w a) (leaves : Leaves name w.archive r r') :
    ∃ w' a', w'.Succeeds w ∧ Kept (fun s => had s ∨ r'.IsAt name s) r' name w' a' := by
  obtain ⟨a', kept⟩ := kept.of_leaves leaves
  exact ⟨w, a', ⟨rfl, rfl⟩, kept.again.isAt rfl⟩

/-- A change may be saved after it is made. -/
theorem change {α : Type} (kept : Kept had r name w a)
    {f : Territory → Territory × Except Refusal α}
    (advances : w.territory.Advances (f w.territory)) : ∃ w' a', w'.Succeeds w ∧
      Kept (fun s => had s ∨ (r.change name f).1.IsAt name s) (r.change name f).1 name w' a' := by
  obtain ⟨policy, made⟩ := kept.put advances
  rcases change_cases (f := f) kept.world with unsaved | saved
  · rw [unsaved]
    refine ⟨_, a, ?_, made.isAt rfl⟩
    exact ⟨rfl, policy⟩
  · rw [saved]
    obtain ⟨w', a', territory, archive, kept, -⟩ := made.saveWorld
    exact ⟨w', a', ⟨archive, territory ▸ policy⟩, kept.isAt (territory ▸ rfl)⟩

/-- The step: whatever happens, if the world stays loaded and is stored by the realm alone. -/
theorem step [Platform] (kept : Kept had r name w a) {e : Event}
    (spares : e.Spares name w.archive) : ∃ w' a', w'.Succeeds w ∧
      Kept (fun s => had s ∨ (r.step e).IsAt name s) (r.step e) name w' a' := by
  unfold Realm.step
  cases e with
  | serve other order =>
    dsimp only
    rw [serve_eq]
    by_cases here : other = name
    · subst here
      exact kept.change (kept.sound.advances_apply order)
    · exact kept.still (.change here _)
  | edit other request =>
    dsimp only
    by_cases here : other = name
    · subst here
      obtain ⟨policy, made⟩ := kept.put (kept.sound.advances_serve request)
      rw [edit_of_loaded kept.world]
      refine ⟨_, a, ?_, made.isAt rfl⟩
      exact ⟨rfl, policy⟩
    · exact kept.still (.edit here _)
  | save other =>
    dsimp only
    by_cases here : other = name
    · subst here
      unfold Realm.save?
      rw [kept.world]
      obtain ⟨w', a', territory, archive, kept, -⟩ := kept.saveWorld
      refine ⟨w', a', ⟨archive, congrArg Territory.policy territory⟩, ?_⟩
      exact kept.again.isAt rfl
    · exact kept.still (.save? here)
  | load other archive policy => exact kept.still (.load spares archive policy)
  | unload other => exact kept.still (.unload spares)
  | setAvailable archive available => exact kept.still (.modifyArchive fun _ _ => rfl)
  | store archive other ds => exact kept.still (.store spares ds)

/-- What was saved without a fault is stored. -/
theorem saveWorld_upToDate (kept : Kept had r name w a) (pos : 0 < w.territory.generation)
    (saved : (r.saveWorld name w).2 = .ok ()) : (r.saveWorld name w).1.UpToDate name := by
  obtain ⟨w', a', territory, -, kept', caughtUp⟩ := kept.saveWorld
  rw [← territory] at pos caughtUp
  exact ⟨w', a', kept'.toHolds, kept'.stored_of_le pos (caughtUp saved)⟩

end Kept

/-! ## The run -/

theorem run_concat [Platform] (r : Realm MemoryArchive) (es : List Event) (e : Event) :
    r.run (es ++ [e]) = (r.run es).step e := List.foldl_concat ..

theorem cameTo_concat [Platform] {es : List Event} {e : Event} {s : Atlas} :
    r.CameTo name (es ++ [e]) s ↔ r.CameTo name es s ∨ (r.run (es ++ [e])).IsAt name s := by
  simp only [CameTo, List.prefix_concat_iff, or_and_right, exists_or, exists_eq_left, or_comm]

theorem cameTo_nil [Platform] {s : Atlas} : r.CameTo name [] s ↔ r.IsAt name s := by
  simp only [CameTo, List.prefix_nil, exists_eq_left]
  exact Iff.rfl

/-- The run, by induction on the events: what is known of the world and its archive after some of
them is so after one more. -/
theorem Kept.run [Platform] (kept : Kept (r.CameTo name []) r name w a) {es : List Event}
    (spares : ∀ e ∈ es, e.Spares name w.archive) : ∃ w' a', w'.Succeeds w ∧
      Kept (r.CameTo name es) (r.run es) name w' a' := by
  induction es using List.reverseRecOn with
  | nil => exact ⟨w, a, ⟨rfl, rfl⟩, kept⟩
  | append_singleton es e ih =>
    obtain ⟨w₁, a₁, ⟨archive, policy⟩, kept⟩ :=
      ih fun e he => spares e (List.mem_append_left _ he)
    have last := spares e (List.mem_append_right _ (List.mem_singleton_self e))
    obtain ⟨w₂, a₂, ⟨archive', policy'⟩, kept⟩ := kept.step (archive ▸ last)
    refine ⟨w₂, a₂, ⟨archive'.trans archive, policy'.trans policy⟩, ?_⟩
    simp only [← run_concat, ← cameTo_concat] at kept
    exact kept

/-- A world that is loaded has had one snapshot, and nothing of it counts as saved. -/
theorem Kept.load [Platform] {next : Realm MemoryArchive} {policy : Policy}
    (loaded : r.load name archive policy = .ok next) : ∃ w a, w.archive = archive ∧
      w.territory.policy = policy ∧ Kept (next.CameTo name []) next name w a := by
  obtain ⟨a, ds, t, known, -, made, rfl⟩ := load_eq_ok loaded
  obtain ⟨-, policy_eq, -, from'⟩ := (Territory.ends_ofDeclarations policy r.catalogue ds).ok t made
  have holds : (r.put name ⟨t, archive, t.generation⟩).Holds name ⟨t, archive, t.generation⟩ a :=
    ⟨get?_put_self, known⟩
  have fresh : t.generation = 0 := from'.generation_eq
  refine ⟨_, a, rfl, policy_eq, { holds with
    sound := Territory.sound_ofDeclarations made
    now := cameTo_nil.mpr (holds.isAt_iff.mpr rfl)
    distinct := ?_, newest := ?_, persisted_le := le_rfl, stored := ?_ }⟩
  · intro s s' hs hs' _
    rw [holds.isAt_iff.mp (cameTo_nil.mp hs), holds.isAt_iff.mp (cameTo_nil.mp hs')]
  · intro s hs
    rw [holds.isAt_iff.mp (cameTo_nil.mp hs)]
    exact le_rfl
  · intro pos
    exact absurd fresh pos.ne'

/-! ## What is saved -/

/-- A save to an archive that is available does not fail. -/
theorem Holds.saveWorld_eq_ok (holds : r.Holds name w a) (available : a.available = true) :
    (r.saveWorld name w).2 = .ok () := by
  by_cases caughtUp : w.territory.generation ≤ w.persisted
  · rw [saveWorld_of_not_newer caughtUp]
  · rw [saveWorld_of_newer holds.archive (Nat.not_le.mp caughtUp), if_pos available]

/-- A change that is granted without a warning, where the policy saves changes, is stored. -/
theorem Kept.change_upToDate {had : Atlas → Prop} {α : Type} (kept : Kept had r name w a)
    {f : Territory → Territory × Except Refusal α}
    (advances : w.territory.Advances (f w.territory)) (persist : w.territory.policy.persist = true)
    {x : α} (granted : (r.change name f).2 = .ok ⟨x, none⟩) : (r.change name f).1.UpToDate name := by
  cases outcome : (f w.territory).2 with
  | error e =>
    rw [change_of_refused kept.world outcome] at granted
    cases granted
  | ok y =>
    obtain ⟨-, policy, next⟩ := advances.granted y outcome
    obtain ⟨-, made⟩ := kept.put advances
    rw [change_of_granted kept.world outcome] at granted ⊢
    dsimp only at granted ⊢
    rw [policy, if_pos persist] at granted ⊢
    have saved := warning?_eq_none_iff.mp (congrArg Applied.warning (Except.ok.inj granted))
    exact made.saveWorld_upToDate (next ▸ Nat.succ_pos _) saved

/-! ## What is promised -/

/-- What is promised of a world that has had some snapshots, and of what is stored for it. -/
structure Abreast [Platform] (had : Atlas → Prop) (r : Realm MemoryArchive) (name : WorldName)
    (w : LoadedWorld) (a : MemoryArchive) : Prop extends r.Holds name w a where
  now : had w.territory.atlas
  persisted_le : w.persisted ≤ w.territory.generation
  /-- What is stored is the snapshot of the generation remembered, of which there is no other. -/
  stored : 0 < w.persisted → (∃ s, had s ∧ s.generation = w.persisted) ∧
    ∀ s, had s → s.generation = w.persisted → a.stored? name = some s.declarations
  saved : 0 < w.territory.generation → (r.save? name).2 = some (.ok ()) →
    (r.save? name).1.UpToDate name
  served : ∀ order x, w.territory.policy.persist = true →
    (r.serve name order).2 = .ok ⟨x, none⟩ → (r.serve name order).1.UpToDate name
  /-- A save that fails changes nothing. -/
  unsaved : ∀ fault, (r.save? name).2 = some (.error fault) → (r.save? name).1 = r
  /-- An order that cannot be saved is carried out all the same, and changes nothing else. -/
  warned : ∀ order x fault, (r.serve name order).2 = .ok ⟨x, some fault⟩ →
    (r.serve name order).1 = r.put name { w with territory := (order.apply w.territory).1 }
  /-- Saving fails only while the archive is not available. -/
  available : a.available = true → (r.save? name).2 = some (.ok ())

theorem Kept.promises [Platform] {had : Atlas → Prop} (kept : Kept had r name w a) :
    Abreast had r name w a := by
  have save := save?_of_loaded kept.world
  refine { kept.toHolds with
    now := kept.now, persisted_le := kept.persisted_le, stored := fun pos => ?stored
    saved := fun pos done => ?saved, served := fun order x persist granted => ?served
    unsaved := fun fault failed => ?unsaved, warned := fun order x fault warned => ?warned
    available := fun available => ?available }
  case stored =>
    obtain ⟨s, hs, generation, stored⟩ := kept.stored pos
    refine ⟨⟨s, hs, generation⟩, fun s' hs' generation' => ?_⟩
    rw [kept.distinct s' s hs' hs (generation'.trans generation.symm)]
    exact stored
  case saved =>
    rw [save] at done ⊢
    exact kept.saveWorld_upToDate pos (Option.some.inj done)
  case served =>
    rw [serve_eq] at granted ⊢
    exact kept.change_upToDate (kept.sound.advances_apply order) persist granted
  case unsaved =>
    rw [save] at failed ⊢
    exact saveWorld_of_error (Option.some.inj failed)
  case warned =>
    rw [serve_eq] at warned ⊢
    exact change_of_warned kept.world warned
  case available =>
    rw [save]
    exact congrArg some (kept.saveWorld_eq_ok available)

/-- From when a world is loaded, and for as long as it stays loaded and only the realm stores anything
for it, what is stored does not fall behind. -/
theorem abreast [Platform] {next : Realm MemoryArchive} {policy : Policy}
    (loaded : r.load name archive policy = .ok next) {es : List Event}
    (spares : ∀ e ∈ es, e.Spares name archive) : ∃ w a, w.archive = archive ∧
      w.territory.policy = policy ∧ Abreast (next.CameTo name es) (next.run es) name w a := by
  obtain ⟨w, a, rfl, rfl, start⟩ := Kept.load loaded
  obtain ⟨w', a', ⟨archive, policy⟩, kept⟩ := start.run spares
  exact ⟨w', a', archive, policy, kept.promises⟩

/-- A region is created and stored, and another one is added past the realm while the archive is not
available. When the archive is back, one save stores both. -/
theorem abreast_of_unavailable : letI := Platform.reference
    ∃ r next : Realm MemoryArchive, ∃ es : List Event,
    r.load ⟨"overworld"⟩ "disk" {} = .ok next ∧
    (∀ e ∈ es, e.Spares ⟨"overworld"⟩ "disk") ∧
    ((next.run es).worlds.get? ⟨"overworld"⟩).map
      (fun w => (w.persisted, w.territory.generation)) = some (1, 2) ∧
    (((next.run es).archives.get? "disk").bind (·.stored? ⟨"overworld"⟩)).map (·.map (·.id)) =
      some ["spawn"] ∧
    ((((next.run es).save? ⟨"overworld"⟩).1.archives.get? "disk").bind
      (·.stored? ⟨"overworld"⟩)).map (·.map (·.id)) = some ["plot", "spawn"] ∧
    ∃ w a, w.archive = "disk" ∧ w.territory.policy = {} ∧
      Abreast (next.CameTo ⟨"overworld"⟩ es) (next.run es) ⟨"overworld"⟩ w a := by
  let := Platform.reference
  let plot : Region :=
    { id := ⟨"plot", by decide +kernel⟩
      shape := .cuboid ⟨⟨0, 0, 0⟩, ⟨2, 2, 2⟩⟩ }
  let es : List Event := [
    .serve ⟨"overworld"⟩ (.create { id := "spawn", shape := .cuboid ⟨⟨0, 0, 0⟩, ⟨2, 2, 2⟩⟩ }),
    .setAvailable "disk" false, .edit ⟨"overworld"⟩ (.add plot), .save ⟨"overworld"⟩,
    .setAvailable "disk" true]
  have loaded : load { catalogue := ∅, archives := .insert ∅ "disk" ({} : MemoryArchive) }
    ⟨"overworld"⟩ "disk" {} = .ok _ := rfl
  have spares : ∀ e ∈ es, e.Spares ⟨"overworld"⟩ "disk" := by simp [es, Event.Spares]
  exact ⟨_, _, es, loaded, spares, by decide +kernel, by decide +kernel, by decide +kernel,
    abreast loaded spares⟩

end Realm

end Enclave
