import Enclave.Proofs.World.Territory
import Enclave.World.Realm

/-!
# Orders

An `Order` is what may be asked of a realm about one of its worlds, to be saved where the policy of
the world says so. Its effect on the territory is `Order.apply`, which is made as the next
generation or not at all (`Territory.Sound.advances_apply`), as every request to a territory is.

What a realm does about it is said once, of any change: a world that is not loaded refuses it, a
refused change is not saved, and a granted one is made first and saved afterwards
(`Realm.change_of_granted`). A fault of the archive is told and undoes nothing.
-/

namespace Enclave

variable {σ α : Type}

/-! ## Territories -/

namespace Territory

variable {t : Territory}

/-- An answer that makes a change as the next generation, or none at all. -/
structure Advances (t : Territory) (answer : Territory × Except Refusal α) : Prop where
  granted : ∀ x, answer.2 = .ok x → answer.1.Sound ∧ answer.1.policy = t.policy ∧
    answer.1.generation = t.generation + 1
  refused : ∀ e, answer.2 = .error e → answer.1 = t

/-- What an answer gives has no part in whether a change is made. -/
theorem Advances.map {β : Type} {answer : Territory × Except Refusal α} (h : t.Advances answer)
    (f : α → β) : t.Advances (answer.map id (·.map f)) := by
  obtain ⟨next, outcome⟩ := answer
  cases outcome with
  | ok x => exact ⟨fun _ _ => h.granted x rfl, nofun⟩
  | error e => exact ⟨nofun, fun _ _ => h.refused e rfl⟩

theorem Sound.advances_serve [Platform] (sound : t.Sound) (request : Request) :
    t.Advances (t.serve request) := by
  have answered := answered_serve sound.toConsistent sound.usable request
  refine ⟨fun x outcome => ⟨sound.serve request, ?_⟩, fun e outcome => (answered.refused e outcome).1⟩
  obtain ⟨a, next, grants⟩ := answered.granted x outcome
  rw [next]
  exact ⟨rfl, congrArg (· + 1) grants.generation_eq⟩

/-- Adds the declared region. Gives its id. -/
def create [Platform] (t : Territory) (d : Declaration) : Territory × Except Refusal RegionId :=
  match Region.ofDeclaration d with
  | .error refusal => (t, .error refusal)
  | .ok region => (t.add region).map id (·.map fun () => region.id)

theorem Sound.advances_create [Platform] (sound : t.Sound) (d : Declaration) :
    t.Advances (t.create d) := by
  unfold create
  cases Region.ofDeclaration d with
  | error refusal => exact ⟨nofun, fun _ _ => rfl⟩
  | ok region => exact (sound.advances_serve (.add region)).map fun () => region.id

end Territory

/-! ## Orders -/

/-- What may be asked of a realm about one of its worlds. -/
inductive Order where
  | create (d : Declaration)
  | remove (id : RegionId)
  | redefine (id : RegionId) (shape : Shape Float)
  | setParent (id : RegionId) (parent : Option RegionId)
  | setFlag (id : RegionId) (flag : FlagName) (setting : Setting)

namespace Order

/-- What an order gives. -/
def Result : Order → Type
  | create _ => RegionId
  | remove _ => Region
  | redefine .. | setParent .. => Unit
  | setFlag .. => Option Setting

/-- What an order makes of a territory. -/
def apply [Platform] (t : Territory) : (order : Order) → Territory × Except Refusal order.Result
  | create d => t.create d
  | remove id => t.remove id
  | redefine id shape => t.redefine id shape
  | setParent id parent => t.setParent id parent
  | setFlag id flag setting => t.setFlag id flag setting

end Order

theorem Territory.Sound.advances_apply [Platform] {t : Territory} (sound : t.Sound)
    (order : Order) : t.Advances (order.apply t) := by
  cases order with
  | create d => exact sound.advances_create d
  | remove id => exact sound.advances_serve (.remove id)
  | redefine id shape => exact sound.advances_serve (.redefine id shape)
  | setParent id parent => exact sound.advances_serve (.setParent id parent)
  | setFlag id flag setting => exact sound.advances_serve (.setFlag id flag setting)

/-! ## Realms -/

namespace Realm

variable {r : Realm σ} {name : WorldName} {w : LoadedWorld}
  {f : Territory → Territory × Except Refusal α}

/-- What a realm makes of an order about one of its worlds. -/
def serve [Platform] [Archive σ] (r : Realm σ) (name : WorldName) :
    (order : Order) → Realm σ × Except Refusal (Applied order.Result)
  | .create d => r.create name d
  | .remove id => r.remove name id
  | .redefine id shape => r.redefine name id shape
  | .setParent id parent => r.setParent name id parent
  | .setFlag id flag setting => r.setFlag name id flag setting

theorem serve_eq [Platform] [Archive σ] (r : Realm σ) (name : WorldName) (order : Order) :
    r.serve name order = r.change name fun t => order.apply t := by
  cases order <;> rfl

/-- The realm with one world as it is given. -/
def put (r : Realm σ) (name : WorldName) (w : LoadedWorld) : Realm σ :=
  { r with worlds := r.worlds.insert name w }

@[simp] theorem get?_put_self : (r.put name w).worlds.get? name = some w := Table.get?_insert_self

theorem get?_put_of_ne {other : WorldName} (ne : other ≠ name) :
    (r.put name w).worlds.get? other = r.worlds.get? other := Table.get?_insert_of_ne ne

theorem edit_of_loaded (loaded : r.worlds.get? name = some w) : r.edit name f =
    (r.put name { w with territory := (f w.territory).1 }, (f w.territory).2) := by
  rw [edit, world, loaded]
  rfl

theorem edit_of_absent (absent : r.worlds.get? name = none) :
    r.edit name f = (r, .error (.worldNotLoaded name)) := by
  rw [edit, world, absent]

/-! ### Changes that are saved -/

/-- Why a world could not be saved. -/
def warning? : Except ArchiveFault Unit → Option ArchiveFault
  | .ok () => none
  | .error fault => some fault

theorem warning?_eq_none_iff {saved : Except ArchiveFault Unit} :
    warning? saved = none ↔ saved = .ok () := by
  cases saved <;> simp [warning?]

theorem warning?_eq_some_iff {saved : Except ArchiveFault Unit} {fault : ArchiveFault} :
    warning? saved = some fault ↔ saved = .error fault := by
  cases saved <;> simp [warning?]

variable [Archive σ]

theorem change_of_absent (absent : r.worlds.get? name = none) :
    r.change name f = (r, .error (.worldNotLoaded name)) := by
  rw [change, edit_of_absent absent]

/-- What is refused is not saved. -/
theorem change_of_refused (loaded : r.worlds.get? name = some w) {e : Refusal}
    (refused : (f w.territory).2 = .error e) : r.change name f =
      (r.put name { w with territory := (f w.territory).1 }, .error e) := by
  rw [change, edit_of_loaded loaded, refused]

/-- A change that is granted is made first and saved afterwards, where the policy says so. -/
theorem change_of_granted (loaded : r.worlds.get? name = some w) {x : α}
    (granted : (f w.territory).2 = .ok x) : r.change name f =
      let made : LoadedWorld := { w with territory := (f w.territory).1 }
      if made.territory.policy.persist then
        ((r.put name made).saveWorld name made).map id fun saved => .ok ⟨x, warning? saved⟩
      else (r.put name made, .ok ⟨x, none⟩) := by
  rw [change, edit_of_loaded loaded, granted]
  dsimp only
  rw [get?_put_self]
  dsimp only
  split
  · rcases (r.put name _).saveWorld name _ with ⟨next, ⟨⟩ | fault⟩ <;> rfl
  · rfl

/-- A change puts the changed world in place, and may save it after that. -/
theorem change_cases (loaded : r.worlds.get? name = some w) :
    let made : LoadedWorld := { w with territory := (f w.territory).1 }
    (r.change name f).1 = r.put name made ∨
      (r.change name f).1 = ((r.put name made).saveWorld name made).1 := by
  cases outcome : (f w.territory).2 with
  | error e => exact .inl (congrArg Prod.fst (change_of_refused loaded outcome))
  | ok x =>
    rw [change_of_granted loaded outcome]
    dsimp only
    split
    · exact .inr rfl
    · exact .inl rfl

theorem save?_of_loaded (loaded : r.worlds.get? name = some w) :
    r.save? name = ((r.saveWorld name w).1, some (r.saveWorld name w).2) := by
  rw [save?, loaded]
  rfl

/-- A save that fails changes nothing. -/
theorem saveWorld_of_error {fault : ArchiveFault}
    (failed : (r.saveWorld name w).2 = .error fault) : (r.saveWorld name w).1 = r := by
  unfold saveWorld at failed ⊢
  split at failed
  · cases failed
  next newer =>
    rw [if_neg newer]
    dsimp only at failed ⊢
    split at failed
    · cases failed
    · rfl

/-- A change of which a fault of the archive is told stands all the same, and nothing is stored. -/
theorem change_of_warned {x : α} {fault : ArchiveFault} (loaded : r.worlds.get? name = some w)
    (warned : (r.change name f).2 = .ok ⟨x, some fault⟩) :
    (r.change name f).1 = r.put name { w with territory := (f w.territory).1 } := by
  cases outcome : (f w.territory).2 with
  | error e =>
    rw [change_of_refused loaded outcome] at warned
    cases warned
  | ok y =>
    rw [change_of_granted loaded outcome] at warned ⊢
    dsimp only at warned ⊢
    split at warned
    next persist =>
      rw [if_pos persist]
      have failed := congrArg Applied.warning (Except.ok.inj warned)
      exact saveWorld_of_error (warning?_eq_some_iff.mp failed)
    · cases warned

/-! ### Loading -/

/-- A world that is loaded replaces what was loaded of it, and counts as saved. -/
theorem load_eq_ok [Platform] {next : Realm σ} {archive : String} {policy : Policy}
    (loaded : r.load name archive policy = .ok next) : ∃ a ds t,
      r.archives.get? archive = some a ∧ Archive.load a name = .ok ds ∧
        Territory.ofDeclarations policy r.catalogue ds = .ok t ∧
          next = r.put name ⟨t, archive, t.generation⟩ := by
  obtain ⟨ds, stored, rest⟩ := bind_eq_ok_iff.mp loaded
  obtain ⟨t, made, rest⟩ := bind_eq_ok_iff.mp rest
  obtain ⟨a, known, read⟩ := bind_eq_ok_iff.mp (mapError_eq_ok_iff.mp stored)
  refine ⟨a, ds, t, ?_, read, mapError_eq_ok_iff.mp made, (pure_eq_ok_iff.mp rest).symm⟩
  unfold Realm.archive at known
  split at known
  next a found =>
    cases known
    exact found
  next => cases known

end Realm

end Enclave
