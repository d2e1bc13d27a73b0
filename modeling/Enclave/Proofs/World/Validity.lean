import Enclave.Proofs.World.RoundTrip

/-!
# The regions of a territory are valid

A territory is assembled by requests that bring no regions but those that the operations of regions
make. Every region that it ever holds is valid (`Territory.Assembled.region_valid`): its priority
lies within the bounds of the policy, the values that it gives to known flags have the kinds of the
flags, its shape and its box are sound, no setting is empty, and it is not its own parent.

What the checks of a territory see to is `Region.Vetted`. That no setting is empty and that no
region is its own parent is seen to by regions themselves, so an edit may be anything that makes a
region (`Region.made_iff`).
-/

namespace Enclave

variable {p : Policy} {c : Catalogue} {t : Territory}

/-! ## What regions see to themselves -/

namespace Region

variable {r s : Region}

theorem parent_ne_of_withParent {parent : Option RegionId} (h : r.withParent parent = .ok s) :
    s.parent ≠ some s.id := by
  obtain ⟨other, rfl⟩ := withParent_eq_ok h
  exact other

/-- No operation of regions makes a region its own parent. -/
theorem Made.parent_ne (made : r.Made) : r.parent ≠ some r.id := by
  induction made with
  | everywhere => exact nofun
  | make h =>
    obtain ⟨-, rfl⟩ := sound_of_make h
    exact nofun
  | ofDeclaration h =>
    obtain ⟨-, _, _, h⟩ := withParent_of_ofDeclaration h
    exact parent_ne_of_withParent h
  | withShape _ h ih =>
    obtain ⟨⟨⟩, -, h⟩ := bind_eq_ok_iff.mp h
    obtain rfl := pure_eq_ok_iff.mp h
    exact ih
  | withParent _ h _ => exact parent_ne_of_withParent h
  | withPriority _ _ ih | withRosters _ _ _ ih => exact ih
  | putSetting _ _ _ ih | clearSetting _ _ ih => exact ih

/-- A proper region that is not its own parent is read as it was written down. -/
theorem ofDeclaration_declaration (proper : r.Proper) (parent_ne : r.parent ≠ some r.id) :
    ofDeclaration r.declaration = .ok r := by
  have read : ∀ id : RegionId, readId id.text = .ok id := fun id => by
    rw [readId, RegionId.parse_text]
  have sound : checkShape r.shape = .ok () := by rw [checkShape, proper.sound]
  have settings : Settings.ofPairs r.settings.entries = r.settings :=
    Settings.ofPairs_entries proper.full
  obtain ⟨id, shape, priority, _, owners, members, parent⟩ := r
  cases parent with
  | none => simp only [ofDeclaration, declaration, make, read, sound, settings, Option.map]; rfl
  | some above =>
    have other : above ≠ id := fun same => parent_ne (congrArg some same)
    simp only [ofDeclaration, declaration, make, read, sound, settings, Option.map]
    exact if_neg other

/-- The regions that the operations of regions make are the proper ones that are not their own
parents. -/
theorem made_iff : r.Made ↔ r.Proper ∧ r.parent ≠ some r.id :=
  ⟨fun made => ⟨made.proper, made.parent_ne⟩, fun ⟨proper, parent_ne⟩ =>
    .ofDeclaration (ofDeclaration_declaration proper parent_ne)⟩

/-! ## Valid regions -/

/-- What may be relied on of a region that is held under a policy and a catalogue. -/
structure Valid (p : Policy) (c : Catalogue) (r : Region) : Prop where
  least : p.minPriority ≤ r.priority
  greatest : r.priority ≤ p.maxPriority
  /-- The value that is meant for the usual audience has the kind of the flag, if it is known. -/
  value : ∀ flag rule setting v, c.get? flag = some rule → r.setting? flag = some setting →
    setting.value = some v → v.kind = rule.kind
  /-- So have the values that override it. -/
  override : ∀ flag rule setting audience v, c.get? flag = some rule →
    r.setting? flag = some setting → setting.overrides.get? audience = some v → v.kind = rule.kind
  shape : r.isGlobal = false → r.shape.fault? = none
  bounds : r.isGlobal = false → ∃ b, r.bounds? = some b ∧ b.isValid = true
  given : ∀ flag setting, r.setting? flag = some setting → setting.isEmpty = false
  parent_ne : r.parent ≠ some r.id

theorem Vetted.valid (vetted : r.Vetted p c) (parent_ne : r.parent ≠ some r.id) : r.Valid p c where
  least := (Bool.and_eq_true_iff.mp vetted.priority).1 |> of_decide_eq_true
  greatest := (Bool.and_eq_true_iff.mp vetted.priority).2 |> of_decide_eq_true
  value flag rule setting v known set given :=
    vetted.settings flag setting set rule known v
      (List.mem_append_left _ (Option.mem_toList.mpr given))
  override flag rule setting audience v known set given :=
    vetted.settings flag setting set rule known v
      (List.mem_append_right _ (Table.mem_values_iff.mpr ⟨audience, given⟩))
  shape _ := vetted.sound
  bounds bounded := by
    cases boxed : r.bounds? with
    | none =>
      exact absurd ((Shape.bounds?_eq_none_iff.mp boxed).symm.trans bounded) Bool.false_ne_true.symm
    | some b => exact ⟨b, rfl, Shape.isValid_bounds? vetted.sound boxed⟩
  given := vetted.full
  parent_ne := parent_ne

end Region

/-! ## Assembled territories -/

namespace Territory

/-- Territories that can be reached by requests that bring no regions but made ones, on any
platforms. -/
inductive Assembled : Territory → Prop
  | make {p : Policy} {c : Catalogue} {t : Territory} : make p c = .ok t → Assembled t
  | ofDeclarations [Platform] {p : Policy} {c : Catalogue} {ds : List Declaration} {t : Territory} :
    ofDeclarations p c ds = .ok t → Assembled t
  | serve [Platform] {t : Territory} : Assembled t → (request : Request) →
    (∀ s, request.Brings t.atlas.regions s → s.Made) → Assembled (t.serve request).1

namespace Assembled

theorem reachable (h : t.Assembled) : t.Reachable := by
  induction h with
  | make h => exact .make h
  | ofDeclarations h => exact .ofDeclarations h
  | serve _ request _ ih => exact ih.serve request

theorem vetted (h : t.Assembled) : AllVetted t.policy t.catalogue t.atlas.regions := by
  induction h with
  | make h => exact allVetted_make h
  | ofDeclarations h => exact allVetted_ofDeclarations h
  | serve h request made ih =>
    exact h.reachable.allVetted_serve ih fun s brings => (made s brings).proper

theorem parent_ne (h : t.Assembled) {id : RegionId} {r : Region}
    (found : t.atlas.get? id = some r) : r.parent ≠ some r.id := by
  have consistent := h.reachable.consistent
  obtain rfl := consistent.keyed id r found
  exact fun own => consistent.forest.acyclic r.id (.single ⟨r, found, own⟩)

/-- The regions that are held are made again by the operations of regions, so that what an edit
built of such operations makes of them is made. -/
theorem made (h : t.Assembled) {id : RegionId} {r : Region} (found : t.atlas.get? id = some r) :
    r.Made :=
  Region.made_iff.mpr ⟨(h.vetted id r found).toProper, h.parent_ne found⟩

theorem add [Platform] (h : t.Assembled) {r : Region} (made : r.Made) : (t.add r).1.Assembled :=
  h.serve (.add r) fun
    | _, .add _ => made

/-- Edits built of the operations of regions may be asked for. -/
theorem update (h : t.Assembled) (id : RegionId) {edit : Region → Region}
    (makes : ∀ r : Region, r.Made → (edit r).Made) : (t.update id edit).1.Assembled :=
  -- An edit does not touch the index, and any platform will do.
  let := Platform.reference
  h.serve (.update id edit) fun
    | _, .update _ found => makes _ (h.made found)

/-- Every region that an assembled territory holds is valid: no operation, no edit and no loading
lets one in that is not. -/
theorem region_valid (h : t.Assembled) :
    ∀ id r, t.atlas.get? id = some r → r.Valid t.policy t.catalogue :=
  fun id r found => (h.vetted id r found).valid (h.parent_ne found)

/-- A region in the region of the whole world, of which one edit changed the priority and set a
flag. -/
theorem region_valid_of_edited_spawn : ∃ (t : Territory) (r : Region),
    t.atlas.get? r.id = some r ∧ r.parent = some .global ∧
    r.settings.entries.map (·.1.text) = ["pvp"] ∧ r.priority = 5 ∧ t.policy.maxPriority = 10 ∧
    r.Valid t.policy t.catalogue := by
  let := Platform.reference
  let pvp : FlagRule := { name := ⟨"pvp"⟩, kind := .state }
  let c : Catalogue := .insert ∅ pvp.name pvp
  let blank : Territory := ⟨{ maxPriority := 10 }, c, .blank (.empty {})⟩
  have start : Territory.make { maxPriority := 10 } c = .ok blank := rfl
  let spawn : Region :=
    { id := ⟨"spawn", by decide +kernel⟩
      shape := .cuboid ⟨⟨0, 0, 0⟩, ⟨2, 2, 2⟩⟩
      parent := some .global }
  have made : spawn.Made := Region.made_iff.mpr
    ⟨⟨Option.isNone_iff_eq_none.mp (by decide +kernel), fun _ _ found => nomatch found⟩,
      by decide +kernel⟩
  let deny : Setting := { value := some (.state .deny) }
  let edit (r : Region) : Region := ({ r with priority := 5 }.putSetting pvp.name deny).2
  let t := (((blank.add .everywhere).1.add spawn).1.update spawn.id edit).1
  have assembled : t.Assembled :=
    (((Assembled.make start).add .everywhere).add made).update spawn.id fun r made =>
      (made.withPriority 5).putSetting pvp.name deny
  have held : (t.atlas.get? spawn.id).any (fun r => decide (r.id = spawn.id ∧
      r.parent = some .global ∧ r.settings.entries.map (·.1.text) = ["pvp"] ∧ r.priority = 5)) =
        true := by decide +kernel
  obtain ⟨r, found, told⟩ := (Option.any_eq_true _ _).mp held
  obtain ⟨id, parent, settings, priority⟩ := of_decide_eq_true told
  exact ⟨t, r, id ▸ found, parent, settings, priority, by decide +kernel,
    assembled.region_valid spawn.id r found⟩

end Assembled

end Territory

end Enclave
