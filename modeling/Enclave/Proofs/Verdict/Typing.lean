import Enclave.Proofs.Verdict.Sources

/-!
# The kinds of verdicts

A verdict on a flag of the catalogue has a value of the flag's kind, or none
(`Bylaws.resolve_typed`). No candidate need be checked for this: a region grants values of the kind
that counts only, whatever it sets, what is combined is one of them, membership gives permissions to
flags that are permissions, and the default was checked when the rule was registered.

The default that a world has in place of the catalogue's is the one value that nothing checks, not
when the world is made, not when a verdict is given. That it has the kind of the flag is a condition
on defaults (`Bylaws.DefaultSuits`), and without it a world answers whether players may fight with
an integer.

One value is granted whatever counts: a region of the whole world that nobody claims allows others
to decide. Where a catalogue has another kind for the flag `passthrough` and its first value stands,
so does this allow (`Verdict.Opens`).
-/

namespace Enclave

variable {b : Bylaws} {t : RegionTable} {actor : Option Actor} {candidates : List Region}
  {flag : FlagName} {rule : FlagRule}

/-- An allow for the flag `passthrough`, which has another kind: the first value that stands is that
of an open region. -/
structure Verdict.Opens (b : Bylaws) (candidates : List Region) (v : Verdict) : Prop where
  passthrough : (b.terms v.flag).isPassthrough = true
  first : (b.terms v.flag).isFirstMatch = true
  kind : (b.terms v.flag).kind ≠ some .state
  value : v.value = some (.state .allow)
  source : ∃ w ∈ candidates, w.IsOpen (b.terms v.flag) ∧ v.source = .regions [w.id]

namespace Bylaws

/-- The world's own default of a flag, if it has one, has the kind of the rule. -/
def DefaultSuits (b : Bylaws) (flag : FlagName) (rule : FlagRule) : Prop :=
  ∀ u, b.defaults.get? flag = some u → u.kind = rule.kind

/-- The value, if there is one, has the kind of the rule, or it is the allow of an open region. -/
def Typed (b : Bylaws) (candidates : List Region) (rule : FlagRule) (v : Verdict) : Prop :=
  ∀ u, v.value = some u → u.kind = rule.kind ∨ v.Opens b candidates

theorem terms_of_get? (known : b.catalogue.get? flag = some rule) : b.terms flag =
    ⟨flag, some rule.kind, rule.combinator, rule.audience, rule.membershipDecides⟩ := by
  rw [terms, known]
  rfl

/-- What regions give has the kind of the flag, since they grant nothing else; save the allow of an
open region, which is granted whatever counts. -/
theorem kind_eq_of_byRegions (coherent : rule.Coherent)
    (known : b.catalogue.get? flag = some rule) {u : Value} {ids : List RegionId}
    (given : b.byRegions? t candidates flag actor = some ⟨flag, some u, .regions ids⟩) :
    u.kind = rule.kind ∨ Verdict.Opens b candidates ⟨flag, some u, .regions ids⟩ := by
  obtain ⟨suits, r, hr, value, first⟩ := exists_value?_of_byRegions? given
  obtain ⟨s, granted⟩ := Region.value?_eq_some_iff.mp value
  have terms := terms_of_get? known
  rcases Region.grant_cases granted with ⟨global, passthrough, rfl⟩ | ⟨-, accepts⟩
  · by_cases state : rule.kind = .state
    · exact .inl state.symm
    · cases combining : (b.terms flag).combinator.isCombining with
      | true =>
        -- An allow combines only with permissions.
        rw [terms] at suits combining
        exact absurd ((Combinator.suits_state_iff combining coherent.suits).mp suits) state
      | false =>
        have isFirst : (b.terms flag).isFirstMatch = true := by
          rw [Terms.isFirstMatch, combining]
          rfl
        have other : (b.terms flag).kind ≠ some .state := by
          rw [terms]
          exact fun same => state (Option.some.inj same)
        obtain ⟨-, isOpen⟩ := Region.isOpen_of_grant global passthrough granted
        exact .inr ⟨passthrough, isFirst, other, rfl, r, hr, isOpen,
          congrArg Source.regions (first isFirst)⟩
  · rw [terms, Terms.accepts] at accepts
    exact .inl (by simpa using accepts)

/-- Whatever gives a verdict gives it a value of the kind of the flag. -/
theorem Gives.typed (coherent : rule.Coherent) (known : b.catalogue.get? flag = some rule)
    {v : Verdict} (gives : b.Gives t candidates flag actor v)
    (suits : v.source = .default → b.DefaultSuits flag rule) : b.Typed candidates rule v := by
  intro u value
  cases gives with
  | regions given =>
    cases value
    exact kind_eq_of_byRegions coherent known given
  | membership _ decides =>
    cases value
    rw [terms_of_get? known] at decides
    exact .inl (coherent.state decides).symm
  | default _ _ found =>
    cases value
    rcases default?_eq_some_iff.mp found with world | ⟨-, rule', known', default⟩
    · exact .inl (suits rfl u world)
    · obtain rfl := Option.some.inj (known.symm.trans known')
      exact .inl (coherent.default u default)
  | unset => cases value

/-- Every verdict on a flag of the catalogue, among whatever candidates and at every point of every
territory, has a value of the kind of the flag or none, save for the allow of an open region. Where
the verdict is a default, this takes a world's own default to be of that kind. -/
theorem resolve_typed (registered : b.catalogue.Registered)
    (known : b.catalogue.get? flag = some rule) :
    (∀ t candidates actor,
      ((b.resolve t candidates flag actor).source = .default → b.DefaultSuits flag rule) →
        b.Typed candidates rule (b.resolve t candidates flag actor)) ∧
      ∀ t : Territory, t.bylaws = b → ∀ p actor,
        ((t.resolve p flag actor).source = .default → b.DefaultSuits flag rule) →
          b.Typed (t.atlas.regionsAt p) rule (t.resolve p flag actor) := by
  have every (t : RegionTable) (candidates : List Region) (actor : Option Actor) :
      ((b.resolve t candidates flag actor).source = .default → b.DefaultSuits flag rule) →
        b.Typed candidates rule (b.resolve t candidates flag actor) :=
    (b.gives_resolve t candidates flag actor).typed (registered.coherent known) known
  refine ⟨every, ?_⟩
  rintro t rfl p actor
  exact every t.atlas.regions (t.atlas.regionsAt p) actor

/-- A cave that sets a text where an integer is wanted: what the valley around it sets is granted in
place of the text, and outside of both an integer that the world has as its own default. -/
theorem resolve_typed_of_cave : ∃ (b : Bylaws) (rule : FlagRule) (t : RegionTable) (cave : Region),
    b.catalogue.Registered ∧ b.catalogue.get? ⟨"heal-amount"⟩ = some rule ∧ rule.kind = .integer ∧
    b.DefaultSuits ⟨"heal-amount"⟩ rule ∧
    (cave.ownValue? (b.terms ⟨"heal-amount"⟩)).bind Value.text? = some "plenty" ∧
    (b.resolve t [cave] ⟨"heal-amount"⟩ none).value.bind Value.int? = some 4 ∧
    (b.resolve t [] ⟨"heal-amount"⟩ none).value.bind Value.int? = some 2 ∧
    (b.resolve t [] ⟨"heal-amount"⟩ none).source = .default ∧
    (∀ t candidates actor,
      b.Typed candidates rule (b.resolve t candidates ⟨"heal-amount"⟩ actor)) ∧
    ∀ t : Territory, t.bylaws = b → ∀ p actor,
      b.Typed (t.atlas.regionsAt p) rule (t.resolve p ⟨"heal-amount"⟩ actor) := by
  let rule : FlagRule := { name := ⟨"heal-amount"⟩, kind := .integer, combinator := .greatest }
  let valley : Region :=
    { id := ⟨"valley", by decide +kernel⟩
      shape := .cuboid ⟨⟨0, 0, 0⟩, ⟨8, 8, 8⟩⟩
      settings := .ofPairs [(rule.name, { value := some (.int 4) })] }
  let cave : Region :=
    { id := ⟨"cave", by decide +kernel⟩
      shape := .cuboid ⟨⟨0, 0, 0⟩, ⟨2, 2, 2⟩⟩
      settings := .ofPairs [(rule.name, { value := some (.text "plenty") })]
      parent := some valley.id }
  let b : Bylaws := ⟨.insert ∅ rule.name rule, .insert ∅ rule.name (.int 2)⟩
  have registered : b.catalogue.Registered := .insert .empty rfl rfl rfl
  have known : b.catalogue.get? ⟨"heal-amount"⟩ = some rule := Table.get?_insert_self
  have suits : b.DefaultSuits ⟨"heal-amount"⟩ rule := by
    intro u found
    cases Table.get?_insert_self.symm.trans found
    rfl
  have typed := resolve_typed registered known
  exact ⟨b, rule, .insert ∅ valley.id valley, cave, registered, known, rfl, suits,
    by decide +kernel, by decide +kernel, by decide +kernel, by decide +kernel,
    fun t candidates actor => typed.1 t candidates actor fun _ => suits,
    fun t own p actor => typed.2 t own p actor fun _ => suits⟩

/-- A world whose own default for a permission is the integer 3 answers 3 wherever no region sets
the permission. -/
theorem mistyped_of_world_default : ∃ t : Territory, t.Reachable ∧ t.catalogue.Registered ∧
    (t.catalogue.get? ⟨"pvp"⟩).map (·.kind) = some .state ∧
    (t.resolve ⟨1, 1, 1⟩ ⟨"pvp"⟩ none).value.map Value.kind = some .integer ∧
    (t.resolve ⟨1, 1, 1⟩ ⟨"pvp"⟩ none).value.bind Value.int? = some 3 ∧
    (t.resolve ⟨1, 1, 1⟩ ⟨"pvp"⟩ none).source = .default := by
  let := Platform.reference
  let pvp : FlagRule := { name := ⟨"pvp"⟩, kind := .state }
  let c : Catalogue := .insert ∅ pvp.name pvp
  have start : Territory.make { defaults := .ofList [(⟨"pvp"⟩, .int 3)] } c =
    .ok ⟨{ defaults := .ofList [(⟨"pvp"⟩, .int 3)] }, c, .blank (.empty {})⟩ := rfl
  exact ⟨_, .make start, .insert .empty rfl rfl rfl, by decide +kernel, by decide +kernel,
    by decide +kernel, by decide +kernel⟩

/-- In a catalogue that gives `passthrough` truth values, the allow of the region of the whole world
stands all the same. -/
theorem mistyped_of_everywhere_passthrough : ∃ t : Territory, t.Reachable ∧
    t.catalogue.Registered ∧
    (t.catalogue.get? ⟨Catalogue.passthroughText⟩).map (·.kind) = some .boolean ∧
    (t.resolve ⟨1, 1, 1⟩ ⟨Catalogue.passthroughText⟩ none).value.map Value.kind = some .state ∧
    (t.resolve ⟨1, 1, 1⟩ ⟨Catalogue.passthroughText⟩ none).source = .regions [.global] := by
  let := Platform.reference
  let passthrough : FlagRule := { name := ⟨Catalogue.passthroughText⟩, kind := .boolean }
  let c : Catalogue := .insert ∅ passthrough.name passthrough
  have registered : c.Registered := .insert .empty rfl rfl rfl
  have start : Territory.make {} c = .ok ⟨{}, c, .blank (.empty {})⟩ := rfl
  refine ⟨_, (Territory.Reachable.make start).add .everywhere, ?_, by decide +kernel,
    by decide +kernel, by decide +kernel⟩
  rw [Territory.catalogue_add]
  exact registered

end Bylaws

end Enclave
