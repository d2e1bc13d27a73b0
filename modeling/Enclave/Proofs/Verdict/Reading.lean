import Enclave.Proofs.Verdict.Congruence

/-!
# What is read of a table and of an actor

Of the table a verdict reads the lineages of the candidates, and of the actor how it stands to them
(`Region.SameReading`). A setting is found further up the lineage, but for whom it is meant is told
by the standing to the candidate; so it makes no difference whether an actor is listed by the region
whose setting it is, and actors who stand alike to every candidate are given one verdict and are
counted alike (`Bylaws.impartial`).

Nothing is assumed of the table: chains of parents may run in circles or end nowhere.
-/

namespace Enclave

variable {b : Bylaws} {t t' : RegionTable} {terms : Terms} {actor actor' : Option Actor}
  {a a' : Actor} {r : Region} {candidates : List Region} {flag : FlagName}

namespace Region

/-- The tables and the actors show the same of all that is read of them at a candidate. -/
structure SameReading (t t' : RegionTable) (actor actor' : Option Actor) (r : Region) : Prop where
  lineage : r.lineage t = r.lineage t'
  standing : actor.map (r.standing t) = actor'.map (r.standing t')

namespace SameReading

variable (same : SameReading t t' actor actor' r)
include same

theorem ancestors_eq : r.ancestors t = r.ancestors t' := by
  rw [ancestors, ancestors, same.lineage]

theorem inherited_eq (terms : Terms) :
    r.inherited t terms actor = r.inherited t' terms actor' := by
  rw [inherited, inherited, same.lineage, same.standing]

theorem grant_eq (terms : Terms) : r.grant t terms actor = r.grant t' terms actor' := by
  rw [grant, grant, same.inherited_eq]

theorem passesThrough_eq : r.passesThrough t actor = r.passesThrough t' actor' := by
  rw [passesThrough, passesThrough, same.grant_eq]

end SameReading

/-- One lineage makes one standing. -/
theorem sameReading_of_lineage (same : r.lineage t = r.lineage t') (actor : Option Actor) :
    SameReading t t' actor actor r := by
  have standing : r.standing t = r.standing t' := funext fun a => by
    rw [Region.standing, Region.standing, same]
  exact ⟨same, by rw [standing]⟩

end Region

open Region (SameReading)

namespace Gathering

theorem visit_eq_of_reading (same : SameReading t t' actor actor' r) (g : Gathering) :
    g.visit t terms actor r = g.visit t' terms actor' r := by
  have take : g.take t r = g.take t' r := funext fun v => by
    rw [Gathering.take, Gathering.take, same.ancestors_eq]
  rw [visit, visit, same.grant_eq, same.passesThrough_eq, take]

end Gathering

namespace Attendance

theorem visit_eq_of_reading (same : SameReading t t' (some a) (some a') r) (found : Attendance) :
    found.visit t a r = found.visit t' a' r := by
  have standing : r.standing t a = r.standing t' a' := Option.some.inj same.standing
  rw [visit, visit, same.passesThrough_eq, standing, same.ancestors_eq]

end Attendance

theorem attend_eq_of_reading
    (same : ∀ r ∈ candidates, SameReading t t' (some a) (some a') r) :
    attend t a candidates = attend t' a' candidates :=
  attend_eq_of_forall₂ (List.forall₂_same.mpr fun r hr =>
    ⟨rfl, Attendance.visit_eq_of_reading (same r hr)⟩)

namespace Bylaws

theorem resolve_eq_of_reading (same : ∀ r ∈ candidates, SameReading t t' actor actor' r)
    (known : actor = none ↔ actor' = none) :
    b.resolve t candidates flag actor = b.resolve t' candidates flag actor' := by
  have gathered : gather t (b.terms flag) actor candidates =
      gather t' (b.terms flag) actor' candidates := by
    rw [gather, gather, Gathering.visitAll_eq_of_forall₂ (List.forall₂_same.mpr fun r hr =>
      ⟨rfl, Gathering.visit_eq_of_reading (same r hr)⟩)]
  refine resolve_eq_of_gather_eq gathered fun _ => ?_
  cases actor with
  | none => rw [known.mp rfl, Option.map_none, Option.map_none]
  | some a =>
    obtain ⟨a', rfl⟩ := Option.ne_none_iff_exists'.mp (known.not.mp (Option.some_ne_none a))
    rw [Option.map_some, Option.map_some, attend_eq_of_reading same]

/-- Actors who stand alike to every candidate are given one verdict, whatever the flag, and belong to
the place alike, with the same regions counted. -/
theorem impartial (b : Bylaws) (t : RegionTable) {candidates : List Region} {a a' : Actor}
    (alike : ∀ r ∈ candidates, r.standing t a = r.standing t a') :
    (∀ flag, b.resolve t candidates flag (some a) = b.resolve t candidates flag (some a')) ∧
      attend t a candidates = attend t a' candidates := by
  have same : ∀ r ∈ candidates, SameReading t t (some a) (some a') r := fun r hr =>
    ⟨rfl, congrArg some (alike r hr)⟩
  exact ⟨fun flag => resolve_eq_of_reading same (iff_of_false nofun nofun),
    attend_eq_of_reading same⟩

/-- A guild is a member of a town, and a player of a shop in it. To the shop both are members, and
both are allowed what the town keeps for its own members, though the town does not list the player. -/
theorem impartial_of_shop : ∃ t : Territory, t.Reachable ∧
    (t.atlas.scanAt ⟨1, 1, 1⟩).map (fun r => (r.id.text, r.standing t.atlas.regions ⟨none, ["guild"]⟩,
      r.standing t.atlas.regions (.ofPlayer 7))) = [("shop", .member, .member)] ∧
    (t.atlas.regions.values.map fun r => (r.id.text, r.standing t.atlas.regions (.ofPlayer 7))) =
      [("shop", .member), ("town", .nonMember)] ∧
    (t.bylaws.resolve t.atlas.regions (t.atlas.scanAt ⟨1, 1, 1⟩) ⟨"build"⟩
      (some (.ofPlayer 7))).isAllowed = true ∧
    (∀ flag, t.bylaws.resolve t.atlas.regions (t.atlas.scanAt ⟨1, 1, 1⟩) flag
        (some ⟨none, ["guild"]⟩) =
      t.bylaws.resolve t.atlas.regions (t.atlas.scanAt ⟨1, 1, 1⟩) flag (some (.ofPlayer 7))) ∧
    attend t.atlas.regions ⟨none, ["guild"]⟩ (t.atlas.scanAt ⟨1, 1, 1⟩) =
      attend t.atlas.regions (.ofPlayer 7) (t.atlas.scanAt ⟨1, 1, 1⟩) := by
  let := Platform.reference
  have reachable := (Territory.reachable_blank ∅).add
    { id := ⟨"town", by decide +kernel⟩
      shape := .cuboid ⟨⟨4, 4, 4⟩, ⟨8, 8, 8⟩⟩
      settings := .ofPairs [(⟨"build"⟩,
        { value := some (.state .allow), audience := some .members })]
      members := .of [] ["guild"] }
  have reachable := reachable.add
    { id := ⟨"shop", by decide +kernel⟩
      shape := .cuboid ⟨⟨0, 0, 0⟩, ⟨2, 2, 2⟩⟩
      members := .of [7] []
      parent := some ⟨"town", by decide +kernel⟩ }
  exact ⟨_, reachable, by decide +kernel, by decide +kernel, by decide +kernel,
    impartial _ _ (by decide +kernel)⟩

end Bylaws

end Enclave
