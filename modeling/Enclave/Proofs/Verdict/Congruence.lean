import Enclave.Proofs.Region.Likeness
import Enclave.Proofs.Verdict.Attendance
import Enclave.Proofs.Verdict.Resolution

/-!
# A verdict depends only on what it reads

Of a candidate a verdict reads its id, its level, the ids of its ancestors, the value it grants, how
actors stand to it and, where membership decides the flag, whether it passes through. Candidates
that show the same of all this (`Region.SameView`), perhaps over two tables, come to the same verdict
(`Bylaws.resolve_congr`). Candidates whose lineages are alike do (`Region.sameView_of_alike`).
-/

namespace Enclave

open Region (Alike)

variable {b : Bylaws} {t t' : RegionTable} {terms : Terms} {actor : Option Actor} {r r' : Region}
  {candidates candidates' : List Region} {flag : FlagName}

namespace Region

/-! ## Values of alike lineages -/

theorem map_inherited_eq (likes : List.Forall₂ (Alike terms.flag) (r.lineage t) (r'.lineage t')) :
    (r.inherited t terms actor).map (·.1) = (r'.inherited t' terms actor).map (·.1) := by
  have standing : r.standing t = r'.standing t' := funext (standing_eq likes)
  rw [inherited, inherited, standing]
  generalize r.lineage t = l, r'.lineage t' = l' at likes
  induction likes with
  | nil => rfl
  | @cons s s' _ _ alike _ ih =>
    rw [List.findSome?_cons, List.findSome?_cons, alike.setting]
    cases ((s'.setting? terms.flag).bind (·.valueFor terms.audience (actor.map (r'.standing t')))) with
    | none => exact ih
    | some v => cases accepts : terms.accepts v <;> simp [accepts, ih]

theorem value?_eq (likes : List.Forall₂ (Alike terms.flag) (r.lineage t) (r'.lineage t'))
    (alike : Alike terms.flag r r') : r.value? t terms actor = r'.value? t' terms actor := by
  have own : r.ownValue? terms = r'.ownValue? terms := by rw [ownValue?, ownValue?, alike.setting]
  rw [value?, value?, grant, grant, alike.isGlobal, alike.isUnclaimed_eq, own]
  split
  · dsimp only
    split <;> rfl
  · split
    · split
      · split <;> rfl
      · rfl
    · exact map_inherited_eq likes

theorem passesThrough_eq (r : Region) : r.passesThrough t actor =
    ((r.value? t .passthrough actor).bind Value.permission? == some .allow) := by
  rw [passesThrough, value?]
  cases r.grant t .passthrough actor <;> rfl

/-! ## What is read of a candidate -/

/-- The candidates show the same of all that a verdict reads. -/
structure SameView (t t' : RegionTable) (terms : Terms) (actor : Option Actor) (r r' : Region) :
    Prop where
  id : r.id = r'.id
  level : r.level = r'.level
  ancestors : (r.ancestors t).map (·.id) = (r'.ancestors t').map (·.id)
  value : r.value? t terms actor = r'.value? t' terms actor
  standing : ∀ a, r.standing t a = r'.standing t' a
  passes : terms.membershipDecides = true → r.passesThrough t actor = r'.passesThrough t' actor

/-- What is alike at and above two candidates is all that is read of them. -/
theorem sameView_of_alike (likes : List.Forall₂ (Alike terms.flag) (r.lineage t) (r'.lineage t'))
    (alike : Alike terms.flag r r')
    (passthrough : terms.membershipDecides = true →
      List.Forall₂ (Alike Terms.passthrough.flag) (r.lineage t) (r'.lineage t') ∧
        Alike Terms.passthrough.flag r r') : SameView t t' terms actor r r' where
  id := alike.id
  level := alike.level_eq
  ancestors := map_id_ancestors_eq likes
  value := value?_eq likes alike
  standing := standing_eq likes
  passes decides := by
    obtain ⟨likes, alike⟩ := passthrough decides
    rw [passesThrough_eq, passesThrough_eq, value?_eq likes alike]

end Region

open Region (SameView)

/-! ## Walks over candidates of one view -/

namespace Gathering

theorem take_congr (view : SameView t t' terms actor r r') (g : Gathering) (v : Value) :
    g.take t r v = g.take t' r' v := by
  rw [take, take, view.id, view.level, view.ancestors]

/-- What passing a region does is told by the value it grants and whether it passes through. -/
theorem visit_eq (g : Gathering) (r : Region) : g.visit t terms actor r =
    let g := (r.value? t terms actor).elim g (g.take t r)
    if terms.isFirstMatch && terms.membershipDecides && g.cutoff != some r.level &&
        !r.passesThrough t actor then { g with cutoff := some r.level }
    else g := by
  rw [visit, Region.value?]
  cases r.grant t terms actor <;> rfl

theorem visit_congr (view : SameView t t' terms actor r r') (g : Gathering) :
    g.visit t terms actor r = g.visit t' terms actor r' := by
  have take : g.take t r = g.take t' r' := funext (take_congr view g)
  rw [visit_eq, visit_eq, view.value, view.level, take]
  cases decides : terms.membershipDecides with
  | true => rw [view.passes decides]
  | false => simp only [Bool.and_false, Bool.false_and]

/-- Where each region is passed alike, the walks come to the same. -/
theorem visitAll_eq_of_forall₂ {actor' : Option Actor}
    (alike : List.Forall₂ (fun r r' => r.level = r'.level ∧
      ∀ g : Gathering, g.visit t terms actor r = g.visit t' terms actor' r')
      candidates candidates') :
    ∀ g : Gathering, g.visitAll t terms actor candidates =
      g.visitAll t' terms actor' candidates' := by
  induction alike with
  | nil => exact fun _ => rfl
  | cons same _ ih =>
    intro g
    rw [visitAll, visitAll, isClosedTo, isClosedTo, same.1, same.2, ih]

end Gathering

theorem gather_congr (views : List.Forall₂ (SameView t t' terms actor) candidates candidates') :
    gather t terms actor candidates = gather t' terms actor candidates' := by
  rw [gather, gather, Gathering.visitAll_eq_of_forall₂
    (views.imp fun _ _ view => ⟨view.level, Gathering.visit_congr view⟩)]

namespace Attendance

variable {a : Actor}

theorem visit_congr (view : SameView t t' terms (some a) r r')
    (decides : terms.membershipDecides = true) (found : Attendance) :
    found.visit t a r = found.visit t' a r' := by
  rw [visit, visit, view.passes decides, view.id, view.level, view.ancestors, view.standing]

/-- Where each region is passed alike, the walks come to the same. -/
theorem visitAll_eq_of_forall₂ {a' : Actor}
    (alike : List.Forall₂ (fun r r' => r.level = r'.level ∧
      ∀ found : Attendance, found.visit t a r = found.visit t' a' r') candidates candidates') :
    ∀ found : Attendance, found.visitAll t a candidates = found.visitAll t' a' candidates' := by
  induction alike with
  | nil => exact fun _ => rfl
  | cons same _ ih =>
    intro found
    rw [visitAll, visitAll, same.1, same.2, ih]

end Attendance

theorem attend_eq_of_forall₂ {a a' : Actor}
    (alike : List.Forall₂ (fun r r' => r.level = r'.level ∧
      ∀ found : Attendance, found.visit t a r = found.visit t' a' r') candidates candidates') :
    attend t a candidates = attend t' a' candidates' := by
  rw [attend, attend, Attendance.visitAll_eq_of_forall₂ alike]

namespace Bylaws

/-- A verdict is told by what is gathered and, where membership decides, by who belongs. -/
theorem resolve_eq_of_gather_eq {actor' : Option Actor}
    (gathered : gather t (b.terms flag) actor candidates =
      gather t' (b.terms flag) actor' candidates')
    (attended : (b.terms flag).membershipDecides = true →
      actor.map (attend t · candidates) = actor'.map (attend t' · candidates')) :
    b.resolve t candidates flag actor = b.resolve t' candidates' flag actor' := by
  have regions : b.byRegions? t candidates flag actor =
      b.byRegions? t' candidates' flag actor' := by
    rw [byRegions?, byRegions?, gathered]
  have membership : b.byMembership? t candidates flag actor =
      b.byMembership? t' candidates' flag actor' := by
    rw [byMembership?, byMembership?]
    split
    next decides =>
      have attended := attended decides
      cases actor with
      | none =>
        cases actor' with
        | none => rw [Option.bind_none, Option.bind_none]
        | some a' => exact absurd attended.symm (Option.some_ne_none _)
      | some a =>
        cases actor' with
        | none => exact absurd attended (Option.some_ne_none _)
        | some a' =>
          rw [Option.map_some, Option.map_some] at attended
          rw [Option.bind_some, Option.bind_some, Option.some.inj attended]
    next => rfl
  rw [resolve, resolve, regions, membership]

/-- Candidates of one view come to one verdict. -/
theorem resolve_congr
    (views : List.Forall₂ (SameView t t' (b.terms flag) actor) candidates candidates') :
    b.resolve t candidates flag actor = b.resolve t' candidates' flag actor := by
  refine resolve_eq_of_gather_eq (gather_congr views) fun decides => ?_
  cases actor with
  | none => rw [Option.map_none, Option.map_none]
  | some a =>
    rw [Option.map_some, Option.map_some, attend_eq_of_forall₂
      (views.imp fun _ _ view => ⟨view.level, Attendance.visit_congr view decides⟩)]

end Bylaws

end Enclave
