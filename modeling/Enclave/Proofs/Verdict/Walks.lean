import Enclave.Proofs.Region.Walk
import Enclave.Proofs.Verdict.Reading

/-!
# Every verdict is reached

Whatever a verdict asks of parents it asks in a loop over a walk: how an actor stands to a region
(`Region.judge`), what a region's lineage grants (`Region.offer`), and which ancestors give way or
are satisfied. Such a walk ends on every table, so each of these loops ends, and it comes to what the
functions say (`Region.loops_standing`, `Region.loops_inherited`, `Region.loops_ancestors`). All
else is done once for each candidate; of the table nothing but the candidates' lineages is read.

So nothing needs to be known of the chains of parents for a verdict to be reached (`Bylaws.halts`).
-/

namespace Enclave

variable {t t' : RegionTable} {a : Actor} {r : Region} {candidates : List Region}

namespace Region

/-! ## How an actor stands -/

/-- What a region on the walk makes of an actor's standing: where the actor is an owner there is
nothing more to find. -/
def judge (a : Actor) (found : Standing) (s : Region) : Except Standing Standing :=
  if s.owners.lists a then .error .owner
  else .ok (if s.members.lists a then .member else found)

theorem foldlM_judge (a : Actor) (l : List Region) : ∀ found : Standing,
    l.foldlM (judge a) found =
      if l.any (·.owners.lists a) then .error .owner
      else .ok (if l.any (·.members.lists a) then .member else found) := by
  induction l with
  | nil => exact fun _ => rfl
  | cons s l ih =>
    intro found
    rw [List.foldlM_cons, judge, List.any_cons, List.any_cons]
    cases s.owners.lists a with
    | true => rfl
    | false =>
      refine (ih _).trans ?_
      cases s.members.lists a <;> simp

/-- The loop that looks for an actor along the lineage comes to the actor's standing. -/
theorem loops_standing (t : RegionTable) (a : Actor) (r : Region) :
    Loops t (judge a) [] (some r) .nonMember
      (if r.standing t a = .owner then .error .owner else .ok (r.standing t a)) := by
  have outcome : (r.lineage t).foldlM (judge a) .nonMember =
      if r.standing t a = .owner then .error .owner else .ok (r.standing t a) := by
    rw [foldlM_judge, standing_eq_ite]
    split
    · rfl
    · split <;> rfl
  rw [← outcome]
  exact (walks_lineage t r).loops _ _

/-! ## What is granted -/

/-- What a region on the walk gives to an actor of the given standing, if it counts, ends the
search. -/
def offer (terms : Terms) (standing : Option Standing) (_ : Unit) (s : Region) :
    Except (Value × Region) Unit :=
  match (s.setting? terms.flag).bind (·.valueFor terms.audience standing) with
  | some v => if terms.accepts v then .error (v, s) else .ok ()
  | none => .ok ()

/-- The loop that looks for a value along the lineage comes to the one that is inherited. -/
theorem loops_inherited (t : RegionTable) (terms : Terms) (actor : Option Actor) (r : Region) :
    Loops t (offer terms (actor.map (r.standing t))) [] (some r) ()
      ((r.inherited t terms actor).elim (.ok ()) .error) := by
  have outcome : (r.lineage t).foldlM (offer terms (actor.map (r.standing t))) () =
      (r.inherited t terms actor).elim (.ok ()) .error := by
    rw [inherited]
    induction r.lineage t with
    | nil => rfl
    | cons s l ih =>
      rw [List.foldlM_cons, offer, List.findSome?_cons]
      cases (s.setting? terms.flag).bind (·.valueFor terms.audience (actor.map (r.standing t))) with
      | none => exact ih
      | some v =>
        dsimp only
        cases terms.accepts v with
        | true => rfl
        | false => exact ih
  rw [← outcome]
  exact (walks_lineage t r).loops _ _

/-! ## What is told of ancestors -/

/-- A loop over the ancestors that is never left comes to what a fold over them does. -/
theorem loops_ancestors {σ : Type} (t : RegionTable) (r : Region) (f : σ → RegionId → σ) (s : σ) :
    Loops t (ε := Empty) (fun s p => .ok (f s p.id)) [r.id] (r.parentIn t) s
      (.ok (((r.ancestors t).map (·.id)).foldl f s)) := by
  have outcome : (r.ancestors t).foldlM (fun s p => (.ok (f s p.id) : Except Empty σ)) s =
      .ok (((r.ancestors t).map (·.id)).foldl f s) := by
    rw [List.foldl_map]
    exact List.foldlM_pure
  rw [← outcome]
  exact (walks_ancestors t r).loops _ _

end Region

open Region (Loops)

namespace Bylaws

/-- Every loop of a verdict ends, and comes to what the functions say; and the verdict reads nothing
else of the table. -/
structure Halts (b : Bylaws) (t : RegionTable) : Prop where
  walked : ∀ r : Region, r.Walked t
  standing : ∀ (a : Actor) (r : Region), Loops t (Region.judge a) [] (some r) .nonMember
    (if r.standing t a = .owner then .error .owner else .ok (r.standing t a))
  inherited : ∀ (terms : Terms) (actor : Option Actor) (r : Region),
    Loops t (Region.offer terms (actor.map (r.standing t))) [] (some r) ()
      ((r.inherited t terms actor).elim (.ok ()) .error)
  /-- Where a region's value is taken, its ancestors give way. -/
  givesWay : ∀ (r : Region) (g : Gathering),
    Loops t (ε := Empty) (fun g p => .ok (g.giveWay p.id)) [r.id] (r.parentIn t) g
      (.ok (((r.ancestors t).map (·.id)).foldl Gathering.giveWay g))
  /-- Where an actor belongs to a region, its ancestors are satisfied. -/
  satisfies : ∀ (r : Region) (found : Attendance),
    Loops t (ε := Empty) (fun found p => .ok (found.satisfy p.id)) [r.id] (r.parentIn t) found
      (.ok (((r.ancestors t).map (·.id)).foldl Attendance.satisfy found))
  attend : ∀ (t' : RegionTable) (a : Actor) (candidates : List Region),
    (∀ r ∈ candidates, r.lineage t = r.lineage t') →
      attend t a candidates = attend t' a candidates
  resolve : ∀ (t' : RegionTable) (candidates : List Region) (flag : FlagName)
    (actor : Option Actor), (∀ r ∈ candidates, r.lineage t = r.lineage t') →
      b.resolve t candidates flag actor = b.resolve t' candidates flag actor

/-- On every table, whatever its parents, every verdict is reached. -/
theorem halts (b : Bylaws) (t : RegionTable) : b.Halts t where
  walked := Region.walked t
  standing := Region.loops_standing t
  inherited := Region.loops_inherited t
  givesWay r := Region.loops_ancestors t r Gathering.giveWay
  satisfies r := Region.loops_ancestors t r Attendance.satisfy
  attend _ a _ same :=
    attend_eq_of_reading fun r hr => Region.sameReading_of_lineage (same r hr) (some a)
  resolve _ _ _ actor same :=
    resolve_eq_of_reading (fun r hr => Region.sameReading_of_lineage (same r hr) actor) Iff.rfl

end Bylaws

end Enclave
