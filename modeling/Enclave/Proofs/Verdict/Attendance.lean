import Enclave.Proofs.Region.Ancestry
import Enclave.Proofs.Verdict.Descent
import Enclave.Proofs.World.Queries
import Enclave.Verdict.Gathering

/-!
# Who belongs to a place

An actor belongs to a place if each candidate that counts is vouched for: it or one below it that
counts is a region to which the actor belongs (`Region.Vouched`). The walk looks at each region
once. One that nothing has vouched for stays pending until a region below it comes that does, and one
that has been vouched for before it comes never is (`Attended`). What is pending of the regions
passed so far is therefore what nothing among them vouches for, at every step (`Attended.count`).

A region passes through or counts whatever the others are, so that the walk passes the candidates of
the highest level with one that counts, and stops (`attended_visitAll`). The order of the candidates
of one level makes no difference.
-/

namespace Enclave

open Region (Lineup Descending IsTop downTo)

variable {t : RegionTable} {actor : Actor} {r s : Region} {candidates seen : List Region}
  {a : Attendance}

/-! ## Regions that count -/

namespace Region

/-- Whether the region counts at its level: it does not pass through. -/
def stands (t : RegionTable) (actor : Actor) (r : Region) : Bool :=
  !r.passesThrough t (some actor)

/-- The candidates that count: they do not pass through, and are of the highest level that has one
that does not. -/
def counting (t : RegionTable) (actor : Actor) (candidates : List Region) : List Region :=
  candidates.filter fun r =>
    r.stands t actor && candidates.all fun s => !(s.stands t actor && r.level.isBelow s.level)

theorem counting_of_isTop {top : Level} (isTop : IsTop (stands t actor) candidates top) :
    counting t actor candidates = (downTo top candidates).filter (stands t actor) := by
  rw [counting, downTo, List.filter_filter]
  refine List.filter_congr fun r _ => congrArg (r.stands t actor && ·) ?_
  rw [Bool.eq_iff_iff, List.all_eq_true]
  simp only [Bool.not_eq_true', Bool.and_eq_false_iff]
  constructor
  · intro highest
    obtain ⟨q, hq, standing, rfl⟩ := isTop.attained
    exact (highest q hq).resolve_left (by simp [standing])
  · intro notBelow s hs
    refine or_iff_not_imp_left.mpr fun standing => ?_
    have notAbove := isTop.highest s hs (Bool.eq_true_of_not_eq_false standing)
    refine Bool.eq_false_of_not_eq_true fun below => ?_
    exact Bool.false_ne_true
      (notAbove.symm.trans (Level.isBelow_of_isBelow_of_not below notBelow))

theorem counting_of_forall_not (none : ∀ r ∈ candidates, r.stands t actor = false) :
    counting t actor candidates = [] :=
  List.filter_eq_nil_iff.mpr fun r hr => by simp [none r hr]

/-- In whatever order candidates stand, the same of them count. -/
theorem counting_perm {others : List Region} (perm : others.Perm candidates) :
    (counting t actor others).Perm (counting t actor candidates) := by
  have same : (fun r : Region => r.stands t actor &&
      others.all fun s => !(s.stands t actor && r.level.isBelow s.level)) = fun r =>
      r.stands t actor && candidates.all fun s => !(s.stands t actor && r.level.isBelow s.level) :=
    funext fun r => congrArg (r.stands t actor && ·) (perm.all_eq)
  rw [counting, counting, same]
  exact perm.filter _

/-- The actor is an owner or a member of the region or of one above it. -/
def HasMember (t : RegionTable) (actor : Actor) (r : Region) : Prop :=
  ∃ s, r.AtOrBelow t s ∧ (s.owners.lists actor = true ∨ s.members.lists actor = true)

/-- A region of a list to which the actor belongs is the region itself or lies below it. -/
def Vouched (t : RegionTable) (actor : Actor) (field : List Region) (r : Region) : Prop :=
  ∃ d ∈ field, d.HasMember t actor ∧ d.AtOrBelow t r

theorem vouched_concat_iff : Vouched t actor (seen ++ [r]) s ↔
    Vouched t actor seen s ∨ (r.HasMember t actor ∧ r.AtOrBelow t s) := by
  simp only [Vouched, List.mem_append, List.mem_singleton, or_and_right, exists_or, exists_eq_left]

/-- What vouches for a region vouches for all above it. -/
theorem Vouched.above (vouched : Vouched t actor seen r) (above : r.AtOrBelow t s) :
    Vouched t actor seen s := by
  obtain ⟨d, hd, member, below⟩ := vouched
  exact ⟨d, hd, member, below.trans above⟩

end Region

open Region (stands counting Vouched)

/-! ## Satisfying ancestors -/

namespace Attendance

@[simp] theorem cutoff_satisfy (a : Attendance) (id : RegionId) :
    (a.satisfy id).cutoff = a.cutoff := by
  rw [satisfy]
  split <;> rfl

@[simp] theorem counted_satisfy (a : Attendance) (id : RegionId) :
    (a.satisfy id).counted = a.counted := by
  rw [satisfy]
  split <;> rfl

/-- Satisfying regions sets no cut-off and counts none. -/
theorem foldl_satisfy_frame (ids : List RegionId) : ∀ a : Attendance,
    (ids.foldl satisfy a).cutoff = a.cutoff ∧ (ids.foldl satisfy a).counted = a.counted := by
  induction ids with
  | nil => exact fun _ => ⟨rfl, rfl⟩
  | cons id ids ih =>
    intro a
    rw [List.foldl_cons, (ih (a.satisfy id)).1, (ih (a.satisfy id)).2]
    exact ⟨cutoff_satisfy a id, counted_satisfy a id⟩

/-- A satisfied region is not pending any more, or will not be when it comes. -/
theorem givesWay : GivesWay pending (fun id => id) satisfied satisfy where
  held_eq a id nodup := by
    rw [List.map_id'] at nodup
    rw [satisfy]
    split
    next pending =>
      refine (nodup.erase_eq_filter id).trans (List.filter_congr fun e _ => ?_)
      by_cases same : e = id <;> simp [same]
    next absent =>
      refine (List.filter_eq_self.mpr fun e he => decide_eq_true ?_).symm
      rintro rfl
      exact absent (List.contains_iff_mem.mpr he)
  mem_later_iff a id id' absent := by
    rw [List.map_id'] at absent
    rw [satisfy]
    split
    next pending =>
      have : id' ≠ id := by
        rintro rfl
        exact absent (List.contains_iff_mem.mp pending)
      simp [this]
    next => simp

end Attendance

/-! ## The walk -/

namespace Attendance

/-- Counts a region. -/
def enrol (a : Attendance) (r : Region) : Attendance :=
  { a with cutoff := some r.level, counted := a.counted ++ [r.id] }

@[simp] theorem pending_enrol (a : Attendance) (r : Region) : (a.enrol r).pending = a.pending := rfl

@[simp] theorem satisfied_enrol (a : Attendance) (r : Region) :
    (a.enrol r).satisfied = a.satisfied := rfl

/-- Passes one region that counts. -/
def count (t : RegionTable) (actor : Actor) (a : Attendance) (r : Region) : Attendance :=
  if a.satisfied.contains r.id then a.enrol r
  else if (r.standing t actor).belongs then ((r.ancestors t).map (·.id)).foldl satisfy (a.enrol r)
  else { a.enrol r with pending := a.pending ++ [r.id] }

theorem visit_eq (a : Attendance) (r : Region) :
    a.visit t actor r = if r.stands t actor then a.count t actor r else a := by
  rw [visit, stands]
  cases r.passesThrough t (some actor) <;> rfl

theorem cutoff_count (a : Attendance) (r : Region) : (a.count t actor r).cutoff = some r.level := by
  rw [count]
  split
  · rfl
  · split
    · exact (foldl_satisfy_frame _ _).1
    · rfl

end Attendance

/-- What the walk has found of the regions that it has passed and that count. -/
structure Attended (t : RegionTable) (actor : Actor) (seen : List Region) (a : Attendance) : Prop where
  counted : a.counted = seen.map (·.id)
  nodup : a.pending.Nodup
  pending : ∀ id, id ∈ a.pending ↔ ∃ r ∈ seen, r.id = id ∧ ¬ Vouched t actor seen r
  satisfied : ∀ id, id ∉ seen.map (·.id) → (id ∈ a.satisfied ↔
    ∃ d ∈ seen, d.HasMember t actor ∧ ∃ s, d.Below t s ∧ s.id = id)

namespace Attended

theorem empty : Attended t actor [] {} where
  counted := rfl
  nodup := .nil
  pending := by simp
  satisfied := by simp

theorem fresh_pending (lineup : Lineup t (seen ++ [r])) (h : Attended t actor seen a) :
    r.id ∉ a.pending := by
  intro pending
  obtain ⟨s, hs, same, -⟩ := (h.pending r.id).mp pending
  exact lineup.fresh (List.mem_map.mpr ⟨s, hs, same⟩)

/-- A region is vouched for before it comes exactly if it is satisfied then. -/
theorem satisfied_iff (lineup : Lineup t (seen ++ [r])) (h : Attended t actor seen a) :
    r.id ∈ a.satisfied ↔ Vouched t actor seen r := by
  have above : ∀ d ∈ seen, (∃ s, d.Below t s ∧ s.id = r.id) ↔ d.AtOrBelow t r := by
    intro d hd
    rw [Region.atOrBelow_iff]
    constructor
    · rintro ⟨s, below, same⟩
      have found := below.get?_eq_some lineup.keyed
      obtain rfl := lineup.agrees r (by simp) s (same ▸ found)
      exact .inr below
    · rintro (rfl | below)
      · exact absurd (List.mem_map.mpr ⟨r, hd, rfl⟩) lineup.fresh
      · exact ⟨r, below, rfl⟩
  rw [h.satisfied r.id lineup.fresh]
  constructor
  · rintro ⟨d, hd, member, h⟩
    exact ⟨d, hd, member, (above d hd).mp h⟩
  · rintro ⟨d, hd, member, h⟩
    exact ⟨d, hd, member, (above d hd).mpr h⟩

/-- A region that is vouched for when it comes vouches for nothing new. -/
theorem pass (lineup : Lineup t (seen ++ [r])) (h : Attended t actor seen a)
    (satisfied : r.id ∈ a.satisfied) : Attended t actor (seen ++ [r]) (a.enrol r) := by
  have vouched := (h.satisfied_iff lineup).mp satisfied
  have same : ∀ s, Vouched t actor (seen ++ [r]) s ↔ Vouched t actor seen s := fun s =>
    Region.vouched_concat_iff.trans (or_iff_left_of_imp fun above => vouched.above above.2)
  refine ⟨by simp [Attendance.enrol, h.counted], h.nodup, fun id => ?_, fun id fresh => ?_⟩
  · rw [Attendance.pending_enrol, h.pending]
    simp only [List.mem_append, List.mem_singleton, or_and_right, exists_or, exists_eq_left, same,
      vouched, not_true, and_false, or_false]
  · rw [Attendance.satisfied_enrol,
      h.satisfied id fun h => fresh (List.map_append ▸ List.mem_append_left _ h)]
    obtain ⟨d, hd, member, above⟩ := vouched
    simp only [List.mem_append, List.mem_singleton, or_and_right, exists_or, exists_eq_left]
    refine (or_iff_left_of_imp ?_).symm
    rintro ⟨-, s, below, same⟩
    exact ⟨d, hd, member, s, Relation.TransGen.trans_right above below, same⟩

/-- A region that the actor belongs to vouches for its ancestors. -/
theorem vouch (lineup : Lineup t (seen ++ [r])) (h : Attended t actor seen a)
    (member : r.HasMember t actor) : Attended t actor (seen ++ [r])
      (((r.ancestors t).map (·.id)).foldl Attendance.satisfy (a.enrol r)) := by
  have hr : r ∈ seen ++ [r] := by simp
  have nodup : ((a.enrol r).pending.map fun id => id).Nodup := (List.map_id' _).symm ▸ h.nodup
  have pending := Attendance.givesWay.held_foldl ((r.ancestors t).map (·.id)) (a.enrol r) nodup
  refine ⟨?_, pending ▸ h.nodup.filter _, fun id => ?_, fun id fresh => ?_⟩
  · rw [(Attendance.foldl_satisfy_frame _ _).2, Attendance.enrol]
    simp [h.counted]
  · rw [pending, List.mem_filter, Attendance.pending_enrol, h.pending, decide_eq_true_iff]
    constructor
    · rintro ⟨⟨s, hs, rfl, notVouched⟩, notAbove⟩
      refine ⟨s, List.mem_append_left _ hs, rfl, fun vouched => ?_⟩
      rcases Region.vouched_concat_iff.mp vouched with vouched | ⟨-, above⟩
      · exact notVouched vouched
      · rcases Region.atOrBelow_iff.mp above with rfl | below
        · exact lineup.fresh (List.mem_map.mpr ⟨s, hs, rfl⟩)
        · exact notAbove
            ((lineup.mem_map_id_ancestors hr (List.mem_append_left _ hs)).mpr below)
    · rintro ⟨s, hs, rfl, notVouched⟩
      rw [Region.vouched_concat_iff, not_or, not_and] at notVouched
      obtain ⟨notVouched, notAbove⟩ := notVouched
      have notAbove := notAbove member
      rcases List.mem_append.mp hs with hs' | hs'
      · refine ⟨⟨s, hs', rfl, notVouched⟩, fun below => notAbove ?_⟩
        exact ((lineup.mem_map_id_ancestors hr hs).mp below).to_reflTransGen
      · exact absurd (List.mem_singleton.mp hs' ▸ .refl) notAbove
  · rw [List.map_append] at fresh
    have notSeen : id ∉ seen.map (·.id) := fun h => fresh (List.mem_append_left _ h)
    have absent : id ∉ a.pending := fun h' => by
      obtain ⟨s, hs, same, -⟩ := (h.pending id).mp h'
      exact notSeen (List.mem_map.mpr ⟨s, hs, same⟩)
    have ancestors : id ∈ (r.ancestors t).map (·.id) ↔ ∃ s, r.Below t s ∧ s.id = id := by
      simp only [List.mem_map,
        Region.mem_ancestors_iff lineup.keyed lineup.acyclic (lineup.agrees r hr)]
    rw [Attendance.givesWay.mem_later_foldl _ (a.enrol r) nodup ((List.map_id' _).symm ▸ absent),
      Attendance.satisfied_enrol, h.satisfied id notSeen, ancestors]
    simp only [List.mem_append, List.mem_singleton, or_and_right, exists_or, exists_eq_left, member,
      true_and]

/-- A region that nothing vouches for is pending. -/
theorem wait (lineup : Lineup t (seen ++ [r])) (h : Attended t actor seen a)
    (notSatisfied : r.id ∉ a.satisfied) (outsider : ¬ r.HasMember t actor) :
    Attended t actor (seen ++ [r]) { a.enrol r with pending := a.pending ++ [r.id] } := by
  have notVouched : ¬ Vouched t actor seen r := fun vouched =>
    notSatisfied ((h.satisfied_iff lineup).mpr vouched)
  have same : ∀ s, Vouched t actor (seen ++ [r]) s ↔ Vouched t actor seen s := fun s =>
    Region.vouched_concat_iff.trans (or_iff_left fun above => outsider above.1)
  refine ⟨by simp [Attendance.enrol, h.counted], ?_, fun id => ?_, fun id fresh => ?_⟩
  · show (a.pending ++ [r.id]).Nodup
    exact List.concat_eq_append ▸ h.nodup.concat (h.fresh_pending lineup)
  · have flip : id = r.id ↔ r.id = id := eq_comm
    simp only [List.mem_append, List.mem_singleton, h.pending, or_and_right, exists_or,
      exists_eq_left, same, notVouched, not_false_eq_true, and_true, flip]
  · rw [Attendance.satisfied_enrol,
      h.satisfied id fun h => fresh (List.map_append ▸ List.mem_append_left _ h)]
    simp only [List.mem_append, List.mem_singleton, or_and_right, exists_or, exists_eq_left,
      outsider, false_and, or_false]

/-- At every step what nothing vouches for is pending. -/
theorem count (lineup : Lineup t (seen ++ [r])) (h : Attended t actor seen a) :
    Attended t actor (seen ++ [r]) (a.count t actor r) := by
  have belongs := Region.belongs_standing_iff lineup.keyed lineup.acyclic
    (lineup.agrees r (by simp)) actor
  rw [Attendance.count]
  split
  next satisfied => exact h.pass lineup (List.contains_iff_mem.mp satisfied)
  next notSatisfied =>
    have notSatisfied := fun h => notSatisfied (List.contains_iff_mem.mpr h)
    split
    next member => exact h.vouch lineup (belongs.mp member)
    next outsider => exact h.wait lineup notSatisfied fun h => outsider (belongs.mpr h)

end Attended

theorem attended_foldl_count (actor : Actor) (lineup : Lineup t candidates) :
    Attended t actor candidates (candidates.foldl (Attendance.count t actor) {}) := by
  induction candidates using List.reverseRecOn with
  | nil => exact .empty
  | append_singleton seen r ih =>
    rw [List.foldl_append]
    exact (ih (lineup.sublist (List.sublist_append_left _ _))).count lineup

theorem Attendance.visitAll_eq_descend : ∀ a : Attendance, a.visitAll t actor candidates =
    descend (·.cutoff) (Attendance.visit t actor) a candidates := by
  induction candidates with
  | nil => exact fun _ => rfl
  | cons r rest ih =>
    intro a
    rw [Attendance.visitAll, descend, ih]

/-- A region closes the levels below it if it counts. -/
theorem Attendance.cutsOff_visit : CutsOff (·.cutoff) (Attendance.visit t actor) (stands t actor) {}
    candidates := by
  intro seen r rest _ _
  rw [Attendance.visit_eq]
  split
  · exact Attendance.cutoff_count _ r
  · rfl

theorem Attendance.foldl_visit : ∀ a : Attendance, candidates.foldl (Attendance.visit t actor) a =
    (candidates.filter (stands t actor)).foldl (Attendance.count t actor) a := by
  intro a
  rw [List.foldl_filter]
  simp only [← Attendance.visit_eq]

/-- The regions that count are passed, and no others matter. -/
theorem attended_visitAll (actor : Actor) (lineup : Lineup t candidates)
    (descending : Descending candidates) : Attended t actor (counting t actor candidates)
      (Attendance.visitAll t actor {} candidates) := by
  have passed : Attendance.visitAll t actor {} candidates =
      (counting t actor candidates).foldl (Attendance.count t actor) {} := by
    rw [Attendance.visitAll_eq_descend]
    by_cases standing : ∃ r ∈ candidates, r.stands t actor = true
    · obtain ⟨top, isTop⟩ := Region.exists_isTop descending standing
      rw [descend_of_isTop Attendance.cutsOff_visit descending rfl isTop, Attendance.foldl_visit,
        Region.counting_of_isTop isTop]
    · have none : ∀ r ∈ candidates, r.stands t actor = false := fun r hr =>
        Bool.eq_false_of_not_eq_true fun h => standing ⟨r, hr, h⟩
      rw [descend_of_forall_not Attendance.cutsOff_visit descending rfl none,
        Attendance.foldl_visit, Region.counting_of_forall_not none,
        List.filter_eq_nil_iff.mpr (by simpa using none)]
  exact passed ▸ attended_foldl_count actor (lineup.sublist List.filter_sublist)

/-! ## What it comes to -/

/-- How it is judged whether an actor belongs to a place. -/
structure Judges (t : RegionTable) (actor : Actor) (candidates : List Region) : Prop where
  ids : (attend t actor candidates).2 = (counting t actor candidates).map (·.id)
  unclaimed : (attend t actor candidates).1 = .unclaimed ↔ counting t actor candidates = []
  insider : (attend t actor candidates).1 = .insider ↔ counting t actor candidates ≠ [] ∧
    ∀ r ∈ counting t actor candidates, Vouched t actor (counting t actor candidates) r
  outsider : (attend t actor candidates).1 = .outsider ↔ counting t actor candidates ≠ [] ∧
    ¬ ∀ r ∈ counting t actor candidates, Vouched t actor (counting t actor candidates) r

namespace Attendance

theorem belonging_eq_unclaimed_iff : a.belonging = .unclaimed ↔ a.counted = [] := by
  rw [belonging]
  split_ifs <;> simp_all

theorem belonging_eq_insider_iff : a.belonging = .insider ↔ a.counted ≠ [] ∧ a.pending = [] := by
  rw [belonging]
  split_ifs <;> simp_all

theorem belonging_eq_outsider_iff : a.belonging = .outsider ↔ a.counted ≠ [] ∧ a.pending ≠ [] := by
  rw [belonging]
  split_ifs <;> simp_all

end Attendance

theorem judges (actor : Actor) (lineup : Lineup t candidates) (descending : Descending candidates) :
    Judges t actor candidates := by
  have attended := attended_visitAll actor lineup descending
  have nobody : (Attendance.visitAll t actor {} candidates).counted = [] ↔
      counting t actor candidates = [] := by
    rw [attended.counted, List.map_eq_nil_iff]
  have settled : (Attendance.visitAll t actor {} candidates).pending = [] ↔
      ∀ r ∈ counting t actor candidates, Vouched t actor (counting t actor candidates) r := by
    rw [List.eq_nil_iff_forall_not_mem]
    simp only [attended.pending, not_exists, not_and, not_not]
    exact ⟨fun h r hr => h r.id r hr rfl, fun h id r hr _ => h r hr⟩
  exact {
    ids := attended.counted
    unclaimed := Attendance.belonging_eq_unclaimed_iff.trans nobody
    insider := Attendance.belonging_eq_insider_iff.trans (and_congr nobody.not settled)
    outsider := Attendance.belonging_eq_outsider_iff.trans (and_congr nobody.not settled.not) }

/-- Whether an actor belongs to a place is told by the candidates that count, and it makes no
difference in what order those of one level are met. -/
theorem attend_judges (actor : Actor) (lineup : Lineup t candidates)
    (descending : Descending candidates) : Judges t actor candidates ∧
      ∀ others, others.Perm candidates → Descending others →
        (attend t actor others).1 = (attend t actor candidates).1 := by
  have here := judges actor lineup descending
  refine ⟨here, fun others perm descending' => ?_⟩
  have there := judges actor (lineup.perm perm) descending'
  have perm : (counting t actor others).Perm (counting t actor candidates) :=
    Region.counting_perm perm
  have nobody : counting t actor others = [] ↔ counting t actor candidates = [] :=
    ⟨fun h => (h ▸ perm).nil_eq.symm, fun h => (h ▸ perm).eq_nil⟩
  have vouched : (∀ r ∈ counting t actor others, Vouched t actor (counting t actor others) r) ↔
      ∀ r ∈ counting t actor candidates, Vouched t actor (counting t actor candidates) r := by
    simp only [Vouched, perm.mem_iff]
  cases outcome : (attend t actor others).1 with
  | unclaimed => exact (here.unclaimed.mpr (nobody.mp (there.unclaimed.mp outcome))).symm
  | insider =>
    have := there.insider.mp outcome
    rw [vouched, ne_eq, nobody] at this
    exact (here.insider.mpr this).symm
  | outsider =>
    have := there.outsider.mp outcome
    rw [vouched, ne_eq, nobody] at this
    exact (here.outsider.mpr this).symm

/-- A member of a stall on a market, under an arcade that passes through: belonging to the stall is
enough, though the market comes first. -/
theorem attend_judges_of_stall : ∃ t : Territory,
    (t.atlas.scanAt ⟨1, 1, 1⟩).map (fun r => (r.id.text, r.priority)) =
      [("arcade", 2), ("market", 1), ("stall", 1)] ∧
    (counting t.atlas.regions (.ofPlayer 7) (t.atlas.scanAt ⟨1, 1, 1⟩)).map (·.id.text) =
      ["market", "stall"] ∧
    (attend t.atlas.regions (.ofPlayer 7) (t.atlas.scanAt ⟨1, 1, 1⟩)).1 = .insider ∧
    Lineup t.atlas.regions (t.atlas.scanAt ⟨1, 1, 1⟩) ∧ Descending (t.atlas.scanAt ⟨1, 1, 1⟩) ∧
    Judges t.atlas.regions (.ofPlayer 7) (t.atlas.scanAt ⟨1, 1, 1⟩) := by
  let := Platform.reference
  have reachable := (Territory.reachable_blank ∅).add
    { id := ⟨"market", by decide +kernel⟩
      shape := .cuboid ⟨⟨0, 0, 0⟩, ⟨4, 4, 4⟩⟩
      priority := 1 }
  have reachable := reachable.add
    { id := ⟨"stall", by decide +kernel⟩
      shape := .cuboid ⟨⟨0, 0, 0⟩, ⟨2, 2, 2⟩⟩
      priority := 1
      members := .of [7] []
      parent := some ⟨"market", by decide +kernel⟩ }
  have reachable := reachable.add
    { id := ⟨"arcade", by decide +kernel⟩
      shape := .cuboid ⟨⟨0, 0, 0⟩, ⟨2, 2, 2⟩⟩
      priority := 2
      settings := .ofPairs [(⟨Catalogue.passthroughText⟩, { value := some (.state .allow) })] }
  have lineup := reachable.consistent.lineup_scanAt ⟨1, 1, 1⟩
  exact ⟨_, by decide +kernel, by decide +kernel, by decide +kernel, lineup, by decide +kernel,
    (attend_judges (.ofPlayer 7) lineup (by decide +kernel)).1⟩

end Enclave
