import Enclave.Proofs.Region.Ancestry
import Enclave.Proofs.Verdict.Descent
import Enclave.Verdict.Gathering

/-!
# What is gathered

The regions whose values are gathered are those that grant a value and have none below them that
does (`Region.IsUpheld`). The walk does not know them in advance: it drops a value when it comes to
a region below, and ignores a region if it has come to one below before. What it has gathered of the
regions passed so far are nonetheless their upheld ones, at every step (`Gathered.visit`), so that
it does not matter whether a region comes before its ancestors or after them.

Where values combine, every candidate is passed (`gather_of_isCombining`). Where the first value
stands, those of the level that decides are (`gather_of_isTop`): the highest that has a candidate
that grants a value or, where membership decides the flag, does not pass through.
-/

namespace Enclave

open Region (Lineup Descending IsTop downTo)

variable {t : RegionTable} {terms : Terms} {actor : Option Actor} {r s : Region}
  {candidates seen : List Region} {g : Gathering}

/-! ## Upheld regions -/

namespace Region

/-- Whether the region grants the actor a value. -/
def grants (t : RegionTable) (terms : Terms) (actor : Option Actor) (r : Region) : Bool :=
  (r.grant t terms actor).isSome

/-- What is gathered of a region that grants a value. -/
def given? (t : RegionTable) (terms : Terms) (actor : Option Actor) (r : Region) :
    Option (RegionId × Value) :=
  (r.grant t terms actor).map fun g => (r.id, g.1)

/-- What is gathered of regions bears their ids. -/
theorem map_filterMap_given? (l : List Region) : (l.filterMap (given? t terms actor)).map (·.1) =
    (l.filter (grants t terms actor)).map (·.id) := by
  induction l with
  | nil => rfl
  | cons r l ih =>
    cases granted : r.grant t terms actor <;> simp [given?, grants, granted] <;> simpa using ih

theorem filter_filterMap_given? (ids : List RegionId) (l : List Region) :
    (l.filterMap (given? t terms actor)).filter (·.1 ∉ ids) =
      (l.filter (·.id ∉ ids)).filterMap (given? t terms actor) := by
  rw [List.filter_filterMap, List.filterMap_filter]
  refine List.filterMap_congr fun r _ => ?_
  cases granted : r.grant t terms actor <;> by_cases h : r.id ∈ ids <;>
    simp [given?, granted, h, Option.filter]

/-- A region of a list that grants a value and lies above none of the list that does. -/
structure IsUpheld (t : RegionTable) (terms : Terms) (actor : Option Actor) (field : List Region)
    (r : Region) : Prop where
  mem : r ∈ field
  grants : r.grants t terms actor = true
  lowest : ∀ s ∈ field, s.grants t terms actor = true → ¬ s.Below t r

/-- The upheld regions of a list, as they stand in it. -/
structure Upholds (t : RegionTable) (terms : Terms) (actor : Option Actor)
    (field upheld : List Region) : Prop where
  sublist : upheld.Sublist field
  mem_iff : ∀ r, r ∈ upheld ↔ IsUpheld t terms actor field r

namespace Upholds

variable {field field' upheld upheld' : List Region}

/-- A region that grants nothing changes nothing. -/
theorem concat_of_not_grants (h : Upholds t terms actor seen upheld)
    (none : r.grants t terms actor = false) : Upholds t terms actor (seen ++ [r]) upheld where
  sublist := h.sublist.trans (List.sublist_append_left _ _)
  mem_iff x := by
    rw [h.mem_iff]
    constructor
    · rintro ⟨mem, grants, lowest⟩
      refine ⟨List.mem_append_left _ mem, grants, fun s hs grants' => ?_⟩
      rcases List.mem_append.mp hs with hs | hs
      · exact lowest s hs grants'
      · rw [List.mem_singleton.mp hs, none] at grants'
        cases grants'
    · rintro ⟨mem, grants, lowest⟩
      refine ⟨?_, grants, fun s hs => lowest s (List.mem_append_left _ hs)⟩
      rcases List.mem_append.mp mem with mem | mem
      · exact mem
      · rw [List.mem_singleton.mp mem, none] at grants
        cases grants

/-- A region above one that grants a value changes nothing: what lies above it is above that one. -/
theorem concat_of_above (h : Upholds t terms actor seen upheld) {d : Region} (hd : d ∈ seen)
    (grants : d.grants t terms actor = true) (below : d.Below t r) :
    Upholds t terms actor (seen ++ [r]) upheld where
  sublist := h.sublist.trans (List.sublist_append_left _ _)
  mem_iff x := by
    rw [h.mem_iff]
    constructor
    · rintro ⟨mem, grants', lowest⟩
      refine ⟨List.mem_append_left _ mem, grants', fun s hs grants'' below' => ?_⟩
      rcases List.mem_append.mp hs with hs | hs
      · exact lowest s hs grants'' below'
      · rw [List.mem_singleton.mp hs] at below'
        exact lowest d hd grants (below.trans below')
    · rintro ⟨mem, grants', lowest⟩
      refine ⟨?_, grants', fun s hs => lowest s (List.mem_append_left _ hs)⟩
      rcases List.mem_append.mp mem with mem | mem
      · exact mem
      · rw [List.mem_singleton.mp mem] at lowest
        exact absurd below (lowest d (List.mem_append_left _ hd) grants)

/-- A region that lies above none so far takes the place of those that it lies below. -/
theorem concat (lineup : Lineup t (seen ++ [r])) (h : Upholds t terms actor seen upheld)
    (grants : r.grants t terms actor = true)
    (lowest : ∀ s ∈ seen, s.grants t terms actor = true → ¬ s.Below t r) :
    Upholds t terms actor (seen ++ [r])
      (upheld.filter (fun x => x.id ∉ (r.ancestors t).map (·.id)) ++ [r]) where
  sublist := (List.filter_sublist.trans h.sublist).append (List.Sublist.refl _)
  mem_iff x := by
    have hr : r ∈ seen ++ [r] := by simp
    have above : ∀ x ∈ seen, x.id ∈ (r.ancestors t).map (·.id) ↔ r.Below t x := fun x hx =>
      lineup.mem_map_id_ancestors hr (List.mem_append_left _ hx)
    rw [List.mem_append, List.mem_filter, h.mem_iff, List.mem_singleton, decide_eq_true_iff]
    constructor
    · rintro (⟨⟨mem, grants', lowest'⟩, notAbove⟩ | rfl)
      · refine ⟨List.mem_append_left _ mem, grants', fun s hs grants'' => ?_⟩
        rcases List.mem_append.mp hs with hs | hs
        · exact lowest' s hs grants''
        · rw [List.mem_singleton.mp hs]
          exact fun below => notAbove ((above x mem).mpr below)
      · refine ⟨hr, grants, fun s hs grants'' => ?_⟩
        rcases List.mem_append.mp hs with hs | hs
        · exact lowest s hs grants''
        · rw [List.mem_singleton.mp hs]
          exact not_below_self lineup.keyed lineup.acyclic
    · rintro ⟨mem, grants', lowest'⟩
      rcases List.mem_append.mp mem with mem | mem
      · refine .inl ⟨⟨mem, grants', fun s hs => lowest' s (List.mem_append_left _ hs)⟩, ?_⟩
        exact fun h => lowest' r hr grants ((above x mem).mp h)
      · exact .inr (List.mem_singleton.mp mem)

/-- Some region is upheld if any grants a value. -/
theorem ne_nil (lineup : Lineup t field) (h : Upholds t terms actor field upheld)
    (grants : ∃ r ∈ field, r.grants t terms actor = true) : upheld ≠ [] := by
  obtain ⟨r, hr, grants⟩ := grants
  have some : r ∈ field.filter (·.grants t terms actor) := List.mem_filter.mpr ⟨hr, grants⟩
  obtain ⟨w, hw, lowest⟩ :=
    exists_lowest lineup.keyed lineup.acyclic (List.ne_nil_of_mem some)
  obtain ⟨hw, grants⟩ := List.mem_filter.mp hw
  refine List.ne_nil_of_mem ((h.mem_iff w).mpr ⟨hw, grants, fun s hs grants' => ?_⟩)
  exact lowest s (List.mem_filter.mpr ⟨hs, grants'⟩)

/-- Regions that grant nothing may be left out. -/
theorem filter (h : Upholds t terms actor field upheld) {p : Region → Bool}
    (granting : ∀ r ∈ field, r.grants t terms actor = true → p r = true) :
    Upholds t terms actor (field.filter p) upheld where
  sublist := by
    have all : upheld.filter p = upheld := List.filter_eq_self.mpr fun r hr =>
      have isUpheld := (h.mem_iff r).mp hr
      granting r isUpheld.mem isUpheld.grants
    exact all ▸ h.sublist.filter p
  mem_iff r := by
    rw [h.mem_iff]
    constructor
    · rintro ⟨mem, grants, lowest⟩
      exact ⟨List.mem_filter.mpr ⟨mem, granting r mem grants⟩, grants,
        fun s hs => lowest s (List.mem_filter.mp hs).1⟩
    · rintro ⟨mem, grants, lowest⟩
      exact ⟨(List.mem_filter.mp mem).1, grants,
        fun s hs grants' => lowest s (List.mem_filter.mpr ⟨hs, granting s hs grants'⟩) grants'⟩

/-- In whatever order regions stand, the same of them are upheld. -/
theorem perm (lineup : Lineup t field) (h : Upholds t terms actor field upheld)
    (h' : Upholds t terms actor field' upheld') (perm : field'.Perm field) :
    upheld'.Perm upheld := by
  have nodup := lineup.nodup.sublist h.sublist
  have nodup' := (perm.nodup_iff.mpr lineup.nodup).sublist h'.sublist
  refine (List.perm_ext_iff_of_nodup nodup' nodup).mpr fun r => ?_
  rw [h.mem_iff, h'.mem_iff]
  constructor
  · rintro ⟨mem, grants, lowest⟩
    exact ⟨perm.mem_iff.mp mem, grants, fun s hs => lowest s (perm.mem_iff.mpr hs)⟩
  · rintro ⟨mem, grants, lowest⟩
    exact ⟨perm.mem_iff.mpr mem, grants, fun s hs => lowest s (perm.mem_iff.mp hs)⟩

end Upholds

end Region

open Region (Upholds given? grants)

/-! ## Giving way -/

namespace Gathering

@[simp] theorem cutoff_giveWay (g : Gathering) (id : RegionId) : (g.giveWay id).cutoff = g.cutoff := by
  rw [giveWay]
  split <;> rfl

theorem cutoff_foldl_giveWay (ids : List RegionId) :
    ∀ g : Gathering, (ids.foldl giveWay g).cutoff = g.cutoff := by
  induction ids with
  | nil => exact fun _ => rfl
  | cons id ids ih => exact fun g => (ih (g.giveWay id)).trans (cutoff_giveWay g id)

/-- Where keys differ, dropping the first pair of a key drops all. -/
theorem eraseP_key_eq_filter (id : RegionId) : ∀ {l : List (RegionId × Value)},
    (l.map (·.1)).Nodup → l.eraseP (·.1 == id) = l.filter (·.1 ≠ id)
  | [], _ => rfl
  | e :: l, nodup => by
    obtain ⟨fresh, nodup⟩ := List.nodup_cons.mp nodup
    by_cases same : e.1 = id
    · have rest : l.filter (·.1 ≠ id) = l := by
        refine List.filter_eq_self.mpr fun d hd => decide_eq_true fun h => fresh ?_
        exact List.mem_map.mpr ⟨d, hd, h.trans same.symm⟩
      rw [List.eraseP_cons_of_pos (by simpa using same), List.filter_cons_of_neg (by simpa using same),
        rest]
    · rw [List.eraseP_cons_of_neg (by simpa using same), List.filter_cons_of_pos (by simpa using same),
        eraseP_key_eq_filter id nodup]

/-- An ancestor's value is dropped, or will be ignored. -/
theorem givesWay : GivesWay considered (·.1) ignored giveWay where
  held_eq g id nodup := by
    rw [giveWay]
    split
    next found => exact eraseP_key_eq_filter id nodup
    next absent =>
      refine (List.filter_eq_self.mpr fun e he => ?_).symm
      simpa using fun same => absent (List.any_eq_true.mpr ⟨e, he, by simpa using same⟩)
  mem_later_iff g id id' notYet := by
    rw [giveWay]
    split
    next found =>
      have : id' ≠ id := by
        rintro rfl
        obtain ⟨e, he, same⟩ := List.any_eq_true.mp found
        exact notYet (List.mem_map.mpr ⟨e, he, eq_of_beq same⟩)
      simp [this]
    next absent => simp

/-! ### Taking a value -/

theorem take_of_mem {v : Value} (ignored : r.id ∈ g.ignored) : g.take t r v = g :=
  if_pos (by simpa using ignored)

theorem cutoff_take {v : Value} (notIgnored : r.id ∉ g.ignored) :
    (g.take t r v).cutoff = some r.level := by
  rw [take, if_neg (by simpa using notIgnored)]
  exact cutoff_foldl_giveWay _ _

theorem considered_take {v : Value} (notIgnored : r.id ∉ g.ignored)
    (nodup : (g.considered.map (·.1)).Nodup) : (g.take t r v).considered =
      g.considered.filter (·.1 ∉ (r.ancestors t).map (·.id)) ++ [(r.id, v)] := by
  rw [take, if_neg (by simpa using notIgnored)]
  exact congrArg (· ++ _) (givesWay.held_foldl _ { g with cutoff := some r.level } nodup)

theorem mem_ignored_take {v : Value} (notIgnored : r.id ∉ g.ignored)
    (nodup : (g.considered.map (·.1)).Nodup) {id : RegionId}
    (notYet : id ∉ g.considered.map (·.1)) : id ∈ (g.take t r v).ignored ↔
      id ∈ g.ignored ∨ id ∈ (r.ancestors t).map (·.id) := by
  rw [take, if_neg (by simpa using notIgnored)]
  exact givesWay.mem_later_foldl _ { g with cutoff := some r.level } nodup notYet

end Gathering

/-! ## The walk -/

/-- What the walk has gathered of the regions it has passed: the values of the upheld ones, and what
lies above those that grant values, of which only what it has not passed yet is of use. -/
structure Gathered (t : RegionTable) (terms : Terms) (actor : Option Actor) (seen : List Region)
    (g : Gathering) : Prop where
  considered : ∃ upheld, Upholds t terms actor seen upheld ∧
    g.considered = upheld.filterMap (given? t terms actor)
  ignored : ∀ id, id ∉ seen.map (·.id) → (id ∈ g.ignored ↔
    ∃ s ∈ seen, s.grants t terms actor = true ∧ id ∈ (s.ancestors t).map (·.id))
  cutoff : g.cutoff = none → g.ignored = []

namespace Gathered

open Gathering (giveWay)

theorem empty : Gathered t terms actor [] {} where
  considered := ⟨[], ⟨.slnil, fun r => iff_of_false List.not_mem_nil fun h =>
    absurd h.mem List.not_mem_nil⟩, rfl⟩
  ignored _ _ := by simp
  cutoff _ := rfl

/-- Closing the levels below a region changes nothing else. -/
theorem closeIf (h : Gathered t terms actor seen g) (b : Bool) (r : Region) :
    Gathered t terms actor seen (if b then g.close r else g) := by
  cases b with
  | true => exact ⟨h.considered, h.ignored, fun none => nomatch none⟩
  | false => exact h

theorem skip (h : Gathered t terms actor seen g) (none : r.grants t terms actor = false) :
    Gathered t terms actor (seen ++ [r]) g where
  considered := by
    obtain ⟨upheld, upholds, eq⟩ := h.considered
    exact ⟨upheld, upholds.concat_of_not_grants none, eq⟩
  ignored id fresh := by
    rw [h.ignored id fun h => fresh (by simpa using .inl (by simpa using h))]
    simp [none]
  cutoff := h.cutoff

/-- A region above one that grants a value is ignored, and so is what lies above it. -/
theorem ignore (lineup : Lineup t (seen ++ [r])) (h : Gathered t terms actor seen g)
    (ignored : r.id ∈ g.ignored) : Gathered t terms actor (seen ++ [r]) g := by
  have hr : r ∈ seen ++ [r] := by simp
  obtain ⟨d, hd, grants, above⟩ := (h.ignored r.id lineup.fresh).mp ignored
  have hd' : d ∈ seen ++ [r] := List.mem_append_left _ hd
  have below : d.Below t r := (lineup.mem_map_id_ancestors hd' hr).mp above
  have ancestors : ∀ {q u}, q ∈ seen ++ [r] → (u ∈ q.ancestors t ↔ q.Below t u) := fun hq =>
    Region.mem_ancestors_iff lineup.keyed lineup.acyclic (lineup.agrees _ hq)
  refine ⟨?_, fun id fresh => ?_, h.cutoff⟩
  · obtain ⟨upheld, upholds, eq⟩ := h.considered
    exact ⟨upheld, upholds.concat_of_above hd grants below, eq⟩
  · rw [h.ignored id fun h => fresh (by rw [List.map_append]; exact List.mem_append_left _ h)]
    constructor
    · rintro ⟨s, hs, rest⟩
      exact ⟨s, List.mem_append_left _ hs, rest⟩
    · rintro ⟨s, hs, grants', above'⟩
      rcases List.mem_append.mp hs with hs | hs
      · exact ⟨s, hs, grants', above'⟩
      · obtain ⟨u, hu, rfl⟩ := List.mem_map.mp above'
        rw [List.mem_singleton.mp hs, ancestors hr] at hu
        exact ⟨d, hd, grants, List.mem_map.mpr ⟨u, (ancestors hd').mpr (below.trans hu), rfl⟩⟩

/-- A region that is not ignored takes the place of its ancestors. -/
theorem replace (lineup : Lineup t (seen ++ [r])) (h : Gathered t terms actor seen g) {v : Value}
    {s : Region} (granted : r.grant t terms actor = some (v, s)) (notIgnored : r.id ∉ g.ignored) :
    Gathered t terms actor (seen ++ [r]) (g.take t r v) := by
  have hr : r ∈ seen ++ [r] := by simp
  have grants : r.grants t terms actor = true := by rw [Region.grants, granted]; rfl
  have lowest : ∀ d ∈ seen, d.grants t terms actor = true → ¬ d.Below t r := by
    intro d hd grants below
    have above := (lineup.mem_map_id_ancestors (List.mem_append_left _ hd) hr).mpr below
    exact notIgnored ((h.ignored r.id lineup.fresh).mpr ⟨d, hd, grants, above⟩)
  obtain ⟨upheld, upholds, eq⟩ := h.considered
  have ids : (g.considered.map (·.1)).Sublist (seen.map (·.id)) := by
    rw [eq, Region.map_filterMap_given?]
    exact (List.filter_sublist.trans upholds.sublist).map _
  have nodup : (g.considered.map (·.1)).Nodup :=
    (lineup.sublist (List.sublist_append_left seen [r])).distinct.sublist ids
  refine ⟨⟨_, upholds.concat lineup grants lowest, ?_⟩, fun id fresh => ?_, fun none => ?_⟩
  · rw [Gathering.considered_take notIgnored nodup, eq, Region.filter_filterMap_given?,
      List.filterMap_append]
    simp [given?, granted]
  · rw [List.map_append] at fresh
    have notSeen : id ∉ seen.map (·.id) := fun h => fresh (List.mem_append_left _ h)
    rw [Gathering.mem_ignored_take notIgnored nodup fun h => notSeen (ids.subset h),
      h.ignored id notSeen]
    simp only [List.mem_append, List.mem_singleton, or_and_right, exists_or, exists_eq_left, grants,
      true_and]
  · cases (Gathering.cutoff_take notIgnored).symm.trans none

/-- At every step the upheld of the regions passed are gathered. -/
theorem visit (lineup : Lineup t (seen ++ [r])) (h : Gathered t terms actor seen g) :
    Gathered t terms actor (seen ++ [r]) (g.visit t terms actor r) := by
  rw [Gathering.visit]
  cases granted : r.grant t terms actor with
  | none => exact (h.skip (by rw [Region.grants, granted]; rfl)).closeIf _ r
  | some found =>
    have taken : Gathered t terms actor (seen ++ [r]) (g.take t r found.1) := by
      by_cases ignored : r.id ∈ g.ignored
      · rw [Gathering.take_of_mem ignored]
        exact h.ignore lineup ignored
      · exact h.replace lineup granted ignored
    exact taken.closeIf _ r

end Gathered

theorem gathered_foldl_visit (terms : Terms) (actor : Option Actor) (lineup : Lineup t candidates) :
    Gathered t terms actor candidates (candidates.foldl (Gathering.visit t terms actor) {}) := by
  induction candidates using List.reverseRecOn with
  | nil => exact .empty
  | append_singleton seen r ih =>
    rw [List.foldl_append]
    exact (ih (lineup.sublist (List.sublist_append_left _ _))).visit lineup

/-! ## Values as they are granted

Whatever the table and the candidates are, nothing is gathered but what candidates grant, and it
stands in their order.
-/

namespace Gathering

theorem considered_giveWay_sublist (g : Gathering) (id : RegionId) :
    (g.giveWay id).considered.Sublist g.considered := by
  rw [giveWay]
  split
  · exact List.eraseP_sublist
  · exact .refl _

theorem considered_foldl_giveWay_sublist (ids : List RegionId) :
    ∀ g : Gathering, (ids.foldl giveWay g).considered.Sublist g.considered := by
  induction ids with
  | nil => exact fun _ => .refl _
  | cons id ids ih => exact fun g => (ih (g.giveWay id)).trans (g.considered_giveWay_sublist id)

theorem considered_take_sublist (t : RegionTable) (g : Gathering) (r : Region) (v : Value) :
    (g.take t r v).considered.Sublist (g.considered ++ [(r.id, v)]) := by
  rw [take]
  split
  · exact List.sublist_append_left _ _
  · exact (considered_foldl_giveWay_sublist _ { g with cutoff := some r.level }).append (.refl _)

theorem considered_visit_sublist (g : Gathering) (r : Region) :
    (g.visit t terms actor r).considered.Sublist
      (g.considered ++ (r.given? t terms actor).toList) := by
  have closeIf (g : Gathering) (b : Bool) :
      (if b then g.close r else g).considered = g.considered := by cases b <;> rfl
  rw [visit, given?, closeIf]
  cases r.grant t terms actor with
  | none => exact List.sublist_append_left _ _
  | some found => exact considered_take_sublist t g r found.1

theorem considered_visitAll_sublist (candidates : List Region) : ∀ g : Gathering,
    (g.visitAll t terms actor candidates).considered.Sublist
      (g.considered ++ candidates.filterMap (given? t terms actor)) := by
  induction candidates with
  | nil => exact fun g => List.sublist_append_left _ _
  | cons r rest ih =>
    intro g
    have given : (r :: rest).filterMap (given? t terms actor) =
        (r.given? t terms actor).toList ++ rest.filterMap (given? t terms actor) := by
      rw [List.filterMap_cons]
      cases r.given? t terms actor <;> rfl
    rw [visitAll, given, ← List.append_assoc]
    split
    · exact (List.sublist_append_left _ _).trans (List.sublist_append_left _ _)
    · exact (ih _).trans ((g.considered_visit_sublist r).append (.refl _))

end Gathering

theorem gather_sublist (t : RegionTable) (terms : Terms) (actor : Option Actor)
    (candidates : List Region) : (gather t terms actor candidates).Sublist
      (candidates.filterMap (given? t terms actor)) :=
  Gathering.considered_visitAll_sublist candidates {}

/-! ## Values that combine -/

theorem Gathering.visitAll_eq_foldl (combining : terms.isFirstMatch = false) :
    ∀ g : Gathering, g.visitAll t terms actor candidates =
      candidates.foldl (Gathering.visit t terms actor) g := by
  induction candidates with
  | nil => exact fun _ => rfl
  | cons r rest ih =>
    intro g
    rw [Gathering.visitAll, Gathering.isClosedTo, combining, Bool.false_and,
      if_neg Bool.false_ne_true, ih, List.foldl_cons]

/-- Where values combine, those of all upheld candidates are gathered, in whatever order the
candidates stand. -/
theorem gather_of_isCombining (actor : Option Actor) (lineup : Lineup t candidates)
    (combining : terms.isFirstMatch = false) : ∃ upheld, Upholds t terms actor candidates upheld ∧
      gather t terms actor candidates = upheld.filterMap (given? t terms actor) := by
  rw [gather, Gathering.visitAll_eq_foldl combining]
  exact (gathered_foldl_visit terms actor lineup).considered

/-! ## The first value -/

namespace Region

/-- Whether a candidate decides at its level: it grants a value or, where membership decides the
flag, does not pass through. -/
def decides (t : RegionTable) (terms : Terms) (actor : Option Actor) (r : Region) : Bool :=
  r.grants t terms actor || (terms.membershipDecides && !r.passesThrough t actor)

end Region

theorem Gathering.visitAll_eq_descend (first : terms.isFirstMatch = true) :
    ∀ g : Gathering, g.visitAll t terms actor candidates =
      descend (·.cutoff) (Gathering.visit t terms actor) g candidates := by
  induction candidates with
  | nil => exact fun _ => rfl
  | cons r rest ih =>
    intro g
    rw [Gathering.visitAll, descend, Gathering.isClosedTo, first, Bool.true_and, ih]

/-- A region closes the levels below it if it decides. -/
theorem Gathering.cutsOff_visit (lineup : Lineup t candidates) (first : terms.isFirstMatch = true) :
    CutsOff (·.cutoff) (Gathering.visit t terms actor) (Region.decides t terms actor) {}
      candidates := by
  rintro seen r rest rfl reached
  have sub : seen.Sublist (seen ++ r :: rest) := List.sublist_append_left _ _
  have unopposed := (gathered_foldl_visit terms actor (lineup.sublist sub)).cutoff
  generalize seen.foldl (Gathering.visit t terms actor) {} = g at reached unopposed ⊢
  rw [Gathering.visit, first, Bool.true_and]
  cases granted : r.grant t terms actor with
  | none =>
    simp only [Region.decides, Region.grants, granted]
    rcases reached with reached | reached <;> cases terms.membershipDecides <;>
      cases r.passesThrough t actor <;> simp [reached, Gathering.close]
  | some found =>
    have closed : (g.take t r found.1).cutoff = some r.level := by
      by_cases ignored : r.id ∈ g.ignored
      · rw [Gathering.take_of_mem ignored]
        refine reached.resolve_left fun none => ?_
        rw [unopposed none] at ignored
        exact List.not_mem_nil ignored
      · exact Gathering.cutoff_take ignored
    simp [closed, Region.decides, Region.grants, granted]

/-- Where the first value stands, nothing below the level that decides is passed. -/
theorem gather_eq_of_isTop (lineup : Lineup t candidates) (descending : Descending candidates)
    (first : terms.isFirstMatch = true) {top : Level}
    (isTop : IsTop (Region.decides t terms actor) candidates top) : gather t terms actor candidates =
      ((downTo top candidates).foldl (Gathering.visit t terms actor) {}).considered := by
  rw [gather, Gathering.visitAll_eq_descend first,
    descend_of_isTop (Gathering.cutsOff_visit lineup first) descending rfl isTop]

/-- Where the first value stands, those of the upheld candidates of the level that decides are
gathered. -/
theorem gather_of_isTop (lineup : Lineup t candidates) (descending : Descending candidates)
    (first : terms.isFirstMatch = true) {top : Level}
    (isTop : IsTop (Region.decides t terms actor) candidates top) :
    ∃ upheld, Upholds t terms actor (candidates.filter (·.level = top)) upheld ∧
      gather t terms actor candidates = upheld.filterMap (given? t terms actor) := by
  have passed := gathered_foldl_visit terms actor
    (lineup.sublist (Region.downTo_sublist top candidates))
  obtain ⟨upheld, upholds, eq⟩ := passed.considered
  refine ⟨upheld, ?_, ?_⟩
  · rw [← Region.filter_level_downTo]
    refine upholds.filter fun r hr grants => decide_eq_true (isTop.level_eq hr ?_)
    rw [Region.decides, grants, Bool.true_or]
  · rw [gather_eq_of_isTop lineup descending first isTop, eq]

/-- Where no candidate decides, nothing is gathered. -/
theorem gather_of_forall_not (lineup : Lineup t candidates) (descending : Descending candidates)
    (first : terms.isFirstMatch = true)
    (none : ∀ r ∈ candidates, r.decides t terms actor = false) :
    gather t terms actor candidates = [] := by
  have walk := descend_of_forall_not (Gathering.cutsOff_visit lineup first) descending rfl none
  obtain ⟨upheld, upholds, eq⟩ :=
    (gathered_foldl_visit terms actor lineup).considered
  have nobody : upheld = [] := List.eq_nil_iff_forall_not_mem.mpr fun r hr => by
    obtain ⟨mem, grants, -⟩ := (upholds.mem_iff r).mp hr
    have := none r mem
    rw [Region.decides, grants, Bool.true_or] at this
    cases this
  rw [gather, Gathering.visitAll_eq_descend first, walk, eq, nobody]
  rfl

/-- Nothing is gathered if no candidate of the level that decides grants a value. -/
theorem gather_eq_nil (lineup : Lineup t candidates) (descending : Descending candidates)
    (first : terms.isFirstMatch = true)
    (none : ∀ top, IsTop (Region.decides t terms actor) candidates top →
      ∀ r ∈ candidates, r.level = top → r.grants t terms actor = false) :
    gather t terms actor candidates = [] := by
  by_cases decided : ∃ r ∈ candidates, r.decides t terms actor = true
  · obtain ⟨top, isTop⟩ := Region.exists_isTop descending decided
    obtain ⟨upheld, upholds, eq⟩ := gather_of_isTop lineup descending first isTop
    have nobody : upheld = [] := List.eq_nil_iff_forall_not_mem.mpr fun r hr => by
      obtain ⟨mem, grants, -⟩ := (upholds.mem_iff r).mp hr
      obtain ⟨hr, level⟩ := List.mem_filter.mp mem
      cases (none top isTop r hr (by simpa using level)).symm.trans grants
    rw [eq, nobody]
    rfl
  · refine gather_of_forall_not lineup descending first fun r hr => ?_
    exact Bool.eq_false_of_not_eq_true fun h => decided ⟨r, hr, h⟩

end Enclave
