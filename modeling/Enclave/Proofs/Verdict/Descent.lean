import Enclave.Proofs.Region.Precedence

/-!
# Walks down the levels

Resolution and membership walk a place the same way: region by region, from the highest level down,
until a region stands below the cut-off that an earlier one has set. Such a walk is `descend`. Where
a region sets the cut-off to its own level exactly if it counts, the walk passes the regions that
are not below the highest level with one that counts, and no others (`descend_of_isTop`); if no
region counts, it passes them all (`descend_of_forall_not`).

The walk asks only that levels do not rise. In what order regions of one level stand is left open.

Both walks also treat the ancestors of a region alike (`GivesWay`): what is held of an ancestor is
dropped, and an ancestor of which nothing is held is noted, for when it comes.
-/

namespace Enclave

/-! ## Levels -/

namespace Level

variable {a b c : Level}

theorem isBelow_of_isBelow_of_not (h : a.isBelow b = true) (h' : a.isBelow c = false) :
    c.isBelow b = true := by
  cases a <;> cases b <;> cases c <;> grind [isBelow]

/-- Levels of which neither is below the other are one level. -/
theorem eq_of_not_isBelow (h : a.isBelow b = false) (h' : b.isBelow a = false) : a = b := by
  cases a <;> cases b <;> grind [isBelow]

theorem isBelow_self (a : Level) : a.isBelow a = false := by
  cases a <;> simp [isBelow]

theorem isBelow_asymm (h : a.isBelow b = true) : b.isBelow a = false := by
  cases a <;> cases b <;> grind [isBelow]

theorem isBelow_global (a : Level) : a.isBelow global = false := by
  cases a <;> rfl

end Level

namespace Region

variable {r s : Region} {candidates : List Region}

/-- The levels of a list do not rise. -/
abbrev Descending (l : List Region) : Prop :=
  l.Pairwise fun r s => r.level.isBelow s.level = false

theorem Precedes.not_isBelow (h : r.Precedes s) : r.level.isBelow s.level = false := by
  rcases Ordering.isLE_iff_eq_lt_or_eq_eq.mp h with h | h
  · rcases comparePrecedence_eq_lt_iff.mp h with ⟨hr, hs⟩ | ⟨same, higher | ⟨level, -⟩⟩
    · simp [level, hr, hs, Level.isBelow]
    · cases hr : r.isGlobal <;> grind [level, Level.isBelow]
    · cases hr : r.isGlobal <;> simp_all [Region.level, Level.isBelow]
  · simp only [comparePrecedence, Ordering.then_eq_eq, Std.LawfulEqCmp.compare_eq_iff_eq] at h
    obtain ⟨⟨kind, priority⟩, -⟩ := h
    rw [level, level, kind, priority]
    exact Level.isBelow_self _

/-- What is in order of precedence is in order of levels. -/
theorem descending_of_precedes (sorted : candidates.Pairwise Precedes) : Descending candidates :=
  sorted.imp Precedes.not_isBelow

/-- The highest level that has a region that counts. -/
structure IsTop (counts : Region → Bool) (candidates : List Region) (top : Level) : Prop where
  attained : ∃ r ∈ candidates, counts r = true ∧ r.level = top
  highest : ∀ r ∈ candidates, counts r = true → top.isBelow r.level = false

instance {counts : Region → Bool} {top : Level} : Decidable (IsTop counts candidates top) :=
  decidable_of_iff ((∃ r ∈ candidates, counts r = true ∧ r.level = top) ∧
    ∀ r ∈ candidates, counts r = true → top.isBelow r.level = false)
    ⟨fun h => ⟨h.1, h.2⟩, fun h => ⟨h.attained, h.highest⟩⟩

/-- Where levels do not rise, the first region that counts is of the highest level that counts. -/
theorem exists_isTop {counts : Region → Bool} (descending : Descending candidates)
    (counted : ∃ r ∈ candidates, counts r = true) : ∃ top, IsTop counts candidates top := by
  induction candidates with
  | nil =>
    obtain ⟨r, hr, -⟩ := counted
    exact absurd hr List.not_mem_nil
  | cons q rest ih =>
    obtain ⟨after, descending⟩ := List.pairwise_cons.mp descending
    cases first : counts q with
    | true =>
      refine ⟨q.level, ⟨q, List.mem_cons_self, first, rfl⟩, fun r hr _ => ?_⟩
      rcases List.mem_cons.mp hr with rfl | hr
      · exact Level.isBelow_self _
      · exact after r hr
    | false =>
      have other : ∀ r, counts r = true → r ∈ q :: rest → r ∈ rest := fun r counted hr =>
        (List.mem_cons.mp hr).resolve_left fun same => by simp [same, first] at counted
      obtain ⟨r, hr, counted⟩ := counted
      obtain ⟨top, ⟨s, hs, attained⟩, highest⟩ := ih descending ⟨r, other r counted hr, counted⟩
      exact ⟨top, ⟨s, List.mem_cons_of_mem q hs, attained⟩,
        fun r hr counted => highest r (other r counted hr) counted⟩

/-- The regions that are not below a level. -/
def downTo (top : Level) (candidates : List Region) : List Region :=
  candidates.filter fun r => !r.level.isBelow top

theorem mem_downTo {top : Level} :
    r ∈ downTo top candidates ↔ r ∈ candidates ∧ r.level.isBelow top = false := by
  simp [downTo]

theorem downTo_sublist (top : Level) (candidates : List Region) :
    (downTo top candidates).Sublist candidates := List.filter_sublist

/-- Where levels do not rise, what comes after a region below a level is below it too. -/
theorem downTo_cons_of_isBelow {top : Level} (descending : Descending (r :: candidates))
    (below : r.level.isBelow top = true) : downTo top (r :: candidates) = [] := by
  refine List.filter_eq_nil_iff.mpr fun q hq => ?_
  rcases List.mem_cons.mp hq with rfl | hq
  · simp [below]
  · have after := (List.pairwise_cons.mp descending).1 q hq
    simp [Level.isBelow_of_isBelow_of_not below after]

theorem filter_level_downTo (top : Level) (candidates : List Region) :
    (downTo top candidates).filter (·.level = top) = candidates.filter (·.level = top) := by
  rw [downTo, List.filter_filter]
  refine List.filter_congr fun r _ => ?_
  by_cases h : r.level = top <;> simp [h, Level.isBelow_self]

/-- Of the regions not below the highest level that counts, those that count are of that level. -/
theorem IsTop.level_eq {counts : Region → Bool} {top : Level} (isTop : IsTop counts candidates top)
    (hr : r ∈ downTo top candidates) (counted : counts r = true) : r.level = top := by
  obtain ⟨mem, notBelow⟩ := mem_downTo.mp hr
  exact Level.eq_of_not_isBelow notBelow (isTop.highest r mem counted)

/-- What is below the highest level that counts has no part in which it is. -/
theorem IsTop.of_downTo_eq {counts : Region → Bool} {top : Level} {others : List Region}
    (isTop : IsTop counts candidates top) (same : downTo top others = downTo top candidates) :
    IsTop counts others top := by
  have mem : ∀ r, r.level.isBelow top = false → (r ∈ others ↔ r ∈ candidates) := by
    intro r notBelow
    have := congrArg (r ∈ ·) same
    simpa [mem_downTo, notBelow] using this
  refine ⟨?_, fun r hr counted => ?_⟩
  · obtain ⟨r, hr, counted, rfl⟩ := isTop.attained
    exact ⟨r, (mem r (Level.isBelow_self _)).mpr hr, counted, rfl⟩
  · cases above : top.isBelow r.level with
    | false => rfl
    | true =>
      have old := (mem r (Level.isBelow_asymm above)).mp hr
      exact above.symm.trans (isTop.highest r old counted)

end Region

/-! ## Walks -/

open Region (Descending IsTop downTo)

variable {σ : Type} {cutoff : σ → Option Level} {visit : σ → Region → σ}
  {counts : Region → Bool} {s : σ} {candidates : List Region} {top : Level}

/-- Passes regions until one stands below the cut-off. -/
def descend (cutoff : σ → Option Level) (visit : σ → Region → σ) : σ → List Region → σ
  | s, [] => s
  | s, r :: rest =>
    if (cutoff s).any r.level.isBelow then s else descend cutoff visit (visit s r) rest

/-- Passing a region of the level at which the cut-off stands, or the first that counts, sets the
cut-off to the level of the region if it counts, and leaves it as it is if not. -/
def CutsOff (cutoff : σ → Option Level) (visit : σ → Region → σ) (counts : Region → Bool) (s : σ)
    (candidates : List Region) : Prop :=
  ∀ seen r rest, candidates = seen ++ r :: rest →
    (cutoff (seen.foldl visit s) = none ∨ cutoff (seen.foldl visit s) = some r.level) →
    cutoff (visit (seen.foldl visit s) r) =
      if counts r then some r.level else cutoff (seen.foldl visit s)

/-- Where the walk stands after some of the candidates: it has passed nothing below `top`, and the
cut-off stands there if a region has counted. -/
structure Descended (cutoff : σ → Option Level) (visit : σ → Region → σ) (counts : Region → Bool)
    (s : σ) (top : Level) (seen : List Region) : Prop where
  above : ∀ r ∈ seen, r.level.isBelow top = false
  at_top : cutoff (seen.foldl visit s) = if seen.any counts then some top else none

/-- A region that is not below `top` is passed. -/
theorem Descended.step {seen rest : List Region} {r : Region}
    (h : Descended cutoff visit counts s top seen) (split : candidates = seen ++ r :: rest)
    (cutsOff : CutsOff cutoff visit counts s candidates) (descending : Descending candidates)
    (highest : ∀ r ∈ candidates, counts r = true → top.isBelow r.level = false)
    (notBelow : r.level.isBelow top = false) :
    Descended cutoff visit counts s top (seen ++ [r]) := by
  have before : ∀ q ∈ seen, q.level.isBelow r.level = false := fun q hq =>
    (List.pairwise_append.mp (split ▸ descending)).2.2 q hq r List.mem_cons_self
  have level : seen.any counts = true → r.level = top := by
    intro counted
    obtain ⟨q, hq, counted⟩ := List.any_eq_true.mp counted
    have notAbove := highest q (by simp [split, hq]) counted
    have atTop := Level.eq_of_not_isBelow (h.above q hq) notAbove
    exact Level.eq_of_not_isBelow notBelow (atTop ▸ before q hq)
  have next := cutsOff seen r rest split <| by
    rw [h.at_top]
    split
    next counted => exact .inr (congrArg some (level counted).symm)
    next => exact .inl rfl
  constructor
  · intro q hq
    rcases List.mem_append.mp hq with hq | hq
    · exact h.above q hq
    · exact List.mem_singleton.mp hq ▸ notBelow
  · simp only [List.foldl_append, List.foldl_cons, List.foldl_nil, next, h.at_top, List.any_append,
      List.any_cons, List.any_nil, Bool.or_false]
    cases counted : counts r with
    | true =>
      have notAbove := highest r (by simp [split]) counted
      simp [Level.eq_of_not_isBelow notBelow notAbove]
    | false => simp

/-- From any place on the walk passes what is not below `top`. -/
theorem descend_from (top : Level) (cutsOff : CutsOff cutoff visit counts s candidates)
    (descending : Descending candidates)
    (highest : ∀ r ∈ candidates, counts r = true → top.isBelow r.level = false)
    (attained : (∃ r ∈ candidates, counts r = true ∧ r.level = top) ∨
      ∀ r ∈ candidates, r.level.isBelow top = false) (rest : List Region) :
    ∀ seen, candidates = seen ++ rest → Descended cutoff visit counts s top seen →
      descend cutoff visit (seen.foldl visit s) rest =
        (downTo top rest).foldl visit (seen.foldl visit s) := by
  induction rest with
  | nil => exact fun _ _ _ => rfl
  | cons r rest ih =>
    intro seen split h
    rw [descend, h.at_top]
    cases below : r.level.isBelow top with
    | true =>
      have nothing := Region.downTo_cons_of_isBelow
        (List.pairwise_append.mp (split ▸ descending)).2.1 below
      -- So the region that counts at `top` has been passed already.
      have counted : seen.any counts = true := by
        rcases attained with ⟨q, hq, counted, rfl⟩ | none
        · rcases List.mem_append.mp (split ▸ hq) with hq | hq
          · exact List.any_eq_true.mpr ⟨q, hq, counted⟩
          · have passed := Region.mem_downTo.mpr ⟨hq, Level.isBelow_self q.level⟩
            exact absurd (nothing ▸ passed) List.not_mem_nil
        · exact absurd below (by simp [none r (by simp [split])])
      rw [if_pos counted, nothing]
      simp [below]
    | false =>
      have passed := ih (seen ++ [r]) (by simp [split])
        (h.step split cutsOff descending highest below)
      rw [List.foldl_append, List.foldl_cons, List.foldl_nil] at passed
      rw [if_neg (by split <;> simp [below]), passed]
      simp [downTo, below]

theorem descend_of_isTop (cutsOff : CutsOff cutoff visit counts s candidates)
    (descending : Descending candidates) (start : cutoff s = none)
    (isTop : IsTop counts candidates top) :
    descend cutoff visit s candidates = (downTo top candidates).foldl visit s :=
  descend_from top cutsOff descending isTop.highest (.inl isTop.attained) candidates [] rfl
    ⟨by simp, by simpa using start⟩

theorem descend_of_forall_not (cutsOff : CutsOff cutoff visit counts s candidates)
    (descending : Descending candidates) (start : cutoff s = none)
    (uncounted : ∀ r ∈ candidates, counts r = false) :
    descend cutoff visit s candidates = candidates.foldl visit s := by
  have all : downTo .global candidates = candidates :=
    List.filter_eq_self.mpr fun r _ => by simp [Level.isBelow_global]
  have := descend_from .global cutsOff descending
    (fun r hr counted => absurd counted (by simp [uncounted r hr]))
    (.inr fun r _ => Level.isBelow_global _) candidates [] rfl ⟨by simp, by simpa using start⟩
  rwa [all] at this

/-! ## Ancestors that give way -/

section GivingWay

variable {α : Type} {held : σ → List α} {key : α → RegionId} {later : σ → List RegionId}
  {giveWay : σ → RegionId → σ}

/-- An ancestor that is held is dropped, and one that is not is noted for when it comes. -/
structure GivesWay (held : σ → List α) (key : α → RegionId) (later : σ → List RegionId)
    (giveWay : σ → RegionId → σ) : Prop where
  held_eq : ∀ s id, ((held s).map key).Nodup → held (giveWay s id) = (held s).filter (key · ≠ id)
  mem_later_iff : ∀ s id id', id' ∉ (held s).map key →
    (id' ∈ later (giveWay s id) ↔ id' ∈ later s ∨ id' = id)

namespace GivesWay

variable (gives : GivesWay held key later giveWay)
include gives

theorem sublist {s : σ} (nodup : ((held s).map key).Nodup) (id : RegionId) :
    ((held (giveWay s id)).map key).Sublist ((held s).map key) :=
  gives.held_eq s id nodup ▸ List.filter_sublist.map key

theorem held_foldl (ids : List RegionId) : ∀ s, ((held s).map key).Nodup →
    held (ids.foldl giveWay s) = (held s).filter (key · ∉ ids) := by
  induction ids with
  | nil => exact fun s _ => (List.filter_eq_self.mpr (by simp)).symm
  | cons id ids ih =>
    intro s nodup
    rw [List.foldl_cons, ih _ (nodup.sublist (gives.sublist nodup id)), gives.held_eq s id nodup,
      List.filter_filter]
    congr 1
    funext e
    simp [not_or, Bool.and_comm]

theorem mem_later_foldl (ids : List RegionId) {id : RegionId} : ∀ s, ((held s).map key).Nodup →
    id ∉ (held s).map key → (id ∈ later (ids.foldl giveWay s) ↔ id ∈ later s ∨ id ∈ ids) := by
  induction ids with
  | nil => intro s _ _; simp
  | cons i ids ih =>
    intro s nodup absent
    have sub := gives.sublist nodup i
    rw [List.foldl_cons, ih _ (nodup.sublist sub) fun h => absent (sub.subset h),
      gives.mem_later_iff s i id absent, List.mem_cons, or_assoc]

end GivesWay

end GivingWay

end Enclave
