import Mathlib.Order.Basic
import Enclave.Proofs.World.Territory

/-!
# Standing comes down the line

How an actor stands to a region is the strongest of what the regions of its lineage list the actor
as (`Region.standing_eq_strongest`). That holds on every table, whatever its parents; so no actor
stands to a region weaker than the region itself lists it.

Where the chain of a region's parents does not come back to its id, the lineage of the region is the
region itself and then the whole lineage of its parent (`Region.lineage_of_parent`). So on a table
where no chain comes back, standing is handed down: an actor stands to a region as its own rosters
say or as it stands to the parent, whichever is stronger (`Region.inheritsStanding`). Nothing more
is asked of the table: parents may be missing from it, and regions may stand under ids that are not
their own.
-/

namespace Enclave

open Relation (TransGen)

/-! ## Stronger and weaker -/

namespace Standing

/-- How much a standing counts for. -/
def privilege : Standing → Nat
  | owner => 2
  | member => 1
  | nonMember => 0

theorem privilege_injective : Function.Injective privilege := fun s s' same => by
  cases s <;> cases s' <;> first | rfl | cases same

/-- Owners stand stronger than members, and members than everybody else. -/
instance : LinearOrder Standing := LinearOrder.lift' privilege privilege_injective

example : nonMember < member ∧ member < owner := by decide

theorem nonMember_le (s : Standing) : nonMember ≤ s := Nat.zero_le s.privilege

/-- The strongest of some standings. -/
def strongest (l : List Standing) : Standing := l.foldr max nonMember

theorem strongest_cons (s : Standing) (l : List Standing) :
    strongest (s :: l) = max s (strongest l) := rfl

theorem le_strongest {s : Standing} {l : List Standing} (h : s ∈ l) : s ≤ strongest l := by
  induction l with
  | nil => cases h
  | cons s' l ih =>
    rw [strongest_cons]
    rcases List.mem_cons.mp h with rfl | h
    · exact le_max_left _ _
    · exact (ih h).trans (le_max_right _ _)

end Standing

namespace Region

variable {t : RegionTable} {a : Actor} {r s p : Region} {seen : List RegionId}
  {next : Option Region} {l : List Region}

/-! ## The strongest of a lineage -/

/-- An owner of any of the regions is an owner, else a member of any of them a member. -/
theorem strongest_map_ownStanding (a : Actor) (l : List Region) :
    Standing.strongest (l.map (·.ownStanding a)) =
      if l.any (·.owners.lists a) then .owner
      else if l.any (·.members.lists a) then .member
      else .nonMember := by
  induction l with
  | nil => rfl
  | cons s l ih =>
    rw [List.map_cons, Standing.strongest_cons, ih, ownStanding, List.any_cons, List.any_cons]
    generalize s.owners.lists a = owner, s.members.lists a = member,
      l.any (·.owners.lists a) = owner', l.any (·.members.lists a) = member'
    revert owner member owner' member'
    decide

/-- An actor stands to a region as the strongest that the regions of its lineage list it as. -/
theorem standing_eq_strongest (t : RegionTable) (r : Region) (a : Actor) :
    r.standing t a = Standing.strongest ((r.lineage t).map (·.ownStanding a)) := by
  rw [strongest_map_ownStanding, standing_eq_ite]

/-- No region of the lineage lists an actor as anything stronger. -/
theorem ownStanding_le_standing (hs : s ∈ r.lineage t) : s.ownStanding a ≤ r.standing t a :=
  standing_eq_strongest t r a ▸ Standing.le_strongest (List.mem_map_of_mem hs)

theorem ownStanding_le_standing_self (t : RegionTable) (r : Region) (a : Actor) :
    r.ownStanding a ≤ r.standing t a :=
  ownStanding_le_standing (List.mem_of_mem_head? (head?_lineage t r))

/-! ## The lineage of a parent -/

/-- Ids that a walk does not come to make no difference to it. -/
theorem Walks.of_unmet (walks : Walks t seen next l) : ∀ {seen' : List RegionId}, seen ⊆ seen' →
    (∀ s ∈ l, s.id ∉ seen') → Walks t seen' next l := by
  induction walks with
  | missing => exact fun _ _ => .missing
  | met old => exact fun subset _ => .met (subset old)
  | @pass seen r l _ rest ih =>
    intro seen' subset unmet
    refine .pass (unmet r List.mem_cons_self) (ih (List.cons_subset_cons _ subset) ?_)
    intro s hs met
    rcases List.mem_cons.mp met with same | old
    · exact rest.nodup.2 s hs (same ▸ List.mem_cons_self)
    · exact unmet s (List.mem_cons_of_mem r hs) old

/-- What a walk passes lies above where it starts. -/
theorem Walks.atOrBelow (walks : Walks t seen next l) (hs : s ∈ l) :
    ∃ r, next = some r ∧ r.AtOrBelow t s := by
  induction walks with
  | missing | met => cases hs
  | @pass seen r l _ _ ih =>
    refine ⟨r, rfl, ?_⟩
    rcases List.mem_cons.mp hs with rfl | hs
    · exact .refl
    · obtain ⟨p, parent, above⟩ := ih hs
      exact .head parent above

theorem lineage_of_orphan (orphan : r.parentIn t = none) : r.lineage t = [r] :=
  (walks_lineage t r).unique (.pass List.not_mem_nil (orphan ▸ .missing))

/-- A walk that does not come back to its start goes on as it does from the parent. -/
theorem lineage_of_parent (parent : r.parentIn t = some p)
    (once : ∀ s, r.Below t s → s.id ≠ r.id) : r.lineage t = r :: p.lineage t := by
  have walks := walks_lineage t p
  have unmet : ∀ s ∈ p.lineage t, s.id ∉ [r.id] := fun s hs met => by
    obtain ⟨_, start, above⟩ := walks.atOrBelow hs
    obtain rfl := Option.some.inj start
    exact once s (TransGen.head' parent above) (List.mem_singleton.mp met)
  refine (walks_lineage t r).unique (.pass List.not_mem_nil ?_)
  rw [parent]
  exact walks.of_unmet (List.nil_subset _) unmet

/-! ## Standing from parent to child -/

theorem standing_of_orphan (orphan : r.parentIn t = none) : r.standing t a = r.ownStanding a := by
  rw [standing_eq_strongest, lineage_of_orphan orphan]
  exact max_eq_left (Standing.nonMember_le _)

theorem standing_of_parent (parent : r.parentIn t = some p)
    (once : ∀ s, r.Below t s → s.id ≠ r.id) :
    r.standing t a = max (r.ownStanding a) (p.standing t a) := by
  rw [standing_eq_strongest, lineage_of_parent parent once, List.map_cons,
    Standing.strongest_cons, ← standing_eq_strongest]

/-- No chain of parents comes back to the id that it started from. -/
def Acyclic (t : RegionTable) : Prop := ∀ r ∈ t.values, ∀ s, r.Below t s → s.id ≠ r.id

/-- Where regions stand under their own ids, it is enough that no chain of ids comes back. -/
theorem acyclic_of_keyed (keyed : Keyed t) (acyclic : ∀ id, ¬ TransGen (Names t) id id) :
    Acyclic t := by
  intro r hr s below same
  obtain ⟨id, found⟩ := Table.mem_values_iff.mp hr
  obtain rfl := keyed id r found
  have loop := below.transGen_names keyed found
  rw [same] at loop
  exact acyclic r.id loop

theorem standing_le_of_parent (acyclic : Acyclic t) (known : r ∈ t.values)
    (parent : r.parentIn t = some p) : p.standing t a ≤ r.standing t a := by
  rw [standing_of_parent parent (acyclic r known)]
  exact le_max_right _ _

theorem standing_le_of_below (acyclic : Acyclic t) (below : r.Below t s) :
    r ∈ t.values → s.standing t a ≤ r.standing t a := by
  induction below using TransGen.head_induction_on with
  | single parent => exact fun known => standing_le_of_parent acyclic known parent
  | head parent _ ih =>
    intro known
    have above := ih (mem_values_of_parentIn parent)
    exact above.trans (standing_le_of_parent acyclic known parent)

/-- How an actor stands to a region, from how it stands to the parent. -/
structure InheritsStanding (t : RegionTable) (a : Actor) (r : Region) : Prop where
  orphan : r.parentIn t = none → r.standing t a = r.ownStanding a
  parent : ∀ p, r.parentIn t = some p →
    r.standing t a = max (r.ownStanding a) (p.standing t a)
  /-- An actor stands to a region no weaker than to any that lies above it. -/
  above : ∀ s, r.Below t s → s.standing t a ≤ r.standing t a
  /-- Whatever parent the region is put under, in whatever table, its own rosters count. -/
  reparented : ∀ parent r', r.withParent parent = .ok r' →
    ∀ t', r.ownStanding a ≤ r'.standing t' a

/-- On a table where no chain of parents comes back, an actor stands to every region as the region's
own rosters say or as it stands to the parent, whichever is stronger. -/
theorem inheritsStanding (acyclic : Acyclic t) (known : r ∈ t.values) (a : Actor) :
    InheritsStanding t a r where
  orphan := standing_of_orphan
  parent _ parent := standing_of_parent parent (acyclic r known)
  above _ below := standing_le_of_below acyclic below known
  reparented parent r' h t' := by
    obtain ⟨-, rfl⟩ := withParent_eq_ok h
    exact ownStanding_le_standing_self t' { r with parent } a

/-- A cottage on an estate in a town. The town's council, a group, owns all three; a member of the
town who owns the estate owns the cottage too; whom only the cottage lists is nobody elsewhere. -/
theorem inheritsStanding_of_cottage : ∃ (t : Territory) (cottage : Region), t.Reachable ∧
    (t.atlas.regions.values.map fun r => (r.id.text,
        [.anonymous, ⟨none, ["council"]⟩, .ofPlayer 8, .ofPlayer 9].map
          (r.standing t.atlas.regions))) =
      [("cottage", [.nonMember, .owner, .owner, .member]),
        ("estate", [.nonMember, .owner, .owner, .nonMember]),
        ("town", [.nonMember, .owner, .member, .nonMember])] ∧
    cottage.id.text = "cottage" ∧ Acyclic t.atlas.regions ∧ cottage ∈ t.atlas.regions.values ∧
    ∀ a, InheritsStanding t.atlas.regions a cottage := by
  let := Platform.reference
  let town : Region :=
    { id := ⟨"town", by decide +kernel⟩
      shape := .cuboid ⟨⟨0, 0, 0⟩, ⟨9, 9, 9⟩⟩
      owners := .of [] ["council"]
      members := .of [8] [] }
  let estate : Region :=
    { id := ⟨"estate", by decide +kernel⟩
      shape := .cuboid ⟨⟨1, 1, 1⟩, ⟨4, 4, 4⟩⟩
      owners := .of [8] []
      parent := some town.id }
  let cottage : Region :=
    { id := ⟨"cottage", by decide +kernel⟩
      shape := .cuboid ⟨⟨2, 2, 2⟩, ⟨3, 3, 3⟩⟩
      members := .of [9] []
      parent := some estate.id }
  let bare : Territory := ⟨{}, ∅, .blank (.empty {})⟩
  let t := (((bare.add town).1.add estate).1.add cottage).1
  have reachable : t.Reachable :=
    (((Territory.reachable_blank ∅).add town).add estate).add cottage
  have consistent := reachable.consistent
  have acyclic := acyclic_of_keyed consistent.keyed consistent.forest.acyclic
  have listed : t.atlas.regions.contains cottage.id = true := by decide +kernel
  obtain ⟨kept, found⟩ := Table.contains_iff_get?.mp listed
  have known := Table.mem_values_iff.mpr ⟨cottage.id, found⟩
  have named : kept.id = cottage.id := consistent.keyed cottage.id kept found
  exact ⟨t, kept, reachable, by decide +kernel, congrArg RegionId.text named, acyclic, known,
    inheritsStanding acyclic known⟩

end Region

end Enclave
