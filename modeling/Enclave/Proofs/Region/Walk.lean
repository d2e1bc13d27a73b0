import Mathlib.Data.List.Chain
import Mathlib.Data.List.Perm.Subperm
import Enclave.Proofs.Table
import Enclave.Region.Lineage

/-!
# Walks over parents end

A walk goes from a region to its parent, to the parent of that, and so on. It stops at a parent that
is missing and at an id that it has met, and nothing else bounds it (`Region.Walks`). Here nothing is
assumed of the table: parents may run in circles of any length, name themselves or name nobody,
regions may stand under ids that are not their own, and the region that the walk starts from may be
in the table, or another of its id, or none.

Every such walk ends, and the lineage is what it passes (`Region.walks_lineage`): what it passes are
regions of different ids, the start apart all of the table, so that the steps the lineage is given
are enough for every walk. So a loop over the walk ends too, whatever it does at the regions it meets
and wherever it leaves (`Region.Walks.loops`).
-/

namespace Enclave.Region

variable {t : RegionTable} {r s p : Region} {l l' : List Region} {seen : List RegionId}
  {next : Option Region}

/-! ## Walks -/

/-- The regions passed from `next` on, where the ids in `seen` have been met. -/
inductive Walks (t : RegionTable) : List RegionId → Option Region → List Region → Prop
  | missing {seen : List RegionId} : Walks t seen none []
  | met {seen : List RegionId} {r : Region} : r.id ∈ seen → Walks t seen (some r) []
  | pass {seen : List RegionId} {r : Region} {l : List Region} : r.id ∉ seen →
      Walks t (r.id :: seen) (r.parentIn t) l → Walks t seen (some r) (r :: l)

namespace Walks

/-- There is one way to walk. -/
theorem unique (walks : Walks t seen next l) (walks' : Walks t seen next l') : l = l' := by
  induction walks generalizing l' with
  | missing => cases walks' with
    | missing => rfl
  | met hr => cases walks' with
    | met => rfl
    | pass fresh => exact absurd hr fresh
  | pass fresh _ ih => cases walks' with
    | met hr => exact absurd hr fresh
    | pass _ rest => rw [ih rest]

theorem head?_eq (walks : Walks t seen next l) (hp : l.head? = some p) : next = some p := by
  cases walks with
  | missing | met => cases hp
  | pass => exact hp

/-- What is passed has not been met, and is met once. -/
theorem nodup (walks : Walks t seen next l) :
    (l.map (·.id)).Nodup ∧ ∀ s ∈ l, s.id ∉ seen := by
  induction walks with
  | missing | met => exact ⟨.nil, nofun⟩
  | @pass seen r l fresh _ ih =>
    obtain ⟨distinct, unmet⟩ := ih
    constructor
    · refine List.nodup_cons.mpr ⟨fun again => ?_, distinct⟩
      obtain ⟨s, hs, same⟩ := List.mem_map.mp again
      exact unmet s hs (same ▸ List.mem_cons_self)
    · intro s hs
      rcases List.mem_cons.mp hs with rfl | hs
      · exact fresh
      · exact fun old => unmet s hs (List.mem_cons_of_mem _ old)

/-- From each region the walk goes to its parent. -/
theorem isChain (walks : Walks t seen next l) :
    l.IsChain fun s p => s.parentIn t = some p := by
  induction walks with
  | missing | met => exact .nil
  | pass _ rest ih => exact List.isChain_cons.mpr ⟨fun p hp => rest.head?_eq hp, ih⟩

/-- The walk goes on from every parent that it has not met. -/
theorem met_of_getLast? (walks : Walks t seen next l) (last : l.getLast? = some s)
    (hp : s.parentIn t = some p) : p.id ∈ seen ∨ p.id ∈ l.map (·.id) := by
  induction walks with
  | missing | met => cases last
  | @pass seen r l _ rest ih =>
    cases l with
    | nil =>
      obtain rfl : r = s := Option.some.inj last
      rw [hp] at rest
      cases rest with
      | met old =>
        rcases List.mem_cons.mp old with same | old
        · exact .inr (same ▸ List.mem_cons_self)
        · exact .inl old
    | cons q l =>
      rw [List.getLast?_cons_cons] at last
      rw [List.map_cons, List.mem_cons]
      rcases ih last with old | new
      · exact (List.mem_cons.mp old).elim (.inr ∘ .inl) .inl
      · exact .inr (.inr new)

end Walks

/-! ## Steps enough -/

theorem mem_values_of_parentIn (hp : r.parentIn t = some p) : p ∈ t.values :=
  have ⟨id, _, found⟩ := Option.bind_eq_some_iff.mp hp
  Table.mem_values_iff.mpr ⟨id, found⟩

/-- The walk has steps enough if there are as many as ids that may still be met. -/
theorem walks_walk {ids : List RegionId} (known : ∀ s ∈ t.values, s.id ∈ ids) :
    ∀ (steps : Nat) {seen : List RegionId} {r : Region}, seen.Nodup → seen ⊆ ids → r.id ∈ ids →
      ids.length ≤ seen.length + steps → Walks t seen (some r) (walk t steps seen r) := by
  intro steps
  induction steps with
  | zero =>
    intro seen r nodup sub hr enough
    have all : seen.Perm ids := (nodup.subperm sub).perm_of_length_le enough
    exact .met (all.mem_iff.mpr hr)
  | succ steps ih =>
    intro seen r nodup sub hr enough
    by_cases old : r.id ∈ seen
    · rw [walk, if_pos (List.contains_iff_mem.mpr old)]
      exact .met old
    · rw [walk, if_neg (by simpa using old)]
      cases hp : r.parentIn t with
      | none => exact .pass old (hp ▸ .missing)
      | some p =>
        refine .pass old (hp ▸ ih (List.nodup_cons.mpr ⟨old, nodup⟩)
          (List.cons_subset.mpr ⟨hr, sub⟩) (known p (mem_values_of_parentIn hp)) ?_)
        rw [List.length_cons]
        omega

theorem walks_walk_of_size_lt {steps : Nat} (enough : t.size < steps) (r : Region) :
    Walks t [] (some r) (walk t steps [] r) := by
  have known : ∀ s ∈ t.values, s.id ∈ r.id :: t.values.map (·.id) := fun s hs =>
    List.mem_cons_of_mem _ (List.mem_map_of_mem hs)
  have count : (r.id :: t.values.map (·.id)).length = t.size + 1 := by
    rw [List.length_cons, List.length_map, Table.values, List.length_map, Table.size]
  refine walks_walk known steps .nil (List.nil_subset _) List.mem_cons_self ?_
  rw [count, List.length_nil, Nat.zero_add]
  exact enough

/-- The lineage of a region is what the walk from it passes. -/
theorem walks_lineage (t : RegionTable) (r : Region) : Walks t [] (some r) (r.lineage t) :=
  walks_walk_of_size_lt (Nat.lt_succ_self _) r

/-- The ancestors of a region are what the walk passes after it. -/
theorem walks_ancestors (t : RegionTable) (r : Region) :
    Walks t [r.id] (r.parentIn t) (r.ancestors t) := by
  have walks := walks_lineage t r
  rw [ancestors]
  generalize r.lineage t = l at walks
  cases walks with
  | met old => cases old
  | pass _ rest => exact rest

/-! ## Loops -/

/-- A loop over the walk, with what it comes to: its body runs at each region passed, and may leave
the loop there. -/
inductive Loops (t : RegionTable) {σ ε : Type} (body : σ → Region → Except ε σ) :
    List RegionId → Option Region → σ → Except ε σ → Prop
  | missing {seen : List RegionId} {s : σ} : Loops t body seen none s (.ok s)
  | met {seen : List RegionId} {r : Region} {s : σ} : r.id ∈ seen →
      Loops t body seen (some r) s (.ok s)
  | leave {seen : List RegionId} {r : Region} {s : σ} {e : ε} : r.id ∉ seen →
      body s r = .error e → Loops t body seen (some r) s (.error e)
  | pass {seen : List RegionId} {r : Region} {s s' : σ} {outcome : Except ε σ} : r.id ∉ seen →
      body s r = .ok s' → Loops t body (r.id :: seen) (r.parentIn t) s' outcome →
      Loops t body seen (some r) s outcome

/-- A loop over a walk that ends comes to what the body makes of the regions passed. -/
theorem Walks.loops {σ ε : Type} (walks : Walks t seen next l) (body : σ → Region → Except ε σ) :
    ∀ s : σ, Loops t body seen next s (l.foldlM body s) := by
  induction walks with
  | missing => exact fun _ => .missing
  | met old => exact fun _ => .met old
  | @pass seen r l fresh _ ih =>
    intro s
    rw [List.foldlM_cons]
    cases step : body s r with
    | error e => exact .leave fresh step
    | ok s' => exact .pass fresh step (ih s')

/-! ## What is walked -/

theorem length_walk_le (t : RegionTable) : ∀ (steps : Nat) (seen : List RegionId) (r : Region),
    (walk t steps seen r).length ≤ steps := by
  intro steps
  induction steps with
  | zero => exact fun _ _ => Nat.le_refl 0
  | succ steps ih =>
    intro seen r
    rw [walk]
    split
    · exact Nat.zero_le _
    · split
      · exact Nat.succ_le_succ (ih _ _)
      · exact Nat.succ_le_succ (Nat.zero_le _)

/-- The walk from a region ends, and its lineage is what it passes: the region first, each id once,
after each region its parent. It stops only where there is no parent, or an unknown one, or one of an
id passed before. -/
structure Walked (t : RegionTable) (r : Region) : Prop where
  ends : Walks t [] (some r) (r.lineage t)
  starts : (r.lineage t).head? = some r
  distinct : ((r.lineage t).map (·.id)).Nodup
  follows : (r.lineage t).IsChain fun s p => s.parentIn t = some p
  stops : ∃ s, (r.lineage t).getLast? = some s ∧
    (s.parent = none ∨ (∃ id, s.parent = some id ∧ t.get? id = none) ∨
      ∃ id p, s.parent = some id ∧ t.get? id = some p ∧ p.id ∈ (r.lineage t).map (·.id))
  short : (r.lineage t).length ≤ t.size + 1
  /-- More steps than the lineage is given make no difference. -/
  settled : ∀ steps, t.size < steps → walk t steps [] r = r.lineage t

theorem head?_lineage (t : RegionTable) (r : Region) : (r.lineage t).head? = some r := by
  have walks := walks_lineage t r
  generalize r.lineage t = l at walks
  cases walks with
  | met old => cases old
  | pass => rfl

theorem walked (t : RegionTable) (r : Region) : Walked t r := by
  have walks := walks_lineage t r
  refine ⟨walks, head?_lineage t r, walks.nodup.1, walks.isChain, ?_, length_walk_le t _ _ r,
    fun steps enough => (walks_walk_of_size_lt enough r).unique walks⟩
  obtain ⟨s, last⟩ : ∃ s, (r.lineage t).getLast? = some s := by
    refine Option.ne_none_iff_exists'.mp fun none => ?_
    have head := head?_lineage t r
    rw [List.getLast?_eq_none_iff.mp none] at head
    cases head
  refine ⟨s, last, ?_⟩
  cases parent : s.parent with
  | none => exact .inl rfl
  | some id =>
    cases found : t.get? id with
    | none => exact .inr (.inl ⟨id, rfl, found⟩)
    | some p =>
      have hp : s.parentIn t = some p := by rw [parentIn, parent, Option.bind_some, found]
      have met := (walks.met_of_getLast? last hp).resolve_left List.not_mem_nil
      exact .inr (.inr ⟨id, p, rfl, found, met⟩)

/-- A house that names itself as its parent, where a yard stands under its id: the walk passes both,
and stops where it would come to the yard again. -/
example : let house : RegionId := ⟨"house", by decide +kernel⟩
    let yard : Region :=
      { id := ⟨"yard", by decide +kernel⟩, shape := .everywhere, parent := some house }
    (lineage (.insert ∅ house yard) { id := house, shape := .everywhere, parent := some house }).map
      (·.id.text) = ["house", "yard"] := by
  decide +kernel

end Enclave.Region
