import Mathlib.Algebra.Order.Floor.Div
import Mathlib.Data.List.Perm.Basic
import Mathlib.Tactic.Ring
import Enclave.Index.Packing

/-!
# Tiling loses nothing

A round of packing fixes the sizes of its groups beforehand and then cuts three times: the items
into slabs along `x`, each slab into columns along `y`, each column into groups along `z`. Slabs and
columns are cut for runs of the sizes, and what is cut for a run is cut again by the sizes of just
that run. So each cut uses up what it is made of, to the last item (`Packing.Tiled`), and the groups
have exactly the sizes fixed and hold exactly the items (`Packing.DealtAs`), whatever the number of
slabs.

The sizes fixed for more items than a group may hold are as few and as even as can be: none is more
than the maximum, and none less than half of it (`Packing.tiles_evenly`).
-/

namespace Enclave.Packing

variable {α : Type} {count max size slabs : Nat} {sizes : List Nat}

/-! ## Sizes -/

/-- The number of groups for a number of items. -/
def groupCount (count max : Nat) : Nat := Nat.max (ceilDiv count max) 1

theorem one_le_groupCount (count max : Nat) : 1 ≤ groupCount count max := Nat.le_max_right _ _

theorem evenSizes_eq (count max : Nat) : evenSizes count max =
    List.replicate (count % groupCount count max) (count / groupCount count max + 1) ++
      List.replicate (groupCount count max - count % groupCount count max)
        (count / groupCount count max) := rfl

theorem length_evenSizes (count max : Nat) :
    (evenSizes count max).length = groupCount count max := by
  have := Nat.mod_lt count (one_le_groupCount count max)
  rw [evenSizes_eq, List.length_append, List.length_replicate, List.length_replicate]
  omega

theorem sum_evenSizes (count max : Nat) : (evenSizes count max).sum = count := by
  have lt := Nat.mod_lt count (one_le_groupCount count max)
  rw [evenSizes_eq]
  generalize groupCount count max = g at lt ⊢
  have quotient := Nat.div_add_mod count g
  rw [List.sum_append_nat, List.sum_replicate_nat, List.sum_replicate_nat]
  generalize count / g = q, count % g = r at *
  obtain ⟨d, rfl⟩ := Nat.exists_eq_add_of_le lt.le
  rw [Nat.add_sub_cancel_left, ← quotient]
  ring

theorem two_le_ceilDiv (pos : 0 < max) (tooMany : max < count) : 2 ≤ count ⌈/⌉ max :=
  (Nat.le_div_iff_mul_le pos).mpr (by omega)

/-- More items than one group may hold take as many groups as they need, and no group more. -/
theorem groupCount_eq (pos : 0 < max) (tooMany : max < count) :
    groupCount count max = count ⌈/⌉ max :=
  Nat.max_eq_left ((Nat.le_succ 1).trans (two_le_ceilDiv pos tooMany))

theorem groupCount_bounds (pos : 0 < max) (tooMany : max < count) :
    2 ≤ groupCount count max ∧ (groupCount count max - 1) * max < count ∧
      count ≤ groupCount count max * max := by
  rw [groupCount_eq pos tooMany]
  have two := two_le_ceilDiv pos tooMany
  refine ⟨two, ?_, ?_⟩
  · refine Nat.lt_of_not_le fun le => ?_
    rw [Nat.mul_comm] at le
    have := (ceilDiv_le_iff_le_mul pos).mpr le
    omega
  · rw [Nat.mul_comm]
    exact (ceilDiv_le_iff_le_mul pos).mp le_rfl

/-- A size is the number of items divided by that of the groups, rounded down or up. -/
theorem eq_or_eq_of_mem_evenSizes (h : size ∈ evenSizes count max) :
    size = count / groupCount count max ∨ size = count ⌈/⌉ groupCount count max := by
  rw [evenSizes_eq] at h
  rcases List.mem_append.mp h with h | h
  · obtain ⟨ne, rfl⟩ := List.mem_replicate.mp h
    have pos := one_le_groupCount count max
    generalize groupCount count max = g at ne pos ⊢
    have quotient := Nat.div_add_mod count g
    refine .inr (le_antisymm ?_ ((ceilDiv_le_iff_le_mul pos).mpr ?_))
    · refine Nat.lt_of_not_le fun le => ?_
      have := (ceilDiv_le_iff_le_mul pos).mp le
      omega
    · have := Nat.mod_lt count pos
      rw [Nat.mul_add_one]
      omega
  · exact .inl (List.eq_of_mem_replicate h)

/-- The sizes of the groups for more items than one group may hold: at most the maximum each, and at
least half of it, rounded up. -/
theorem mem_evenSizes (pos : 0 < max) (tooMany : max < count) (h : size ∈ evenSizes count max) :
    (max + 1) / 2 ≤ size ∧ size ≤ max := by
  obtain ⟨two, few, enough⟩ := groupCount_bounds pos tooMany
  have between := eq_or_eq_of_mem_evenSizes h
  generalize groupCount count max = g at *
  have pos' : 0 < g := by omega
  have half : (max + 1) / 2 ≤ count / g := by
    rw [Nat.le_div_iff_mul_le pos']
    have halves : (max + 1) / 2 * 2 ≤ max + 1 := Nat.div_mul_le_self _ 2
    have le : (max + 1) / 2 ≤ max := by omega
    obtain ⟨d, rfl⟩ := Nat.exists_eq_add_of_le two
    calc (max + 1) / 2 * (2 + d) = (max + 1) / 2 * 2 + (max + 1) / 2 * d := Nat.mul_add _ _ _
      _ ≤ max + 1 + max * d := Nat.add_le_add halves (Nat.mul_le_mul_right d le)
      _ = (2 + d - 1) * max + 1 := by rw [show 2 + d - 1 = d + 1 by omega]; ring
      _ ≤ count := few
  have down : count / g ≤ count ⌈/⌉ g := Nat.div_le_div_right (by omega)
  have up : count ⌈/⌉ g ≤ max := (ceilDiv_le_iff_le_mul pos').mpr enough
  rcases between with rfl | rfl
  · exact ⟨half, down.trans up⟩
  · exact ⟨half.trans down, up⟩

/-- The greater sizes come first. -/
example : evenSizes 17 16 = [9, 8] ∧ evenSizes 33 16 = [11, 11, 11] := by decide

/-! ## Cutting -/

/-- Pieces of the given sizes that use a list up: one after the other they are the list. -/
structure UsesUp (sizes : List Nat) (items : List α) (pieces : List (List α)) : Prop where
  sizes_eq : pieces.map List.length = sizes
  flatten_eq : pieces.flatten = items

/-- Sizes that add up to the length of a list cut it without a rest. -/
theorem cut_usesUp : ∀ {items : List α}, sizes.sum = items.length →
    UsesUp sizes items (cut sizes items) := by
  induction sizes with
  | nil =>
    intro items h
    rw [List.eq_nil_of_length_eq_zero h.symm]
    exact ⟨rfl, rfl⟩
  | cons size sizes ih =>
    intro items h
    rw [List.sum_cons] at h
    have count : (items.take size).length = size := by
      rw [List.length_take]
      omega
    have rest : UsesUp sizes (items.drop size) (cut sizes (items.drop size)) := ih (by
      rw [List.length_drop]
      omega)
    constructor
    · rw [cut, List.map_cons, count, rest.sizes_eq]
    · rw [cut, List.flatten_cons, rest.flatten_eq, List.take_append_drop]

theorem flatten_chunks (length : Nat) (items : List α) :
    (chunks length items).flatten = items := by
  fun_induction chunks length items with
  | case1 => rfl
  | case2 items ne ih => rw [List.flatten_cons, ih, List.take_append_drop]

theorem length_chunks_le {length : Nat} {items : List α} : ∀ {parts : Nat},
    items.length ≤ Nat.max length 1 * parts → (chunks length items).length ≤ parts := by
  fun_induction chunks length items with
  | case1 => exact fun _ => Nat.zero_le _
  | case2 items ne ih =>
    intro parts enough
    cases parts with
    | zero => exact absurd (List.eq_nil_of_length_eq_zero (Nat.le_zero.mp enough)) ne
    | succ parts =>
      rw [Nat.mul_add_one] at enough
      refine Nat.succ_le_succ (ih ?_)
      rw [List.length_drop]
      omega

/-- The runs have all the sizes, in their order. -/
theorem flatten_runs (parts : Nat) (sizes : List Nat) : (runs parts sizes).flatten = sizes :=
  flatten_chunks _ sizes

theorem length_runs_le (parts : Nat) (sizes : List Nat) :
    (runs parts sizes).length ≤ Nat.max parts 1 := by
  refine length_chunks_le ?_
  have pos : 0 < Nat.max parts 1 := Nat.le_max_right _ _
  have enough : sizes.length ≤ Nat.max parts 1 * (sizes.length ⌈/⌉ Nat.max parts 1) :=
    (ceilDiv_le_iff_le_mul pos).mp le_rfl
  rw [Nat.mul_comm] at enough
  exact enough.trans (Nat.mul_le_mul_right _ (Nat.le_max_left _ _))

theorem share_eq (runs : List (List Nat)) (items : List α) :
    share runs items = runs.zip (cut (runs.map List.sum) items) := rfl

/-- Runs of sizes that add up to the length of a list are each given a piece of it, and the pieces
use it up. -/
theorem share_usesUp {runs : List (List Nat)} {items : List α}
    (h : runs.flatten.sum = items.length) : (share runs items).map (·.1) = runs ∧
      UsesUp (runs.map List.sum) items ((share runs items).map (·.2)) := by
  have used : UsesUp (runs.map List.sum) items (cut (runs.map List.sum) items) :=
    cut_usesUp (by rw [← h, List.sum_flatten])
  have count : (cut (runs.map List.sum) items).length = runs.length := by
    rw [← List.length_map List.length, used.sizes_eq, List.length_map]
  rw [share_eq]
  exact ⟨List.map_fst_zip count.ge, (List.map_snd_zip count.le).symm ▸ used⟩

/-! ## Dealing -/

/-- Items dealt to groups of the given sizes: each group has its size, and together they have the
items. -/
structure DealtAs (sizes : List Nat) (items : List α) (groups : List (List α)) : Prop where
  sizes_eq : groups.map List.length = sizes
  perm : groups.flatten.Perm items

namespace DealtAs

variable {items group : List α} {groups : List (List α)} (dealt : DealtAs sizes items groups)
include dealt

theorem length_eq : groups.length = sizes.length := by
  rw [← dealt.sizes_eq, List.length_map]

theorem length_mem (h : group ∈ groups) : group.length ∈ sizes :=
  dealt.sizes_eq ▸ List.mem_map_of_mem h

end DealtAs

/-! ## Slices -/

/-- A run of sizes, the items that are cut off for it, and the groups made of them. -/
structure Slice (α : Type) where
  sizes : List Nat
  items : List (Boxed α)
  groups : List (List (Boxed α))

/-- Items in the order of an axis, cut into slices for the runs of the sizes. The slices use them
up, and each has as many as the sizes of its run come to; `Deals` says how its groups are made of
them. -/
structure Slices (axis : Point Float → Float) (slabs : Nat)
    (Deals : List Nat → List (Boxed α) → List (List (Boxed α)) → Prop)
    (sizes : List Nat) (items : List (Boxed α)) (slices : List (Slice α)) : Prop where
  runs_eq : slices.map (·.sizes) = runs slabs sizes
  few : slices.length ≤ Nat.max slabs 1
  usesUp : UsesUp (slices.map (·.sizes.sum)) (sortAlong axis items) (slices.map (·.items))
  deals : ∀ s ∈ slices, Deals s.sizes s.items s.groups

/-- The groups of some slices, one slice after the other. -/
def Sliced (axis : Point Float → Float) (slabs : Nat)
    (Deals : List Nat → List (Boxed α) → List (List (Boxed α)) → Prop)
    (sizes : List Nat) (items : List (Boxed α)) (groups : List (List (Boxed α))) : Prop :=
  ∃ slices, Slices axis slabs Deals sizes items slices ∧ slices.flatMap (·.groups) = groups

/-- The items sliced into slabs, each slab into columns, and each column used up by its groups. -/
def Tiled (slabs : Nat) : List Nat → List (Boxed α) → List (List (Boxed α)) → Prop :=
  Sliced (·.x) slabs <| Sliced (·.y) slabs fun sizes items groups =>
    UsesUp sizes (sortAlong (·.z) items) groups

theorem sortAlong_perm (axis : Point Float → Float) (items : List (Boxed α)) :
    (sortAlong axis items).Perm items := List.mergeSort_perm _ _

section Slicing

variable {axis : Point Float → Float} {items : List (Boxed α)} {groups : List (List (Boxed α))}
  {Deals : List Nat → List (Boxed α) → List (List (Boxed α)) → Prop}

/-- Shares along an axis are slices, if what is done with each share deals it. -/
theorem sliced_share {deal : List Nat → List (Boxed α) → List (List (Boxed α))}
    (each : ∀ sizes items, sizes.sum = items.length → Deals sizes items (deal sizes items))
    (h : sizes.sum = items.length) : Sliced axis slabs Deals sizes items
      ((share (runs slabs sizes) (sortAlong axis items)).flatMap fun s => deal s.1 s.2) := by
  have count : (runs slabs sizes).flatten.sum = (sortAlong axis items).length := by
    rw [flatten_runs, h, (sortAlong_perm axis items).length_eq]
  obtain ⟨runs_eq, used⟩ := share_usesUp count
  generalize share (runs slabs sizes) (sortAlong axis items) = shares at runs_eq used ⊢
  have full : ∀ s ∈ shares, s.1.sum = s.2.length := by
    have sizes_eq := used.sizes_eq
    rw [← runs_eq, List.map_map, List.map_map] at sizes_eq
    exact fun s hs => (List.map_inj_left.mp sizes_eq s hs).symm
  refine ⟨shares.map fun s => ⟨s.1, s.2, deal s.1 s.2⟩, ?_, List.flatMap_map _ _ _⟩
  constructor
  · rw [List.map_map]
    exact runs_eq
  · rw [List.length_map, ← List.length_map (·.1), runs_eq]
    exact length_runs_le slabs sizes
  · rw [← runs_eq, List.map_map] at used
    rw [List.map_map, List.map_map]
    exact used
  · intro slice hslice
    obtain ⟨s, hs, rfl⟩ := List.mem_map.mp hslice
    exact each s.1 s.2 (full s hs)

/-- The groups of slices are dealt as a whole if those of each slice are. -/
theorem Sliced.dealtAs (sliced : Sliced axis slabs Deals sizes items groups)
    (each : ∀ {sizes items groups}, Deals sizes items groups → DealtAs sizes items groups) :
    DealtAs sizes items groups := by
  obtain ⟨slices, cut, rfl⟩ := sliced
  have dealt : ∀ s ∈ slices, DealtAs s.sizes s.items s.groups := fun s hs =>
    each (cut.deals s hs)
  constructor
  · calc (slices.flatMap (·.groups)).map List.length
        = slices.flatMap fun s => s.groups.map List.length := List.map_flatMap
      _ = slices.flatMap (·.sizes) := List.flatMap_congr fun s hs => (dealt s hs).sizes_eq
      _ = sizes := by rw [List.flatMap_def, cut.runs_eq, flatten_runs]
  · calc (slices.flatMap (·.groups)).flatten
        = slices.flatMap fun s => s.groups.flatten := by
          simp only [List.flatten_eq_flatMap, List.flatMap_assoc]
      _ |>.Perm (slices.flatMap (·.items)) := .flatMap_left _ fun s hs => (dealt s hs).perm
      _ = sortAlong axis items := cut.usesUp.flatten_eq
      _ |>.Perm items := sortAlong_perm axis items

/-- Tiling uses up the items, the slabs and the columns, whatever the number of slabs. -/
theorem tiled_tile (slabs : Nat) (h : sizes.sum = items.length) :
    Tiled slabs sizes items (tile slabs sizes items) :=
  sliced_share (fun _ _ slab => sliced_share (fun _ column h =>
    cut_usesUp (h.trans (sortAlong_perm (·.z) column).length_eq.symm)) slab) h

/-- So the items are dealt. -/
theorem Tiled.dealtAs (tiled : Tiled slabs sizes items groups) : DealtAs sizes items groups := by
  refine Sliced.dealtAs tiled fun slab => slab.dealtAs fun {_ column _} used => ?_
  exact ⟨used.sizes_eq, .trans (.of_eq used.flatten_eq) (sortAlong_perm (·.z) column)⟩

theorem tile_dealtAs (slabs : Nat) (h : sizes.sum = items.length) :
    DealtAs sizes items (tile slabs sizes items) :=
  (tiled_tile slabs h).dealtAs

end Slicing

/-! ## Even groups -/

/-- Items tiled into groups of at most `max`: into as few as can be, each with its even share of the
items. -/
structure TilesEvenly (max slabs : Nat) (items : List (Boxed α))
    (groups : List (List (Boxed α))) : Prop where
  count : groups.length = items.length ⌈/⌉ max
  perm : groups.flatten.Perm items
  /-- The sizes are those fixed beforehand, in their order. -/
  sizes_eq : groups.map List.length = evenSizes items.length max
  /-- A share is rounded down or up. -/
  even : ∀ group ∈ groups, group.length = items.length / groups.length ∨
    group.length = items.length ⌈/⌉ groups.length
  bounded : ∀ group ∈ groups, (max + 1) / 2 ≤ group.length ∧ group.length ≤ max
  /-- No slab and no column has items left over, and none has too few. -/
  tiled : Tiled slabs (evenSizes items.length max) items groups

/-- More items than a group may hold are tiled evenly, with any number of slabs, and so with the
number that packing takes. -/
theorem tiles_evenly [Platform] {items : List (Boxed α)} (pos : 0 < max)
    (tooMany : max < items.length) :
    (∀ slabs, TilesEvenly max slabs items (tile slabs (evenSizes items.length max) items)) ∧
      ∃ slabs, 0 < slabs ∧ TilesEvenly max slabs items (pack max items) := by
  have each : ∀ slabs,
      TilesEvenly max slabs items (tile slabs (evenSizes items.length max) items) := fun slabs => by
    have tiled := tiled_tile slabs (sum_evenSizes items.length max)
    have dealt := tiled.dealtAs
    have count := dealt.length_eq.trans (length_evenSizes items.length max)
    refine ⟨count.trans (groupCount_eq pos tooMany), dealt.perm, dealt.sizes_eq, fun group h => ?_,
      fun group h => mem_evenSizes pos tooMany (dealt.length_mem h), tiled⟩
    rw [count]
    exact eq_or_eq_of_mem_evenSizes (dealt.length_mem h)
  exact ⟨each, slabCount (evenSizes items.length max).length, Nat.le_max_right _ _, each _⟩

/-- Seventeen items, of which a group may hold four, make five groups, two of four and three of
three. Two slabs are cut for them, of eleven items and of six, and two columns from each slab. -/
theorem tiles_evenly_of_seventeen_items : letI := Platform.reference
    ∃ items : List (Boxed Nat), 0 < 4 ∧ 4 < items.length ∧
    evenSizes items.length 4 = [4, 4, 3, 3, 3] ∧ slabCount 5 = 2 ∧
    (runs 2 [4, 4, 3, 3, 3]).map (runs 2) = [[[4, 4], [3]], [[3], [3]]] ∧
    (∀ slabs, TilesEvenly 4 slabs items (tile slabs (evenSizes items.length 4) items)) ∧
    ∃ slabs, 0 < slabs ∧ TilesEvenly 4 slabs items (pack 4 items) := by
  let := Platform.reference
  let items : List (Boxed Nat) := (List.range 17).map fun k =>
    ⟨.ofPoint ⟨(7 * k % 17).toFloat, (5 * k % 17).toFloat, (3 * k % 17).toFloat⟩, k⟩
  have pos : 0 < 4 := by decide
  have tooMany : 4 < items.length := by decide
  exact ⟨items, pos, tooMany, by decide, by decide, by decide +kernel, tiles_evenly pos tooMany⟩

end Enclave.Packing
