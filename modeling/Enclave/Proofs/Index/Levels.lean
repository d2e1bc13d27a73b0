import Mathlib.Algebra.Order.BigOperators.Group.List
import Mathlib.Algebra.Order.Floor.Div
import Mathlib.Order.Bounds.Defs
import Enclave.Proofs.Index.Tree

/-!
# Packing makes as few nodes as can be

A node of one level is an item of the level above, so the sizes of the nodes of a level add up to
the number of nodes on the level below (`Node.sum_sizesAt_succ`), and the number of keys and the
greatest size bound the number of nodes of every level from below (`Root.Fits.levelCount_le`).

Packing meets the bound on each level: it is told the sizes of the nodes beforehand, and deals them
out exactly. Each round keeps that of the levels made so far (`Packing.Laid.above`), whatever the
number of slabs that it cuts the items into (`Packing.Builds`). So a packed index is as low as an
index of its size can be, and as even (`RTree.packed_ofList`).
-/

namespace Enclave

variable {κ : Type} {count max n k : Nat}

/-! ## Levels -/

namespace Node

/-- The sizes of the nodes of a level, at and below the given node. -/
def sizesAt (level : Nat) : {n : Nat} → Node κ n → List Nat
  | 0, (entries : List (Boxed κ)) => if level = 0 then [entries.length] else []
  | n + 1, (children : List (Boxed (Node κ n))) =>
    if level = n + 1 then [children.length] else children.flatMap fun c => c.item.sizesAt level

theorem sizesAt_self : ∀ {n : Nat} (node : Node κ n), node.sizesAt n = [node.size]
  | 0, _ => rfl
  | _ + 1, _ => if_pos rfl

theorem sizesAt_branch (le : k ≤ n) (children : List (Boxed (Node κ n))) :
    (branch children).sizesAt k = children.flatMap fun c => c.item.sizesAt k :=
  if_neg (Nat.ne_of_lt (Nat.lt_succ_of_le le))

theorem sizesAt_eq_nil : ∀ {n : Nat}, n < k → ∀ node : Node κ n, node.sizesAt k = [] := by
  intro n
  induction n with
  | zero => exact fun lt _ => if_neg (Nat.ne_of_gt lt)
  | succ n ih =>
    intro lt (children : List (Boxed (Node κ n)))
    refine (if_neg (Nat.ne_of_gt lt)).trans (List.flatMap_eq_nil_iff.mpr fun c _ => ?_)
    exact ih (Nat.lt_of_succ_lt lt) c.item

theorem sum_sizesAt_branch (le : k ≤ n) (children : List (Boxed (Node κ n))) :
    ((branch children).sizesAt k).sum = (children.map fun c => (c.item.sizesAt k).sum).sum := by
  rw [sizesAt_branch le, List.flatMap, List.sum_flatten, List.map_map]
  rfl

theorem length_sizesAt_branch (le : k ≤ n) (children : List (Boxed (Node κ n))) :
    ((branch children).sizesAt k).length =
      (children.map fun c => (c.item.sizesAt k).length).sum := by
  rw [sizesAt_branch le, List.length_flatMap]

theorem sum_sizesAt_zero : ∀ {n : Nat} (node : Node κ n),
    (node.sizesAt 0).sum = node.entries.length := by
  intro n
  induction n with
  | zero => exact fun _ => Nat.add_zero _
  | succ n ih =>
    intro (children : List (Boxed (Node κ n)))
    show ((branch children).sizesAt 0).sum = (children.flatMap fun c => c.item.entries).length
    rw [sum_sizesAt_branch n.zero_le, List.length_flatMap]
    simp only [ih]

/-- The nodes of a level are the items of the level above. -/
theorem sum_sizesAt_succ : ∀ {n : Nat}, k < n → ∀ node : Node κ n,
    (node.sizesAt (k + 1)).sum = (node.sizesAt k).length := by
  intro n
  induction n with
  | zero => exact fun lt => absurd lt (Nat.not_lt_zero _)
  | succ n ih =>
    intro lt (children : List (Boxed (Node κ n)))
    show ((branch children).sizesAt (k + 1)).sum = ((branch children).sizesAt k).length
    rw [length_sizesAt_branch (Nat.le_of_lt_succ lt)]
    rcases Nat.eq_or_lt_of_le (Nat.le_of_lt_succ lt) with rfl | below
    · rw [sizesAt_self]
      simp [sizesAt_self, size, branch]
    · rw [sum_sizesAt_branch below]
      simp only [ih below]

end Node

/-! ## How many nodes a level needs -/

namespace Packing

/-- How many nodes of the given size a level needs, if every level below has no more than it
needs. -/
def levelCount (count max : Nat) : (level : Nat) → Nat
  | 0 => count ⌈/⌉ max
  | level + 1 => levelCount count max level ⌈/⌉ max

theorem levelCount_le_iff (pos : 0 < max) : ∀ {c : Nat},
    levelCount count max k ≤ c ↔ count ≤ max ^ (k + 1) * c := by
  induction k with
  | zero =>
    intro c
    rw [levelCount, ceilDiv_le_iff_le_mul pos, Nat.pow_one]
  | succ k ih =>
    intro c
    rw [levelCount, ceilDiv_le_iff_le_mul pos, ih, ← Nat.mul_assoc, ← Nat.pow_succ]

/-- One node is enough where the items fit the power that a node of the level can have below it. -/
theorem levelCount_le_one_iff (pos : 0 < max) :
    levelCount count max k ≤ 1 ↔ count ≤ max ^ (k + 1) := by
  rw [levelCount_le_iff pos, Nat.mul_one]

end Packing

open Packing (levelCount levelCount_le_one_iff)

/-- No node at or below the root is greater than `max`. -/
def Root.Fits (max : Nat) (r : Root κ) : Prop := ∀ k, ∀ size ∈ r.node.sizesAt k, size ≤ max

namespace Root.Fits

variable {r : Root κ}

/-- A level holds no more than `max` for each of its nodes. -/
theorem sum_le (fits : r.Fits max) (k : Nat) :
    (r.node.sizesAt k).sum ≤ max * (r.node.sizesAt k).length := by
  have := List.sum_le_card_nsmul (r.node.sizesAt k) max (fits k)
  rwa [smul_eq_mul, Nat.mul_comm] at this

/-- No level makes do with fewer nodes than it needs. -/
theorem levelCount_le (fits : r.Fits max) (pos : 0 < max) : k ≤ r.level →
    levelCount r.node.entries.length max k ≤ (r.node.sizesAt k).length := by
  induction k with
  | zero =>
    intro _
    rw [levelCount, ceilDiv_le_iff_le_mul pos, ← Node.sum_sizesAt_zero]
    exact fits.sum_le 0
  | succ k ih =>
    intro le
    rw [levelCount, ceilDiv_le_iff_le_mul pos]
    refine (ih (Nat.le_of_succ_le le)).trans ?_
    rw [← Node.sum_sizesAt_succ le]
    exact fits.sum_le (k + 1)

/-- A root of some height holds no more than the power of `max` with the height as its exponent. -/
theorem length_entries_le (fits : r.Fits max) (pos : 0 < max) :
    r.node.entries.length ≤ max ^ (r.level + 1) := by
  have root := fits.levelCount_le pos (Nat.le_refl r.level)
  rw [Node.sizesAt_self, List.length_singleton] at root
  exact (levelCount_le_one_iff pos).mp root

end Root.Fits

/-! ## What packing makes -/

namespace Packing

/-- Any two of the sizes differ by one at most. -/
def Balanced (sizes : List Nat) : Prop := ∀ a ∈ sizes, ∀ b ∈ sizes, a ≤ b + 1

/-- So many balanced sizes of at most `max`. -/
structure Sized (max groups : Nat) (sizes : List Nat) : Prop where
  length_eq : sizes.length = groups
  balanced : Balanced sizes
  le_max : ∀ size ∈ sizes, size ≤ max

theorem Sized.of_perm {groups : Nat} {sizes sizes' : List Nat} (sized : Sized max groups sizes)
    (perm : sizes'.Perm sizes) : Sized max groups sizes' where
  length_eq := perm.length_eq.trans sized.length_eq
  balanced a ha b hb := sized.balanced a (perm.mem_iff.mp ha) b (perm.mem_iff.mp hb)
  le_max size h := sized.le_max size (perm.mem_iff.mp h)

theorem sized_singleton (some : 0 < count) (fits : count ≤ max) :
    Sized max (count ⌈/⌉ max) [count] where
  length_eq := by
    have pos : 0 < max := some.trans_le fits
    have one : count ⌈/⌉ max ≤ 1 := (ceilDiv_le_iff_le_mul pos).mpr (by omega)
    have more : ¬ count ⌈/⌉ max ≤ 0 := fun le => by
      have := (ceilDiv_le_iff_le_mul pos).mp le
      omega
    rw [List.length_singleton]
    omega
  balanced a ha b hb := by
    rw [List.mem_singleton.mp ha, List.mem_singleton.mp hb]
    exact Nat.le_succ count
  le_max size h := List.mem_singleton.mp h ▸ fits

theorem sized_evenSizes (pos : 0 < max) (tooMany : max < count) :
    Sized max (count ⌈/⌉ max) (evenSizes count max) where
  length_eq := (length_evenSizes count max).trans (groupCount_eq pos tooMany)
  balanced a ha b hb := by
    have size : ∀ s ∈ evenSizes count max, s = count / groupCount count max + 1 ∨
        s = count / groupCount count max := fun s hs => by
      rw [evenSizes_eq] at hs
      exact (List.mem_append.mp hs).imp List.eq_of_mem_replicate List.eq_of_mem_replicate
    have := size a ha
    have := size b hb
    omega
  le_max size h := (mem_evenSizes pos tooMany h).2

/-- On each level of the nodes there are as many nodes as `count` keys need, and they are balanced;
below the last level there is none with a single node. -/
structure Laid (max count : Nat) (nodes : List (Node κ n)) : Prop where
  total : (nodes.flatMap (·.sizesAt 0)).sum = count
  levels : ∀ k ≤ n, Sized max (levelCount count max k) (nodes.flatMap (·.sizesAt k))
  many : ∀ k < n, 2 ≤ levelCount count max k

theorem flatMap_sizesAt_self (nodes : List (Node κ n)) :
    nodes.flatMap (·.sizesAt n) = nodes.map Node.size := by
  rw [List.map_eq_flatMap]
  simp only [Node.sizesAt_self]

theorem Laid.length_eq {nodes : List (Node κ n)} (laid : Laid max count nodes) :
    nodes.length = levelCount count max n := by
  rw [← (laid.levels n (Nat.le_refl n)).length_eq, flatMap_sizesAt_self, List.length_map]

/-- Groups of keys make leaves. -/
theorem laid_leaves {sizes : List Nat} {entries : List (Boxed κ)}
    {groups : List (List (Boxed κ))} (dealt : DealtAs sizes entries groups)
    (sized : Sized max (entries.length ⌈/⌉ max) sizes) :
    Laid max entries.length (groups.map Node.leaf) := by
  have bottom : (groups.map Node.leaf).flatMap (·.sizesAt 0) = groups.map List.length := by
    rw [flatMap_sizesAt_self, List.map_map]
    rfl
  refine ⟨?_, fun k le => ?_, fun k lt => absurd lt (Nat.not_lt_zero k)⟩
  · rw [bottom, ← List.length_flatten, dealt.perm.length_eq]
  · obtain rfl := Nat.le_zero.mp le
    rw [bottom, dealt.sizes_eq]
    exact sized

/-- Groups of nodes make the nodes of the next level, and leave the levels below as they are. -/
theorem Laid.above {nodes : List (Node κ n)} (laid : Laid max count nodes)
    (two : 2 ≤ nodes.length) {sizes : List Nat} {groups : List (List (Boxed (Node κ n)))}
    (dealt : DealtAs sizes (nodes.map Node.boxed) groups)
    (sized : Sized max (nodes.length ⌈/⌉ max) sizes) :
    Laid max count (groups.map Node.branch) := by
  have top : (groups.map Node.branch).flatMap (·.sizesAt (n + 1)) = sizes := by
    rw [flatMap_sizesAt_self, List.map_map]
    exact dealt.sizes_eq
  have below : ∀ k ≤ n, ((groups.map Node.branch).flatMap (·.sizesAt k)).Perm
      (nodes.flatMap (·.sizesAt k)) := fun k le => by
    have perm := dealt.perm.flatMap_right (·.item.sizesAt k)
    rw [List.flatten_eq_flatMap, List.flatMap_assoc, List.flatMap_map] at perm
    rw [List.flatMap_map]
    simp only [Node.sizesAt_branch le]
    exact perm
  refine ⟨(below 0 n.zero_le).sum_nat.trans laid.total, fun k le => ?_, fun k lt => ?_⟩
  · rcases Nat.eq_or_lt_of_le le with rfl | lt
    · rw [top, levelCount, ← laid.length_eq]
      exact sized
    · have le := Nat.le_of_lt_succ lt
      exact (laid.levels k le).of_perm (below k le)
  · rcases Nat.eq_or_lt_of_le (Nat.le_of_lt_succ lt) with rfl | lt
    · exact two.trans_eq laid.length_eq
    · exact laid.many k lt

/-- All items in one group. -/
theorem dealtAs_singleton {α : Type} (items : List α) : DealtAs [items.length] items [items] :=
  ⟨rfl, .of_eq (List.append_nil items)⟩

/-! ## Any number of slabs -/

/-- The groups of a tiling into the planned sizes, with some number of slabs. -/
def Tiles {α : Type} (max : Nat) (items : List (Boxed α)) (groups : List (List (Boxed α))) : Prop :=
  ∃ slabs, groups = tile slabs (evenSizes items.length max) items

theorem tiles_pack [Platform] {α : Type} (max : Nat) (items : List (Boxed α)) :
    Tiles max items (pack max items) := ⟨_, rfl⟩

theorem Tiles.dealtAs {α : Type} {items : List (Boxed α)} {groups : List (List (Boxed α))}
    (tiles : Tiles max items groups) : DealtAs (evenSizes items.length max) items groups := by
  obtain ⟨slabs, rfl⟩ := tiles
  exact tile_dealtAs slabs (sum_evenSizes items.length max)

/-- The trunk over the nodes of a level, if they are packed with some number of slabs in each
round. -/
inductive Stacks (max : Nat) : {n : Nat} → Nat → List (Node κ n) → Trunk κ → Prop
  | close {n height : Nat} {nodes : List (Node κ n)} : nodes.length ≤ max →
      Stacks max height nodes (close height nodes)
  | round {n height : Nat} {nodes : List (Node κ n)} {groups : List (List (Boxed (Node κ n)))}
      {s : Trunk κ} : max < nodes.length → Tiles max (nodes.map Node.boxed) groups →
      Stacks max (height + 1) (groups.map Node.branch) s → Stacks max height nodes s

/-- The trunk over the entries, if they are packed with some number of slabs in each round. -/
inductive Builds (max : Nat) (entries : List (Boxed κ)) : Trunk κ → Prop
  | leaf : entries.length ≤ max → Builds max entries ⟨⟨0, .leaf entries⟩, 1⟩
  | levels {groups : List (List (Boxed κ))} {s : Trunk κ} : max < entries.length →
      Tiles max entries groups → Stacks max 1 (groups.map Node.leaf) s → Builds max entries s

theorem stacks_stack [Platform] {f : Fanout} (usable : f.Usable) : ∀ (rounds : Nat)
    {n height : Nat} {nodes : List (Node κ n)}, nodes.length ≤ rounds →
      Stacks f.max height nodes (stack f.max rounds height nodes) := by
  intro rounds
  induction rounds with
  | zero =>
    intro n height nodes le
    exact .close (le.trans (Nat.zero_le _))
  | succ rounds ih =>
    intro n height nodes le
    rw [stack]
    split
    next fits => exact .close fits
    next tooMany =>
      have tooMany := Nat.not_le.mp tooMany
      refine .round tooMany (tiles_pack f.max _) (ih ?_)
      have fewer := (length_pack_bounds usable ((List.length_map Node.boxed).symm ▸ tooMany)).2
      rw [List.length_map] at fewer ⊢
      omega

theorem builds_build [Platform] {f : Fanout} (usable : f.Usable) (entries : List (Boxed κ)) :
    Builds f.max entries (build f.max entries) := by
  rw [build]
  split
  next fits => exact .leaf fits
  next tooMany =>
    have tooMany := Nat.not_le.mp tooMany
    refine .levels tooMany (tiles_pack f.max entries) (stacks_stack usable entries.length ?_)
    rw [List.length_map]
    exact (length_pack_bounds usable tooMany).2.le

theorem Tiles.two_le_length {α : Type} {items : List (Boxed α)} {groups : List (List (Boxed α))}
    (tiles : Tiles max items groups) (pos : 0 < max) (tooMany : max < items.length) :
    2 ≤ groups.length := by
  rw [tiles.dealtAs.length_eq, length_evenSizes]
  exact (groupCount_bounds pos tooMany).1

/-- Rounds of packing, and the root, keep levels laid; one is counted for each. -/
theorem Stacks.laid {height : Nat} {nodes : List (Node κ n)} {s : Trunk κ}
    (stacked : Stacks max height nodes s) (pos : 0 < max) : Laid max count nodes →
      2 ≤ nodes.length → height = n + 1 →
      Laid max count [s.root.node] ∧ s.height = s.root.level + 1 := by
  induction stacked with
  | @close n height nodes fits =>
    intro laid two counted
    have dealt := dealtAs_singleton (nodes.map Node.boxed)
    rw [List.length_map] at dealt
    rw [close_eq_of_two_le height two]
    exact ⟨laid.above two dealt (sized_singleton (Nat.zero_lt_of_lt two) fits),
      congrArg (· + 1) counted⟩
  | @round n height nodes groups s tooMany tiles _ ih =>
    intro laid two counted
    have dealt := tiles.dealtAs
    rw [List.length_map] at dealt
    refine ih (laid.above two dealt (sized_evenSizes pos tooMany)) ?_ (congrArg (· + 1) counted)
    rw [List.length_map]
    exact tiles.two_le_length pos ((List.length_map Node.boxed).symm ▸ tooMany)

/-- Packing makes as few nodes as can be, on every level, and balanced ones; and it counts the levels
that it makes. -/
theorem Builds.laid {entries : List (Boxed κ)} {s : Trunk κ} (builds : Builds max entries s)
    (pos : 0 < max) (some : entries ≠ []) :
    Laid max entries.length [s.root.node] ∧ s.height = s.root.level + 1 := by
  cases builds with
  | leaf fits =>
    have single := sized_singleton (List.length_pos_iff.mpr some) fits
    exact ⟨laid_leaves (dealtAs_singleton entries) single, rfl⟩
  | levels tooMany tiles stacked =>
    refine stacked.laid pos (laid_leaves tiles.dealtAs (sized_evenSizes pos tooMany)) ?_ rfl
    rw [List.length_map]
    exact tiles.two_le_length pos tooMany

/-! ## The root -/

namespace Laid

variable {r : Root κ} (laid : Laid max count [r.node])
include laid

theorem sized_root (le : k ≤ r.level) :
    Sized max (levelCount count max k) (r.node.sizesAt k) := by
  have := laid.levels k le
  rwa [List.flatMap_singleton] at this

/-- Above the root there are no nodes, and so no uneven ones. -/
theorem exists_sized_root (k : Nat) : ∃ groups, Sized max groups (r.node.sizesAt k) := by
  rcases Nat.lt_or_ge r.level k with above | le
  · rw [Node.sizesAt_eq_nil above]
    exact ⟨0, rfl, nofun, nofun⟩
  · exact ⟨_, laid.sized_root le⟩

theorem fits_root : r.Fits max := fun k => (laid.exists_sized_root k).elim fun _ h => h.le_max

theorem balanced_root (k : Nat) : Balanced (r.node.sizesAt k) :=
  (laid.exists_sized_root k).elim fun _ h => h.balanced

theorem length_entries_root : r.node.entries.length = count := by
  have total := laid.total
  rwa [List.flatMap_singleton, Node.sum_sizesAt_zero] at total

theorem isLeast_height (pos : 0 < max) : IsLeast {h | 1 ≤ h ∧ count ≤ max ^ h} (r.level + 1) := by
  have capacity := laid.fits_root.length_entries_le pos
  rw [laid.length_entries_root] at capacity
  refine ⟨⟨Nat.succ_pos _, capacity⟩, ?_⟩
  rintro h ⟨one, enough⟩
  by_contra lower
  -- Where a root of that height would stand, there are two nodes.
  obtain ⟨k, rfl⟩ := Nat.exists_eq_succ_of_ne_zero (Nat.ne_of_gt one)
  have two := laid.many k (Nat.lt_of_succ_lt_succ (Nat.not_le.mp lower))
  have single := (levelCount_le_one_iff pos).mpr enough
  omega

end Laid

end Packing

open Packing (Balanced Builds Laid)

/-! ## Packed indexes -/

namespace RTree

variable [Ord κ]

/-- The index is as low as can be, has as few nodes on each level as can be, and nodes of one level
hold the same up to one. -/
structure Packed (t : RTree κ) : Prop where
  counted : t.height = t.root.level + 1
  height : IsLeast {h | 1 ≤ h ∧ t.size ≤ t.fanout.max ^ h} t.height
  leaves : (t.root.node.sizesAt 0).length = t.size ⌈/⌉ t.fanout.max
  above : ∀ k, k + 1 < t.height → (t.root.node.sizesAt (k + 1)).length =
    (t.root.node.sizesAt k).length ⌈/⌉ t.fanout.max
  fits : t.root.Fits t.fanout.max
  /-- No other nodes over as many keys are lower, or fewer on any level. -/
  fewest : ∀ r : Root κ, r.Fits t.fanout.max → r.node.entries.length = t.size →
    t.height ≤ r.level + 1 ∧ ∀ k, (t.root.node.sizesAt k).length ≤ (r.node.sizesAt k).length
  balanced : ∀ k, Balanced (t.root.node.sizesAt k)

theorem packed_of_laid {t : RTree κ} (pos : 0 < t.fanout.max)
    (laid : Laid t.fanout.max t.size [t.root.node]) (counted : t.height = t.root.level + 1) :
    t.Packed := by
  have height := laid.isLeast_height pos
  rw [← counted] at height
  refine ⟨counted, height, ?_, fun k lt => ?_, laid.fits_root, fun r fits same => ?_,
    laid.balanced_root⟩
  · rw [(laid.sized_root (Nat.zero_le _)).length_eq, levelCount]
  · have le : k + 1 ≤ t.root.level := by omega
    rw [(laid.sized_root le).length_eq, (laid.sized_root (Nat.le_of_succ_le le)).length_eq,
      levelCount]
  · have capacity := fits.length_entries_le pos
    rw [same] at capacity
    have lower : t.height ≤ r.level + 1 := height.2 ⟨Nat.succ_pos _, capacity⟩
    refine ⟨lower, fun k => ?_⟩
    rcases Nat.lt_or_ge t.root.level k with above | le
    · rw [Node.sizesAt_eq_nil above]
      exact Nat.zero_le _
    · rw [(laid.sized_root le).length_eq, ← same]
      exact fits.levelCount_le pos (by omega)

variable [Std.TransOrd κ] [ToString κ]

theorem trunk_of_ofList [Platform] {f : Fanout} {items : List (κ × Box Float)} {t : RTree κ}
    (h : ofList f items = .ok t) :
    t.fanout = f ∧ t.trunk = Packing.build f.max (items.map fun i => ⟨i.2, i.1⟩) := by
  obtain ⟨start, made, h⟩ := bind_eq_ok_iff.mp h
  obtain ⟨-, rfl⟩ := make_eq_ok_iff.mp made
  obtain ⟨boxes, -, h⟩ := bind_eq_ok_iff.mp h
  obtain rfl := pure_eq_ok_iff.mp h
  exact ⟨rfl, rfl⟩

variable [Std.LawfulEqOrd κ]

/-- Different keys with valid boxes are packed, and into an index that is packed; so it would be with
any other number of slabs. -/
theorem packed_ofList [Platform] {f : Fanout} {items : List (κ × Box Float)} (usable : f.Usable)
    (valid : ∀ e ∈ items, e.2.isValid = true) (distinct : (items.map (·.1)).Nodup)
    (some : items ≠ []) :
    ∃ t : RTree κ, ofList f items = .ok t ∧ t.fanout = f ∧ t.size = items.length ∧ t.Packed ∧
      ∀ s, Builds f.max (items.map fun i => ⟨i.2, i.1⟩) s → Packed (t.rebuilt s t.boxes) := by
  obtain ⟨t, packed⟩ := exists_ofList_eq_ok usable valid distinct
  obtain ⟨rfl, trunk⟩ := trunk_of_ofList packed
  have size : t.size = items.length := (sound_ofList packed).2.length_eq
  have pos : 0 < t.fanout.max := Nat.lt_of_lt_of_le (by decide) usable.four_le_max
  have some : (items.map fun i => (⟨i.2, i.1⟩ : Boxed κ)) ≠ [] := by simpa using some
  have each : ∀ s, Builds t.fanout.max (items.map fun i => ⟨i.2, i.1⟩) s →
      Packed (t.rebuilt s t.boxes) := fun s builds => by
    obtain ⟨laid, counted⟩ := builds.laid pos some
    rw [List.length_map, ← size] at laid
    exact packed_of_laid pos laid counted
  refine ⟨t, packed, rfl, size, ?_, each⟩
  exact each t.trunk (trunk ▸ Packing.builds_build usable _)

/-- Seventeen keys take five leaves of at most four, these two nodes, and these the root. -/
theorem packed_of_seventeen_keys : ∃ t : RTree Nat, t.fanout = ⟨4, 2⟩ ∧ t.size = 17 ∧ t.height = 3 ∧
    (t.root.node.sizesAt 0).length = 5 ∧ (t.root.node.sizesAt 1).length = 2 ∧ t.Packed := by
  let := Platform.reference
  let items : List (Nat × Box Float) := (List.range 17).map fun k =>
    (k, ⟨⟨k.toFloat, 0, 0⟩, ⟨k.toFloat, 1, 1⟩⟩)
  have usable : Fanout.Usable ⟨4, 2⟩ := ⟨by decide, by decide, by decide⟩
  have valid : ∀ e ∈ items, e.2.isValid = true := by decide +kernel
  obtain ⟨t, made, fanout, size, packed, -⟩ := packed_ofList usable valid (by decide) (by decide)
  have height : (ofList ⟨4, 2⟩ items).toOption.map RTree.height = some 3 := by decide +kernel
  rw [made] at height
  have height : t.height = 3 := Option.some.inj height
  have size : t.size = 17 := size
  have leaves := packed.leaves
  rw [size, fanout] at leaves
  have nodes := packed.above 0 (by omega)
  rw [leaves, fanout] at nodes
  exact ⟨t, fanout, size, height, leaves, nodes, packed⟩

end RTree

end Enclave
