import Enclave.Proofs.Index.Growth
import Enclave.Proofs.Index.Tiling

/-!
# Packed nodes are sound

Packing deals out exactly the items it is given, in groups of exactly the sizes fixed beforehand
(`Packing.pack_dealtAs`); and the sizes fixed for more items than one node holds are sizes that a
node may have (`Packing.length_of_mem_pack`). So every level is made of filled nodes, and the levels
end in a sound root, as high as was counted (`Packing.sound_build`).
-/

namespace Enclave.Packing

variable {α κ : Type}

/-! ## Groups -/

theorem pack_dealtAs [Platform] (max : Nat) (items : List (Boxed α)) :
    DealtAs (evenSizes items.length max) items (pack max items) :=
  tile_dealtAs _ (sum_evenSizes items.length max)

theorem length_pack [Platform] (max : Nat) (items : List (Boxed α)) :
    (pack max items).length = groupCount items.length max :=
  (pack_dealtAs max items).length_eq.trans (length_evenSizes items.length max)

theorem mem_of_mem_pack [Platform] {max : Nat} {items group : List (Boxed α)}
    (h : group ∈ pack max items) {e : Boxed α} (he : e ∈ group) : e ∈ items :=
  (pack_dealtAs max items).perm.mem_iff.mp (List.mem_flatten.mpr ⟨group, h, he⟩)

/-- Groups of more items than one node holds are of a size that a node may have. -/
theorem length_of_mem_pack [Platform] {f : Fanout} (usable : f.Usable)
    {items group : List (Boxed α)} (tooMany : f.max < items.length) (h : group ∈ pack f.max items) :
    f.min ≤ group.length ∧ group.length ≤ f.max := by
  have pos : 0 < f.max := Nat.lt_of_lt_of_le (by decide) usable.four_le_max
  obtain ⟨half, le⟩ := mem_evenSizes pos tooMany ((pack_dealtAs f.max items).length_mem h)
  have roundedUp : f.max / 2 ≤ (f.max + 1) / 2 := Nat.div_le_div_right (Nat.le_succ _)
  exact ⟨(usable.min_le_half.trans roundedUp).trans half, le⟩

/-- A level that one node cannot hold is packed into fewer nodes, but not into one. -/
theorem length_pack_bounds [Platform] {f : Fanout} (usable : f.Usable) {items : List (Boxed α)}
    (tooMany : f.max < items.length) :
    2 ≤ (pack f.max items).length ∧ (pack f.max items).length < items.length := by
  have four := usable.four_le_max
  obtain ⟨two, few, -⟩ := groupCount_bounds (by omega) tooMany
  rw [length_pack]
  generalize groupCount items.length f.max = g at *
  have : (g - 1) * 2 ≤ (g - 1) * f.max := Nat.mul_le_mul_left _ (by omega)
  exact ⟨two, by omega⟩

/-! ## Levels -/

section Levels

variable {f : Fanout} {n : Nat}

theorem sound_branch_boxed (usable : f.Usable) {nodes : List (Node κ n)}
    (each : ∀ node ∈ nodes, node.Filled f ∧ node.Valid) :
    (Node.branch (nodes.map Node.boxed)).Sound f :=
  Node.sound_branch_iff.mpr fun c hc => by
    obtain ⟨node, hnode, rfl⟩ := List.mem_map.mp hc
    exact Node.boxed_fits usable (each node hnode).1 (each node hnode).2

theorem entries_branch_boxed (nodes : List (Node κ n)) :
    (Node.branch (nodes.map Node.boxed)).entries = nodes.flatMap Node.entries := by
  rw [Node.entries_branch, List.flatMap_map]
  rfl

/-- The nodes of the next level: filled again, and over the same entries. -/
theorem pack_branch [Platform] (usable : f.Usable) {nodes : List (Node κ n)}
    (each : ∀ node ∈ nodes, node.Filled f ∧ node.Valid) (tooMany : f.max < nodes.length) :
    (∀ node ∈ (pack f.max (nodes.map Node.boxed)).map Node.branch, node.Filled f ∧ node.Valid) ∧
      (((pack f.max (nodes.map Node.boxed)).map Node.branch).flatMap Node.entries).Perm
        (nodes.flatMap Node.entries) := by
  have fits := Node.sound_branch_iff.mp (sound_branch_boxed usable each)
  have tooMany : f.max < (nodes.map Node.boxed).length := by rwa [List.length_map]
  constructor
  · intro node hnode
    obtain ⟨group, hgroup, rfl⟩ := List.mem_map.mp hnode
    obtain ⟨min_le, le_max⟩ := length_of_mem_pack usable tooMany hgroup
    refine ⟨⟨Node.sound_branch_iff.mpr fun c hc => fits c (mem_of_mem_pack hgroup hc), min_le,
      le_max⟩, fun e he => ?_⟩
    obtain ⟨c, hc, he⟩ := List.mem_flatMap.mp he
    obtain ⟨node, hnode, rfl⟩ := List.mem_map.mp (mem_of_mem_pack hgroup hc)
    exact (each node hnode).2 e he
  · rw [List.flatMap_map, ← entries_branch_boxed]
    have := (pack_dealtAs f.max (nodes.map Node.boxed)).perm.flatMap_right (·.item.entries)
    rwa [List.flatten_eq_flatMap, List.flatMap_assoc] at this

/-- Where two nodes are left, the root is a branch over them. -/
theorem close_eq_of_two_le (height : Nat) {nodes : List (Node κ n)} (two : 2 ≤ nodes.length) :
    close height nodes = ⟨⟨n + 1, .branch (nodes.map Node.boxed)⟩, height + 1⟩ := by
  match nodes, two with
  | _ :: _ :: _, _ => rfl

/-- The levels end in a sound trunk over the entries of the nodes they start with. -/
theorem sound_stack [Platform] (usable : f.Usable) : ∀ (rounds : Nat) {n height : Nat}
    {nodes : List (Node κ n)}, (∀ node ∈ nodes, node.Filled f ∧ node.Valid) → 2 ≤ nodes.length →
      nodes.length ≤ rounds → height = n + 1 → (stack f.max rounds height nodes).Sound f ∧
        (stack f.max rounds height nodes).root.node.entries.Perm (nodes.flatMap Node.entries) := by
  intro rounds
  induction rounds with
  | zero =>
    intro n height nodes _ two le
    omega
  | succ rounds ih =>
    intro n height nodes each two le counted
    by_cases fits : nodes.length ≤ f.max
    · rw [stack, if_pos fits, close_eq_of_two_le height two]
      refine ⟨⟨⟨sound_branch_boxed usable each, ?_, fun _ => ?_⟩, ?_⟩, ?_⟩
      · exact List.length_map _ |>.trans_le fits
      · exact two.trans (List.length_map _).ge
      · exact congrArg (· + 1) counted
      · exact .of_eq (entries_branch_boxed nodes)
    · rw [stack, if_neg fits]
      obtain ⟨each', perm⟩ := pack_branch usable each (Nat.not_le.mp fits)
      have tooMany : f.max < (nodes.map Node.boxed).length := by
        rw [List.length_map]
        omega
      have bounds := length_pack_bounds usable tooMany
      rw [List.length_map] at bounds
      obtain ⟨sound, perm'⟩ := ih each' (by rw [List.length_map]; omega)
        (by rw [List.length_map]; omega) (congrArg (· + 1) counted)
      exact ⟨sound, perm'.trans perm⟩

/-- Packing gives a sound trunk over the entries. -/
theorem sound_build [Platform] (usable : f.Usable) {entries : List (Boxed κ)}
    (valid : ∀ e ∈ entries, e.box.isValid = true) : (build f.max entries).Sound f ∧
      (build f.max entries).root.node.entries.Perm entries := by
  by_cases fits : entries.length ≤ f.max
  · rw [build, if_pos fits]
    exact ⟨⟨⟨trivial, fits, fun h => absurd h (Nat.lt_irrefl 0)⟩, rfl⟩, .refl _⟩
  · have tooMany := Nat.not_le.mp fits
    have each : ∀ node ∈ (pack f.max entries).map Node.leaf, node.Filled f ∧ node.Valid :=
      fun node hnode => by
        obtain ⟨group, hgroup, rfl⟩ := List.mem_map.mp hnode
        obtain ⟨min_le, le_max⟩ := length_of_mem_pack usable tooMany hgroup
        exact ⟨⟨trivial, min_le, le_max⟩, fun e he => valid e (mem_of_mem_pack hgroup he)⟩
    have bounds := length_pack_bounds usable tooMany
    obtain ⟨sound, perm⟩ := sound_stack usable entries.length each (by rw [List.length_map]; omega)
      (by rw [List.length_map]; omega) rfl
    have leaves : ((pack f.max entries).map Node.leaf).flatMap Node.entries =
        (pack f.max entries).flatten := by
      rw [List.flatMap_map]
      exact List.flatMap_id
    rw [build, if_neg fits]
    exact ⟨sound, perm.trans (leaves ▸ (pack_dealtAs f.max entries).perm)⟩

end Levels

end Enclave.Packing
