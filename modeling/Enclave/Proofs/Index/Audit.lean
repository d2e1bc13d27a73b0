import Enclave.Index.Tree
import Enclave.Proofs.Index.Tree

/-!
# Audits of an index find nothing

An index that can be reached has no flaw (`RTree.Reachable.wellFormed`). What an audit looks for is
what sound nodes rule out: how much a node holds, which boxes the leaves hold, and that the box of a
child equals the cover computed for it. The two boxes need not be the same double for double, since
a box that grew by unions may hold the other zero.

Nothing here looks at a cost. Where an entry goes and where a node is split is decided by costs, and
any decision leaves the nodes sound.
-/

namespace Enclave

variable {κ : Type}

/-! ## Depths -/

/-- The depths of the leaves at and below a node that itself lies at a given depth. -/
def Node.leafDepths : {n : Nat} → (depth : Nat) → Node κ n → List Nat
  | 0, depth, _ => [depth]
  | _ + 1, depth, (children : List (Boxed (Node κ _))) =>
    children.flatMap fun c => c.item.leafDepths (depth + 1)

/-- Leaves lie as many levels deeper as the level of the node says. -/
theorem Node.eq_of_mem_leafDepths : ∀ {n : Nat} (node : Node κ n) {depth d : Nat},
    d ∈ node.leafDepths depth → d = depth + n := by
  intro n
  induction n with
  | zero =>
    intro _ depth d h
    exact List.mem_singleton.mp h
  | succ n ih =>
    intro (children : List (Boxed (Node κ n))) depth d h
    obtain ⟨c, -, h⟩ := List.mem_flatMap.mp h
    have := ih c.item h
    omega

/-- The leaves of a sound index lie as deep as was counted. -/
theorem RTree.Sound.eq_of_mem_leafDepths [Ord κ] {t : RTree κ} (sound : t.Sound) {d : Nat}
    (h : d ∈ t.root.node.leafDepths 1) : d = t.height := by
  rw [Node.eq_of_mem_leafDepths t.root.node h, sound.height, Nat.add_comm]

/-! ## Flaws -/

theorem Fanout.sizeFlaw?_eq_none {f : Fanout} {depth count : Nat} {isRoot : Bool}
    (le_max : count ≤ f.max) (min_le : isRoot = false → f.min ≤ count) :
    f.sizeFlaw? depth isRoot count = none := by
  rw [Fanout.sizeFlaw?, if_neg (Nat.not_lt.mpr le_max)]
  cases isRoot with
  | true => rfl
  | false => simp [min_le rfl]

/-- The cover computed for a child that fits its parent is the child's box. -/
theorem Boxed.Fits.cover?_beq {n : Nat} {f : Fanout} {c : Boxed (Node κ n)} (fits : c.Fits f)
    (usable : f.Usable) (valid : c.item.Valid) : (c.item.cover? == some c.box) = true := by
  obtain ⟨b, computed, cover⟩ :=
    Node.exists_cover? c.item fits.filled.sound valid (fits.filled.size_pos usable)
  rw [computed]
  exact cover.beq fits.cover

variable [Ord κ] [ToString κ]

/-- A valid entry whose box is the recorded one has no flaw. -/
theorem Boxed.entryFlaw?_eq_none {boxes : Table κ (Box Float)} {e : Boxed κ}
    (recorded : boxes.get? e.item = some e.box) (valid : e.box.isValid = true) :
    e.entryFlaw? boxes = none := by
  have self := Box.within_self_of_isValid valid
  rw [entryFlaw?, recorded]
  exact if_pos (Box.beq_iff_within.mpr ⟨self, self⟩)

/-- A sound node has no flaw, if its entries are recorded and it holds what it may itself. -/
theorem Node.flaw?_eq_none {f : Fanout} (usable : f.Usable) {boxes : Table κ (Box Float)}
    {height : Nat} : ∀ {n : Nat} (node : Node κ n) {depth : Nat} {isRoot : Bool},
      depth + n = height → node.Sound f → node.Valid →
      (∀ e ∈ node.entries, boxes.get? e.item = some e.box) → node.size ≤ f.max →
      (isRoot = false → f.min ≤ node.size) → (0 < n → 2 ≤ node.size) →
      node.flaw? f boxes height depth isRoot = none := by
  intro n
  induction n with
  | zero =>
    intro (entries : List (Boxed κ)) depth isRoot (deep : depth = height) _ valid recorded le_max
      min_le _
    have load : f.sizeFlaw? depth isRoot entries.length = none :=
      Fanout.sizeFlaw?_eq_none le_max min_le
    rw [flaw?, load, if_pos deep, Option.none_or, Option.none_or]
    refine List.findSome?_eq_none_iff.mpr ?_
    intro e he
    exact Boxed.entryFlaw?_eq_none (recorded e he) (valid e he)
  | succ n ih =>
    intro (children : List (Boxed (Node κ n))) depth isRoot deep sound valid recorded le_max min_le
      two_le
    have each := sound_branch_iff.mp sound
    have load : f.sizeFlaw? depth isRoot children.length = none :=
      Fanout.sizeFlaw?_eq_none le_max min_le
    have two_le : 2 ≤ children.length := two_le (Nat.succ_pos n)
    have broad : (if isRoot && children.length < 2 then some Flaw.thinRoot else none) = none := by
      simp [Nat.not_lt.mpr two_le]
    rw [flaw?, load, broad, Option.none_or, Option.none_or]
    refine List.findSome?_eq_none_iff.mpr fun c hc => ?_
    have fits := each c hc
    have valid : (branch children).Valid := valid
    have childValid : c.item.Valid := valid.child hc
    rw [if_pos (fits.cover?_beq usable childValid)]
    have childRecorded : ∀ e ∈ c.item.entries, boxes.get? e.item = some e.box := by
      intro e he
      exact recorded e (List.mem_flatMap.mpr ⟨c, hc, he⟩)
    have deeper : depth + 1 + n = height := by omega
    exact ih c.item deeper fits.filled.sound childValid childRecorded fits.filled.le_max
      (fun _ => fits.filled.min_le) fun _ => fits.filled.two_le_size usable

namespace RTree

variable [Std.TransOrd κ]

omit [ToString κ] in
theorem Sound.nodup_items {t : RTree κ} (sound : t.Sound) :
    (t.root.node.entries.map (·.item)).Nodup := by
  have perm := sound.entries.map (·.item)
  rw [records, List.map_map] at perm
  exact perm.nodup_iff.mpr t.boxes.nodup_keys

variable [Std.LawfulEqOrd κ]

theorem Sound.flaw?_eq_none {t : RTree κ} (sound : t.Sound) : t.flaw? = none := by
  have recorded : ∀ e ∈ t.root.node.entries, t.boxes.get? e.item = some e.box := fun e he =>
    (Table.get?_eq_some_iff ..).mpr (sound.mem_entries_iff.mp he)
  have deep : 1 + t.root.level = t.height := (Nat.add_comm ..).trans sound.height.symm
  have nodes : t.root.node.flaw? t.fanout t.boxes t.height 1 true = none :=
    Node.flaw?_eq_none sound.usable t.root.node deep sound.root.nodes sound.nodes_valid recorded
      sound.root.le_max (fun h => absurd h (by decide)) sound.root.two_le
  rw [flaw?, nodes, Option.none_or]
  exact if_pos sound.length_entries

/-- An index without flaws: the audit finds none, the leaves hold what is recorded, each key once
and all at the depth that is the height, and the nodes are sound. -/
structure WellFormed (t : RTree κ) : Prop where
  audit : t.flaw? = none
  entries : t.root.node.entries.Perm t.records
  nodup : (t.root.node.entries.map (·.item)).Nodup
  depth : ∀ d ∈ t.root.node.leafDepths 1, d = t.height
  root : t.root.Sound t.fanout

theorem Reachable.wellFormed {t : RTree κ} (h : t.Reachable) : t.WellFormed where
  audit := h.sound.flaw?_eq_none
  entries := h.sound.entries
  nodup := h.sound.nodup_items
  depth _ := h.sound.eq_of_mem_leafDepths
  root := h.sound.root

/-- Five keys do not fit one leaf of four: the index has two levels. -/
theorem wellFormed_of_five_keys : ∃ t : RTree Nat, t.size = 5 ∧ t.height = 2 ∧ t.WellFormed := by
  let := Platform.reference
  have start : make ⟨4, 2⟩ = .ok (empty ⟨4, 2⟩ : RTree Nat) := rfl
  have valid : Box.isValid (⟨⟨0, 0, 0⟩, ⟨2, 2, 2⟩⟩ : Box Float) = true := by decide +kernel
  have reachable := (Reachable.make start).insert (insert_eq_ok_iff.mpr ⟨valid, rfl, rfl⟩) (k := 1)
  have reachable := reachable.insert (insert_eq_ok_iff.mpr ⟨valid, rfl, rfl⟩) (k := 2)
  have reachable := reachable.insert (insert_eq_ok_iff.mpr ⟨valid, rfl, rfl⟩) (k := 3)
  have reachable := reachable.insert (insert_eq_ok_iff.mpr ⟨valid, rfl, rfl⟩) (k := 4)
  have reachable := reachable.insert (insert_eq_ok_iff.mpr ⟨valid, rfl, rfl⟩) (k := 5)
  exact ⟨_, by decide +kernel, by decide +kernel, reachable.wellFormed⟩

end RTree

end Enclave
