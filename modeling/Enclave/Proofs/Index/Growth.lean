import Enclave.Proofs.Index.Node
import Enclave.Proofs.Index.Split

/-!
# Growing and shrinking keep nodes sound

Putting an entry in and taking one out leave the nodes sound and every other entry where a scan
finds it. What one node gives back is said by `Node.Grown` and `Node.Shrunk`; both are kept by the
step from a child to its parent, and so hold at the root (`Trunk.sound_insert`,
`Trunk.sound_remove`). The height that is counted stays the number of levels (`Trunk.Sound`).

Orphans of dissolved nodes are put in after the root has given way to its only child, so they meet a
sound root like any other entry.
-/

namespace Enclave

variable {κ : Type} {n : Nat} {f : Fanout}

/-! ## Lists -/

section Lists

variable {α β : Type} {l : List α} {i : Nat} {a : α}

theorem flatMap_perm_of_getElem? (h : l[i]? = some a) (g : α → List β) :
    (l.flatMap g).Perm (g a ++ (l.eraseIdx i).flatMap g) := by
  obtain ⟨hi, rfl⟩ := List.getElem?_eq_some_iff.mp h
  exact ((List.getElem_cons_eraseIdx_perm hi).symm.flatMap_right g).trans (by simp)

theorem set_flatMap_perm (h : l[i]? = some a) (b : α) (g : α → List β) :
    ((l.set i b).flatMap g).Perm (g b ++ (l.eraseIdx i).flatMap g) := by
  obtain ⟨hi, -⟩ := List.getElem?_eq_some_iff.mp h
  exact ((List.set_perm_cons_eraseIdx hi b).flatMap_right g).trans (by simp)

/-- An exchange of one member for another carries over to the whole list. -/
theorem set_flatMap_append_perm (h : l[i]? = some a) {b : α} {g : α → List β} (xs ys : List β)
    (perm : (xs ++ g b).Perm (ys ++ g a)) :
    (xs ++ (l.set i b).flatMap g).Perm (ys ++ l.flatMap g) :=
  calc (xs ++ (l.set i b).flatMap g).Perm (xs ++ (g b ++ (l.eraseIdx i).flatMap g)) :=
        (set_flatMap_perm h b g).append_left xs
    _ |>.Perm (ys ++ (g a ++ (l.eraseIdx i).flatMap g)) := by
        rw [← List.append_assoc, ← List.append_assoc]
        exact perm.append_right _
    _ |>.Perm (ys ++ l.flatMap g) := (flatMap_perm_of_getElem? h g).symm.append_left ys

end Lists

/-! ## Settling -/

/-- A node of one item too many is settled into two of which neither holds too much or too little.
-/
theorem Fanout.settle_cases [Platform] {α : Type} (usable : f.Usable) {items : List (Boxed α)}
    (h : items.length ≤ f.max + 1) : (items.length ≤ f.max ∧ f.settle items = (items, none)) ∨
    ∃ keep moved, f.settle items = (keep, some moved) ∧ (keep ++ moved).Perm items ∧
      (f.min ≤ keep.length ∧ keep.length ≤ f.max) ∧
      f.min ≤ moved.length ∧ moved.length ≤ f.max := by
  by_cases fits : items.length ≤ f.max
  · exact .inl ⟨fits, if_pos fits⟩
  have := usable.two_le_min
  have := usable.min_le_half
  have two : 2 ≤ items.length := by omega
  have enough : 2 * f.min ≤ items.length := by omega
  have perm := Split.split_perm f.min two
  have least := Split.min_le_split two enough
  rcases hsplit : Split.split f.min items with ⟨keep, moved⟩
  rw [hsplit] at perm least
  dsimp only at perm least
  have total : keep.length + moved.length = items.length := by
    rw [← List.length_append]
    exact perm.length_eq
  refine .inr ⟨keep, moved, ?_, perm, ⟨least.1, by omega⟩, least.2, by omega⟩
  rw [Fanout.settle, if_neg fits, hsplit]

/-! ## Putting in -/

theorem choosePlace_lt [Platform] {children : List (Boxed (Node κ n))} (h : children ≠ [])
    (b : Box Float) : choosePlace children b < children.length := by
  dsimp only [choosePlace]
  split
  · exact List.length_pos_iff.mpr h
  next s rest hranked =>
    generalize hs : pick Suitability.better s rest = chosen
    have hmem : chosen ∈ s :: rest := hs ▸ pick_mem Suitability.better rest s
    rw [← hranked] at hmem
    obtain ⟨⟨c, i⟩, hc, rfl⟩ := List.mem_map.mp hmem
    exact (List.getElem?_eq_some_iff.mp (List.mem_zipIdx_iff_getElem?.mp hc)).1

namespace Node

/-- What is left of a node below which an entry was put: a node that still fits, or two that do. -/
def Grown (f : Fanout) (e : Boxed κ) (node : Node κ n) : Node κ n × Option (Node κ n) → Prop
  | (grown, none) => grown.Sound f ∧ (node.size ≤ grown.size ∧ grown.size ≤ f.max) ∧
      grown.entries.Perm (e :: node.entries)
  | (kept, some sibling) => kept.Filled f ∧ sibling.Filled f ∧
      (kept.entries ++ sibling.entries).Perm (e :: node.entries)

/-- Entries are valid that are a valid one beside those of a valid node, in whatever order. -/
theorem Valid.of_perm_cons {node : Node κ n} (allValid : node.Valid) {e : Boxed κ}
    (valid : e.box.isValid = true) {entries : List (Boxed κ)}
    (perm : entries.Perm (e :: node.entries)) : ∀ d ∈ entries, d.box.isValid = true := by
  intro d hd
  rcases List.mem_cons.mp (perm.mem_iff.mp hd) with rfl | hd
  · exact valid
  · exact allValid d hd

/-- The two parts of a node that was split fit the boxes computed for them. -/
theorem fits_of_split (usable : f.Usable) {e : Boxed κ} (valid : e.box.isValid = true)
    {node kept sibling : Node κ n} (allValid : node.Valid)
    (grown : node.Grown f e (kept, some sibling)) : kept.boxed.Fits f ∧ sibling.boxed.Fits f := by
  obtain ⟨keptFilled, siblingFilled, perm⟩ := grown
  have bothValid := allValid.of_perm_cons valid perm
  constructor
  · exact boxed_fits usable keptFilled fun d hd => bothValid d (List.mem_append_left _ hd)
  · exact boxed_fits usable siblingFilled fun d hd => bothValid d (List.mem_append_right _ hd)

/-- Items that fit their boxes are settled into nodes that hold the same entries. -/
theorem grown_settle [Platform] (usable : f.Usable) {e : Boxed κ}
    {children items : List (Boxed (Node κ n))} (each : ∀ c ∈ items, c.Fits f)
    (more : children.length ≤ items.length) (le_max : items.length ≤ f.max + 1)
    (perm : (branch items).entries.Perm (e :: (branch children).entries)) :
    (branch children).Grown f e (f.settle items) := by
  rcases Fanout.settle_cases usable le_max with ⟨fits, heq⟩ | ⟨keep, moved, heq, hperm, hk, hm⟩
  · rw [heq]
    exact ⟨sound_branch_iff.mpr each, ⟨more, fits⟩, perm⟩
  · rw [heq]
    have each := fun c hc => each c (hperm.mem_iff.mp hc)
    refine ⟨⟨sound_branch_iff.mpr fun c hc => each c (List.mem_append_left _ hc), hk.1, hk.2⟩,
      ⟨sound_branch_iff.mpr fun c hc => each c (List.mem_append_right _ hc), hm.1, hm.2⟩, ?_⟩
    have entries :
        ((branch keep).entries ++ (branch moved).entries).Perm (branch items).entries := by
      rw [entries_branch, entries_branch, entries_branch, ← List.flatMap_append]
      exact hperm.flatMap_right _
    exact entries.trans perm

theorem grown_leaf [Platform] (usable : f.Usable) (e : Boxed κ) {entries : List (Boxed κ)}
    (le_max : entries.length ≤ f.max) : (leaf entries).Grown f e (f.settle (entries ++ [e])) := by
  have perm : (entries ++ [e]).Perm (e :: entries) := List.perm_append_singleton e entries
  have count : (entries ++ [e]).length = entries.length + 1 := perm.length_eq
  have le_max : (entries ++ [e]).length ≤ f.max + 1 := by omega
  rcases Fanout.settle_cases usable le_max with
    ⟨fits, heq⟩ | ⟨keep, moved, heq, hperm, hk, hm⟩
  · rw [heq]
    have more : entries.length ≤ (entries ++ [e]).length := by omega
    exact ⟨trivial, ⟨more, fits⟩, perm⟩
  · rw [heq]
    exact ⟨⟨trivial, hk.1, hk.2⟩, ⟨trivial, hm.1, hm.2⟩, hperm.trans perm⟩

/-- The step from a child to its parent where the child stays one node: its box grows. -/
theorem grown_of_child {children : List (Boxed (Node κ n))} (each : ∀ d ∈ children, d.Fits f)
    (le_max : children.length ≤ f.max) {e : Boxed κ} (valid : e.box.isValid = true) {i : Nat}
    {c : Boxed (Node κ n)} (hc : children[i]? = some c) {node : Node κ n}
    (grown : c.item.Grown f e (node, none)) : (branch children).Grown f e
      (branch (children.set i ⟨c.box.union e.box, node⟩), none) := by
  obtain ⟨sound, ⟨more, nodeMax⟩, perm⟩ := grown
  obtain ⟨cover, filled⟩ := each c (List.mem_of_getElem? hc)
  have nodeCover : (c.box.union e.box).IsCover (Boxed.boxes node.entries) :=
    (cover.union (Box.isCover_singleton (Box.within_self_of_isValid valid))).perm
      ((List.perm_append_singleton _ _).trans (perm.map Boxed.box).symm)
  refine ⟨sound_branch_iff.mpr ?_, ⟨?_, ?_⟩, ?_⟩
  · intro d hd
    rcases List.mem_or_eq_of_mem_set hd with hd | rfl
    · exact each d hd
    · exact ⟨nodeCover, sound, filled.min_le.trans more, nodeMax⟩
  · exact (List.length_set ..).ge
  · exact (List.length_set ..).trans_le le_max
  · exact set_flatMap_append_perm hc [] [e] perm

/-- The step from a child to its parent where the child is split: the parent has one child more, and
is settled in its turn. -/
theorem grown_of_split_child [Platform] (usable : f.Usable) {children : List (Boxed (Node κ n))}
    (each : ∀ d ∈ children, d.Fits f) (allValid : (branch children).Valid)
    (le_max : children.length ≤ f.max) {e : Boxed κ} (valid : e.box.isValid = true) {i : Nat}
    {c : Boxed (Node κ n)} (hc : children[i]? = some c) {node sibling : Node κ n}
    (grown : c.item.Grown f e (node, some sibling)) : (branch children).Grown f e
      (f.settle (children.set i node.boxed ++ [sibling.boxed])) := by
  have childValid : c.item.Valid := allValid.child (List.mem_of_getElem? hc)
  obtain ⟨nodeFits, siblingFits⟩ := fits_of_split usable valid childValid grown
  obtain ⟨-, -, perm⟩ := grown
  refine grown_settle usable ?_ ?_ ?_ ?_
  · intro d hd
    rcases List.mem_append.mp hd with hd | hd
    · rcases List.mem_or_eq_of_mem_set hd with hd | rfl
      · exact each d hd
      · exact nodeFits
    · rw [List.mem_singleton.mp hd]
      exact siblingFits
  · simp
  · simpa using le_max
  · rw [entries_branch, entries_branch, List.flatMap_append, List.flatMap_singleton]
    exact List.perm_append_comm.trans
      (set_flatMap_append_perm hc sibling.entries [e] (List.perm_append_comm.trans perm))

/-- Putting an entry in keeps a node sound, and adds the entry to those below it. A branch needs a
child to put the entry below. -/
theorem grown_insert [Platform] (usable : f.Usable) {e : Boxed κ} (valid : e.box.isValid = true) :
    ∀ {n : Nat} (node : Node κ n), node.Sound f → node.Valid → node.size ≤ f.max →
      (0 < n → 0 < node.size) → node.Grown f e (node.insert f e) := by
  intro n
  induction n with
  | zero =>
    intro _ _ _ le_max _
    exact grown_leaf usable e le_max
  | succ n ih =>
    intro (children : List (Boxed (Node κ n))) sound allValid le_max pos
    have each := sound_branch_iff.mp sound
    have ne : children ≠ [] := List.length_pos_iff.mp (pos (Nat.succ_pos n))
    obtain ⟨c, hc⟩ : ∃ c, children[choosePlace children e.box]? = some c :=
      ⟨_, List.getElem?_eq_getElem (choosePlace_lt ne e.box)⟩
    have hmem : c ∈ children := List.mem_of_getElem? hc
    have filled := (each c hmem).filled
    have allValid : (branch children).Valid := allValid
    have grown := ih c.item filled.sound (allValid.child hmem) filled.le_max
      fun _ => filled.size_pos usable
    simp only [Node.insert, hc]
    rcases hins : c.item.insert f e with ⟨node, _ | sibling⟩
    · exact grown_of_child each le_max valid hc (hins ▸ grown)
    · exact grown_of_split_child usable each allValid le_max valid hc (hins ▸ grown)

end Node

/-- A root is sound where its nodes are, and holds no more than a node may; a branch at the root has
two children at least. -/
structure Root.Sound (f : Fanout) (r : Root κ) : Prop where
  nodes : r.node.Sound f
  le_max : r.node.size ≤ f.max
  two_le : 0 < r.level → 2 ≤ r.node.size

namespace Trunk

/-- A trunk is sound where its root is and its height is the number of levels. -/
structure Sound (f : Fanout) (s : Trunk κ) : Prop where
  root : s.root.Sound f
  height : s.height = s.root.level + 1

theorem sound_insert [Platform] (usable : f.Usable) {e : Boxed κ} (valid : e.box.isValid = true)
    {s : Trunk κ} (sound : s.Sound f) (allValid : s.root.node.Valid) :
    (s.insert f e).Sound f ∧ (s.insert f e).root.node.entries.Perm (e :: s.root.node.entries) := by
  obtain ⟨⟨nodes, le_max, two_le⟩, height⟩ := sound
  have grown := Node.grown_insert usable valid s.root.node nodes allValid le_max
    fun h => by have := two_le h; omega
  unfold Trunk.insert
  rcases hins : s.root.node.insert f e with ⟨node, _ | sibling⟩
  · rw [hins] at grown
    obtain ⟨nodeSound, ⟨more, nodeMax⟩, perm⟩ := grown
    exact ⟨⟨⟨nodeSound, nodeMax, fun h => (two_le h).trans more⟩, height⟩, perm⟩
  · rw [hins] at grown
    obtain ⟨nodeFits, siblingFits⟩ := Node.fits_of_split usable valid allValid grown
    obtain ⟨-, -, perm⟩ := grown
    refine ⟨⟨⟨Node.sound_branch_iff.mpr ?_, ?_, fun _ => Nat.le_refl 2⟩, ?_⟩, ?_⟩
    · intro d hd
      rcases List.mem_cons.mp hd with rfl | hd
      · exact nodeFits
      · exact List.mem_singleton.mp hd ▸ siblingFits
    · have : 4 ≤ f.max := usable.four_le_max
      show 2 ≤ f.max
      omega
    · exact congrArg (· + 1) height
    · rw [Node.entries_branch, List.flatMap_cons, List.flatMap_singleton]
      exact perm

end Trunk

/-! ## Taking out -/

namespace Node

variable [Ord κ]

/-- What is left of a node from below which the entry of a key was taken: a node of at most one item
less, and the orphans of the nodes dissolved. -/
structure Shrunk (f : Fanout) (k : κ) (node : Node κ n) (result : Node κ n × List (Boxed κ)) :
    Prop where
  sound : result.1.Sound f
  size_le : result.1.size ≤ node.size
  le_size : node.size ≤ result.1.size + 1
  entries : ∃ e, isOf k e = true ∧ node.entries.Perm (e :: (result.1.entries ++ result.2))

theorem shrunk_leaf {k : κ} {b : Box Float} {entries : List (Boxed κ)} (min : Nat)
    (holds : (leaf entries).holds k b = true) :
    (leaf entries).Shrunk f k ((leaf entries).remove min k b) := by
  obtain ⟨e, he, isOfKey⟩ : ∃ e ∈ entries, isOf k e = true := List.any_eq_true.mp holds
  have hplace := List.findIdx?_eq_some_of_exists ⟨e, he, isOfKey⟩
  obtain ⟨hlt, found, -⟩ := List.findIdx?_eq_some_iff_getElem.mp hplace
  have perm := swapRemove_perm (List.getElem?_eq_getElem hlt)
  have count : entries.length = _ + 1 := perm.length_eq
  have result : (leaf entries).remove min k b =
      (leaf (swapRemove entries (entries.findIdx (isOf k))), []) := by
    simp only [Node.remove, leaf, hplace]
  rw [result]
  refine ⟨trivial, (Nat.le_succ _).trans count.ge, count.le, _, found, ?_⟩
  rw [List.append_nil]
  exact perm

/-- The step from a child to its parent where the child stays: its box is computed anew. -/
theorem shrunk_of_child (usable : f.Usable) {children : List (Boxed (Node κ n))}
    (each : ∀ d ∈ children, d.Fits f) (allValid : (branch children).Valid) {k : κ} {i : Nat}
    {c : Boxed (Node κ n)} (hc : children[i]? = some c) {node : Node κ n}
    {orphans : List (Boxed κ)} (shrunk : c.item.Shrunk f k (node, orphans))
    (enough : f.min ≤ node.size) :
    (branch children).Shrunk f k (branch (children.set i node.boxed), orphans) := by
  obtain ⟨sound, size_le, -, e, found, perm⟩ := shrunk
  have hmem := List.mem_of_getElem? hc
  have nodeValid : node.Valid := fun d hd => allValid.child hmem d
    (perm.mem_iff.mpr (List.mem_cons_of_mem e (List.mem_append_left orphans hd)))
  have nodeFits := boxed_fits usable ⟨sound, enough, size_le.trans (each c hmem).filled.le_max⟩
    nodeValid
  refine ⟨sound_branch_iff.mpr ?_, ?_, ?_, e, found, ?_⟩
  · intro d hd
    rcases List.mem_or_eq_of_mem_set hd with hd | rfl
    · exact each d hd
    · exact nodeFits
  · exact (List.length_set ..).le
  · exact (List.length_set ..).ge.trans (Nat.le_succ _)
  · have exchange : (e :: orphans ++ node.entries).Perm ([] ++ c.item.entries) :=
      (perm.trans (List.perm_append_comm.cons e)).symm
    have whole := set_flatMap_append_perm (b := node.boxed) (g := (·.item.entries)) hc _ _ exchange
    exact whole.symm.trans (List.perm_append_comm.cons e)

/-- The step from a child to its parent where the child is dissolved. -/
theorem shrunk_of_dissolved_child {children : List (Boxed (Node κ n))}
    (each : ∀ d ∈ children, d.Fits f) {k : κ} {i : Nat} {c : Boxed (Node κ n)}
    (hc : children[i]? = some c) {node : Node κ n} {orphans : List (Boxed κ)}
    (shrunk : c.item.Shrunk f k (node, orphans)) :
    (branch children).Shrunk f k (branch (swapRemove children i), orphans ++ node.entries) := by
  obtain ⟨-, -, -, e, found, perm⟩ := shrunk
  have split := swapRemove_perm hc
  have count : children.length = (swapRemove children i).length + 1 := split.length_eq
  refine ⟨sound_branch_iff.mpr ?_, ?_, ?_, e, found, ?_⟩
  · intro d hd
    exact each d (split.mem_iff.mpr (List.mem_cons_of_mem c hd))
  · exact (Nat.le_succ _).trans count.ge
  · exact count.le
  · calc (branch children).entries.Perm
          (c.item.entries ++ (branch (swapRemove children i)).entries) :=
          split.flatMap_right _
      _ |>.Perm (e :: (node.entries ++ orphans) ++ (branch (swapRemove children i)).entries) :=
          perm.append_right _
      _ |>.Perm (e :: ((branch (swapRemove children i)).entries ++ (orphans ++ node.entries))) :=
          (List.perm_append_comm.trans (List.perm_append_comm.append_left _)).cons e

/-- Taking an entry that is found out of a node leaves the node sound, and every other entry below
it or among the orphans. -/
theorem shrunk_remove (usable : f.Usable) {k : κ} {b : Box Float} :
    ∀ {n : Nat} (node : Node κ n), node.Sound f → node.Valid → node.holds k b = true →
      node.Shrunk f k (node.remove f.min k b) := by
  intro n
  induction n with
  | zero =>
    intro _ _ _ holds
    exact shrunk_leaf f.min holds
  | succ n ih =>
    intro (children : List (Boxed (Node κ n))) sound allValid holds
    have each := sound_branch_iff.mp sound
    have hlt := List.findIdx_lt_length_of_exists (List.any_eq_true.mp holds)
    obtain ⟨c, hc⟩ : ∃ c, children[children.findIdx fun c =>
        c.box.containsBox b && c.item.holds k b]? = some c := ⟨_, List.getElem?_eq_getElem hlt⟩
    have found : c.item.holds k b = true := by
      have := List.findIdx_of_getElem?_eq_some (p := fun c : Boxed (Node κ n) =>
        c.box.containsBox b && c.item.holds k b) hc
      exact (Bool.and_eq_true_iff.mp this).2
    have hmem := List.mem_of_getElem? hc
    have allValid : (branch children).Valid := allValid
    have shrunk := ih c.item (each c hmem).filled.sound (allValid.child hmem) found
    simp only [Node.remove, hc]
    rcases hrem : c.item.remove f.min k b with ⟨node, orphans⟩
    rw [hrem] at shrunk
    dsimp only
    split
    next => exact shrunk_of_dissolved_child each hc shrunk
    next enough => exact shrunk_of_child usable each allValid hc shrunk (Nat.not_lt.mp enough)

end Node

theorem Node.level_eq_zero_of_isBare : ∀ {n : Nat} {node : Node κ n}, node.isBare = true → n = 0
  | 0, _, _ => rfl

namespace Trunk

theorem shrink_singleton (height : Nat) (c : Boxed (Node κ n)) :
    shrink (n + 1) height (.branch [c]) =
      if c.item.isBare then ⟨⟨n, c.item⟩, 1⟩ else shrink n (height - 1) c.item := rfl

theorem entries_shrink : ∀ {n : Nat} (height : Nat) (node : Node κ n),
    (shrink n height node).root.node.entries = node.entries
  | 0, _, _ => rfl
  | n + 1, height, (children : List (Boxed (Node κ n))) =>
    match children with
    | [] => rfl
    | [c] => by
      have whole : (Node.branch [c]).entries = c.item.entries := List.append_nil _
      show (shrink (n + 1) height (.branch [c])).root.node.entries = (Node.branch [c]).entries
      rw [whole, shrink_singleton]
      by_cases bare : c.item.isBare = true
      · rw [if_pos bare]
      · rw [if_neg bare]
        exact entries_shrink (height - 1) c.item
    | _ :: _ :: _ => rfl

/-- A root that may have lost a child gives way to the one that is left, and the height falls by a
level each time. -/
theorem sound_shrink (usable : f.Usable) : ∀ {n height : Nat} (node : Node κ n), node.Sound f →
    node.size ≤ f.max → height = n + 1 → (shrink n height node).Sound f
  | 0, _, _, sound, le_max, counted =>
    ⟨⟨sound, le_max, fun h => absurd h (Nat.lt_irrefl 0)⟩, counted⟩
  | n + 1, height, (children : List (Boxed (Node κ n))), sound, le_max, counted =>
    match children with
    | [] => ⟨⟨trivial, Nat.zero_le _, fun h => absurd h (Nat.lt_irrefl 0)⟩, rfl⟩
    | [c] => by
      have filled := (Node.sound_branch_iff.mp sound c (List.mem_singleton_self c)).filled
      show (shrink (n + 1) height (.branch [c])).Sound f
      rw [shrink_singleton]
      split
      next bare =>
        obtain rfl := Node.level_eq_zero_of_isBare bare
        exact ⟨⟨filled.sound, filled.le_max, fun h => absurd h (Nat.lt_irrefl 0)⟩, rfl⟩
      next => exact sound_shrink usable c.item filled.sound filled.le_max (counted ▸ rfl)
    | _ :: _ :: _ => ⟨⟨sound, le_max, fun _ => Nat.le_add_left 2 _⟩, counted⟩

/-- Entries put in one after the other. -/
theorem sound_foldl_insert [Platform] (usable : f.Usable) (es : List (Boxed κ)) :
    ∀ {s : Trunk κ}, s.Sound f → s.root.node.Valid → (∀ e ∈ es, e.box.isValid = true) →
      (es.foldl (fun s e => s.insert f e) s).Sound f ∧
        (es.foldl (fun s e => s.insert f e) s).root.node.entries.Perm
          (es ++ s.root.node.entries) := by
  induction es with
  | nil => exact fun sound _ _ => ⟨sound, .refl _⟩
  | cons e es ih =>
    intro s sound allValid valid
    have eValid := valid e List.mem_cons_self
    obtain ⟨sound', perm⟩ := sound_insert usable eValid sound allValid
    have allValid' : (s.insert f e).root.node.Valid := allValid.of_perm_cons eValid perm
    obtain ⟨sound'', perm'⟩ := ih sound' allValid' fun d hd => valid d (List.mem_cons_of_mem e hd)
    exact ⟨sound'', perm'.trans ((perm.append_left es).trans List.perm_middle)⟩

/-- Taking an entry that is found out of a sound trunk leaves a sound trunk and all other entries. -/
theorem sound_remove [Ord κ] [Platform] (usable : f.Usable) {k : κ} {b : Box Float} {s : Trunk κ}
    (sound : s.Sound f) (allValid : s.root.node.Valid) (holds : s.root.node.holds k b = true) :
    (s.remove f k b).Sound f ∧ ∃ e, Node.isOf k e = true ∧
      s.root.node.entries.Perm (e :: (s.remove f k b).root.node.entries) := by
  have shrunk := Node.shrunk_remove usable s.root.node sound.root.nodes allValid holds
  unfold Trunk.remove
  rcases hrem : s.root.node.remove f.min k b with ⟨node, orphans⟩
  rw [hrem] at shrunk
  obtain ⟨nodeSound, size_le, -, e, found, perm⟩ := shrunk
  have valid : ∀ d ∈ node.entries ++ orphans, d.box.isValid = true := fun d hd =>
    allValid d (perm.mem_iff.mpr (List.mem_cons_of_mem e hd))
  have shrinkValid : (shrink s.root.level s.height node).root.node.Valid := by
    intro d hd
    rw [entries_shrink] at hd
    exact valid d (List.mem_append_left _ hd)
  obtain ⟨sound', perm'⟩ := sound_foldl_insert usable orphans
    (sound_shrink usable node nodeSound (size_le.trans sound.root.le_max) sound.height) shrinkValid
    fun d hd => valid d (List.mem_append_right _ hd)
  rw [entries_shrink] at perm'
  exact ⟨sound', e, found, perm.trans ((List.perm_append_comm.trans perm'.symm).cons e)⟩

end Trunk

end Enclave
