import Mathlib.Algebra.Order.BigOperators.Group.List
import Mathlib.Data.List.Nodup
import Enclave.Proofs.Index.Tree
import Enclave.Proofs.Index.Refinement

/-!
# A query looks at no more nodes than it must

A query for the keys at a point looks into the root and into the nodes whose own box contains the
point, once each, and into no others (`RTree.Reachable.pruned`). A node is only come upon through
those above it; but boxes nest, so that where the box of a node passes, so do all the boxes on the
way down to it.

The nodes are gathered by a stack of those still to be looked into (`Root.walk`). The stack turns the
children of a node around, so the order of the walk is not that of the recursion which counts the
effort; the nodes are the same (`Root.walk_perm`), and the effort is a sum over them.
-/

namespace Enclave

variable {κ : Type} {f : Fanout} {test : Box Float → Bool}

/-! ## The walk -/

namespace Root

/-- The boxed keys that a node holds itself. -/
def held : Root κ → List (Boxed κ)
  | ⟨0, (entries : List (Boxed κ))⟩ => entries
  | ⟨_ + 1, _⟩ => []

/-- The nodes right below a node whose boxes pass a test. -/
def admitted (test : Box Float → Bool) : Root κ → List (Root κ)
  | ⟨0, _⟩ => []
  | ⟨n + 1, (children : List (Boxed (Node κ n)))⟩ =>
    (children.filter (test ·.box)).map fun c => ⟨n, c.item⟩

/-- How many nodes there are at and below those on a stack. -/
def remaining (waiting : List (Root κ)) : Nat := (waiting.map (·.node.count)).sum

theorem remaining_admitted_lt (test : Box Float → Bool) :
    ∀ r : Root κ, remaining (r.admitted test) < r.node.count
  | ⟨0, _⟩ => Nat.zero_lt_one
  | ⟨n + 1, (children : List (Boxed (Node κ n)))⟩ => by
    have kept : ((children.filter (test ·.box)).map fun c => c.item.count).sum ≤
        (children.map fun c => c.item.count).sum :=
      (List.filter_sublist.map _).sum_le_sum fun _ _ => Nat.zero_le _
    have count : (Node.branch children).count =
        1 + (children.map fun c => c.item.count).sum := rfl
    show (((children.filter (test ·.box)).map fun c => (⟨n, c.item⟩ : Root κ)).map
      (·.node.count)).sum < (Node.branch children).count
    rw [List.map_map, count]
    exact Nat.lt_one_add_iff.mpr kept

theorem remaining_append_reverse (l waiting : List (Root κ)) :
    remaining (l.reverse ++ waiting) = remaining l + remaining waiting := by
  rw [remaining, List.map_append, List.sum_append, List.map_reverse, List.sum_reverse]
  rfl

/-- The nodes that are looked into, in order, when what passes right below one goes on top of the
stack. -/
def walk (test : Box Float → Bool) : List (Root κ) → List (Root κ)
  | [] => []
  | r :: waiting => r :: walk test ((r.admitted test).reverse ++ waiting)
termination_by waiting => remaining waiting
decreasing_by
  have := remaining_admitted_lt test r
  have : remaining (r :: waiting) = r.node.count + remaining waiting := List.sum_cons
  rw [remaining_append_reverse]
  omega

end Root

namespace Node

/-- The nodes that a search looks into, from the given one on down. -/
def reached (test : Box Float → Bool) : {n : Nat} → Node κ n → List (Root κ)
  | 0, node => [⟨0, node⟩]
  | n + 1, (children : List (Boxed (Node κ n))) =>
    ⟨n + 1, children⟩ :: (children.filter (test ·.box)).flatMap fun c => c.item.reached test

/-- Looking into a node leads on to those right below it that pass. -/
theorem reached_eq : ∀ r : Root κ,
    r.node.reached test = r :: (r.admitted test).flatMap fun s => s.node.reached test
  | ⟨0, _⟩ => rfl
  | ⟨n + 1, (children : List (Boxed (Node κ n)))⟩ => by
    rw [Root.admitted, List.flatMap_map]
    rfl

end Node

/-- The walk comes upon the nodes that a search of each waiting node looks into. -/
theorem Root.walk_perm (waiting : List (Root κ)) :
    (walk test waiting).Perm (waiting.flatMap fun r => r.node.reached test) := by
  induction waiting using walk.induct test with
  | case1 =>
    rw [walk]
    exact .refl _
  | case2 r waiting ih =>
    rw [walk, List.flatMap_cons, Node.reached_eq, List.cons_append]
    refine .cons r (ih.trans ?_)
    rw [List.flatMap_append]
    exact ((List.reverse_perm _).flatMap_right _).append_right _

/-! ## What the nodes that are looked into find and cost -/

namespace Node

theorem Effort.foldl_add (efforts : List Effort) : ∀ start : Effort,
    efforts.foldl Effort.add start = ⟨start.visited + (efforts.map (·.visited)).sum,
      start.tested + (efforts.map (·.tested)).sum⟩ := by
  induction efforts with
  | nil => exact fun _ => rfl
  | cons effort efforts ih =>
    intro start
    simp only [List.foldl_cons, ih, add, List.map_cons, List.sum_cons, Nat.add_assoc]

/-- A branch holds no entries itself, so what a search looks at is what it looks at below. -/
theorem flatMap_held_reached {n : Nat} (children : List (Boxed (Node κ n))) :
    ((branch children).reached test).flatMap (·.held) =
      (children.filter (test ·.box)).flatMap fun c => (c.item.reached test).flatMap (·.held) :=
  List.flatMap_assoc

/-- The effort counts the nodes that are looked into, and what they hold. -/
theorem effort_eq : ∀ {n : Nat} (node : Node κ n),
    node.effort test =
      ⟨(node.reached test).length, ((node.reached test).flatMap (·.held)).length⟩ := by
  intro n
  induction n with
  | zero =>
    intro (entries : List (Boxed κ))
    exact congrArg (Effort.mk 1 ·.length) (List.append_nil entries).symm
  | succ n ih =>
    intro (children : List (Boxed (Node κ n)))
    show ((children.filter (test ·.box)).map fun c => c.item.effort test).foldl Effort.add ⟨1, 0⟩ =
      ⟨((children.filter (test ·.box)).flatMap fun c => c.item.reached test).length + 1,
        (((branch children).reached test).flatMap (·.held)).length⟩
    rw [Effort.foldl_add, flatMap_held_reached, List.length_flatMap, List.length_flatMap]
    simp only [List.map_map, Function.comp_def, ih, Nat.add_comm, Nat.zero_add]

/-- A search finds what passes among the entries that are looked at. -/
theorem search_eq : ∀ {n : Nat} (node : Node κ n),
    node.search test = ((node.reached test).flatMap (·.held)).filter (test ·.box) := by
  intro n
  induction n with
  | zero =>
    intro (entries : List (Boxed κ))
    exact congrArg (List.filter (test ·.box)) (List.append_nil entries).symm
  | succ n ih =>
    intro (children : List (Boxed (Node κ n)))
    show (children.filter (test ·.box)).flatMap (fun c => c.item.search test) =
      (((branch children).reached test).flatMap (·.held)).filter (test ·.box)
    rw [flatMap_held_reached, List.filter_flatMap]
    simp only [ih]

/-! ## The nodes below a node -/

/-- The nodes below a node, each beside its box. -/
def below : {n : Nat} → Node κ n → List (Boxed (Root κ))
  | 0, _ => []
  | n + 1, (children : List (Boxed (Node κ n))) =>
    children.flatMap fun c => ⟨c.box, ⟨n, c.item⟩⟩ :: c.item.below

theorem length_below : ∀ {n : Nat} (node : Node κ n), node.below.length + 1 = node.count := by
  intro n
  induction n with
  | zero =>
    intro _
    rfl
  | succ n ih =>
    intro (children : List (Boxed (Node κ n)))
    show (children.flatMap fun c => (⟨c.box, ⟨n, c.item⟩⟩ : Boxed (Root κ)) :: c.item.below).length +
      1 = 1 + (children.map fun c => c.item.count).sum
    rw [List.length_flatMap]
    simp only [List.length_cons, ih, Nat.add_comm]

/-- A node below another is filled, its box covers what lies below it, and that lies below the other
too. -/
structure Inner (f : Fanout) {n : Nat} (node : Node κ n) (d : Boxed (Root κ)) : Prop where
  level_lt : d.item.level < n
  cover : d.box.IsCover (Boxed.boxes d.item.node.entries)
  filled : d.item.node.Filled f
  entries : d.item.node.entries ⊆ node.entries

theorem inner_of_mem_below : ∀ {n : Nat} (node : Node κ n), node.Sound f →
    ∀ d ∈ node.below, node.Inner f d := by
  intro n
  induction n with
  | zero =>
    intro _ _ d hd
    exact absurd hd List.not_mem_nil
  | succ n ih =>
    intro (children : List (Boxed (Node κ n))) sound d hd
    obtain ⟨c, hc, hd⟩ := List.mem_flatMap.mp hd
    have fits := sound_branch_iff.mp sound c hc
    have entries : c.item.entries ⊆ (branch children).entries :=
      fun e he => List.mem_flatMap.mpr ⟨c, hc, he⟩
    rcases List.mem_cons.mp hd with rfl | hd
    · exact ⟨Nat.lt_succ_self n, fits.cover, fits.filled, entries⟩
    · have inner := ih c.item fits.filled.sound d hd
      exact ⟨Nat.lt_succ_of_lt inner.level_lt, inner.cover, inner.filled,
        List.Subset.trans inner.entries entries⟩

/-- Boxes nest: that of a node below a child lies within that of the child. -/
theorem Inner.within {n : Nat} {c : Boxed (Node κ n)} {d : Boxed (Root κ)}
    (inner : c.item.Inner f d) (fits : c.Fits f) : d.box.Within c.box :=
  inner.cover.least c.box fun b hb => fits.cover.covers b (List.map_subset _ inner.entries hb)

/-- A search looks into the nodes below whose own boxes pass, if every box passes that holds one
that passes. -/
theorem reached_eq_filter (mono : ∀ b c : Box Float, c.Within b → test c = true → test b = true) :
    ∀ {n : Nat} (node : Node κ n), node.Sound f →
      node.reached test = ⟨n, node⟩ :: (node.below.filter (test ·.box)).map (·.item) := by
  intro n
  induction n with
  | zero =>
    intro _ _
    rfl
  | succ n ih =>
    intro (children : List (Boxed (Node κ n))) sound
    have each := sound_branch_iff.mp sound
    rw [reached, below, List.filter_flatMap, List.map_flatMap]
    refine congrArg (List.cons _) (flatMap_filter_eq ?_ ?_)
    · intro c hc passes
      rw [List.filter_cons_of_pos (by exact passes), List.map_cons]
      exact ih c.item (each c hc).filled.sound
    · intro c hc fails
      refine List.map_eq_nil_iff.mpr (List.filter_eq_nil_iff.mpr ?_)
      intro d hd passes
      -- No box below `c` passes, since that of `c` would pass with it.
      rcases List.mem_cons.mp hd with rfl | hd
      · exact Bool.false_ne_true (fails.symm.trans passes)
      · have inner := inner_of_mem_below c.item (each c hc).filled.sound d hd
        have := mono c.box d.box (inner.within (each c hc)) passes
        exact Bool.false_ne_true (fails.symm.trans this)

/-- Whatever is at or below a filled node has entries, and they are entries of that node. -/
theorem Filled.entries_of_mem (usable : f.Usable) {n : Nat} {node : Node κ n}
    (filled : node.Filled f) {r : Root κ}
    (hr : r ∈ (⟨n, node⟩ : Root κ) :: node.below.map (·.item)) :
    r.node.entries ≠ [] ∧ r.node.entries ⊆ node.entries := by
  rcases List.mem_cons.mp hr with rfl | hr
  · exact ⟨filled.entries_ne_nil usable, List.Subset.refl _⟩
  · obtain ⟨d, hd, rfl⟩ := List.mem_map.mp hr
    have inner := inner_of_mem_below node filled.sound d hd
    exact ⟨inner.filled.entries_ne_nil usable, inner.entries⟩

/-- A node and those below it are all different, if the entries are. -/
theorem nodup_below (usable : f.Usable) : ∀ {n : Nat} (node : Node κ n), node.Sound f →
    node.entries.Nodup → ((⟨n, node⟩ : Root κ) :: node.below.map (·.item)).Nodup := by
  intro n
  induction n with
  | zero =>
    intro node _ _
    exact List.nodup_singleton _
  | succ n ih =>
    intro (children : List (Boxed (Node κ n))) sound distinct
    have each := sound_branch_iff.mp sound
    obtain ⟨within, across⟩ := List.nodup_flatMap.mp distinct
    refine List.nodup_cons.mpr ⟨fun h => ?_, ?_⟩
    · obtain ⟨d, hd, same⟩ := List.mem_map.mp h
      have := (inner_of_mem_below (branch children) sound d hd).level_lt
      exact absurd (congrArg Root.level same) (Nat.ne_of_lt this)
    · rw [below, List.map_flatMap]
      refine List.nodup_flatMap.mpr
        ⟨fun c hc => ih c.item (each c hc).filled.sound (within c hc), ?_⟩
      -- What two children share would have entries of both, and no entry is below both.
      refine across.imp_of_mem fun {c c'} hc hc' apart => ?_
      intro r hr hr'
      obtain ⟨some, mine⟩ := (each c hc).filled.entries_of_mem usable hr
      obtain ⟨-, others⟩ := (each c' hc').filled.entries_of_mem usable hr'
      obtain ⟨e, he⟩ := List.exists_mem_of_ne_nil _ some
      exact apart (mine he) (others he)

end Node

/-! ## Queries -/

namespace RTree

variable [Ord κ]

/-- The nodes that a query for the keys at a point looks into, in order. -/
def visitsAt (t : RTree κ) (p : Point Float) : List (Root κ) := Root.walk (·.contains p) [t.root]

/-- A query for the keys at a point looks into the root and into the nodes below it whose boxes
contain the point, each of them once; that is the effort, and what these nodes hold at the point is
what is found. The boxes are the least ones that cover what lies below. -/
structure Pruned (t : RTree κ) (p : Point Float) : Prop where
  visits : (t.visitsAt p).Perm
    (t.root :: (t.root.node.below.filter (·.box.contains p)).map (·.item))
  nodup : (t.visitsAt p).Nodup
  cover : ∀ d ∈ t.root.node.below, d.box.IsCover (Boxed.boxes d.item.node.entries)
  nodes : t.root.node.below.length + 1 = t.nodeCount
  visited : (t.effortAt p).visited = 1 + t.root.node.below.countP (·.box.contains p)
  tested : (t.effortAt p).tested = ((t.visitsAt p).map (·.held.length)).sum
  keys : ((((t.visitsAt p).flatMap (·.held)).filter (·.box.contains p)).map (·.item)).Perm
    (t.keysAt p)

theorem visitsAt_perm (t : RTree κ) (p : Point Float) :
    (t.visitsAt p).Perm (t.root.node.reached (·.contains p)) := by
  have walked : (Root.walk (·.contains p) [t.root]).Perm
      ([t.root].flatMap fun r => r.node.reached (·.contains p)) := Root.walk_perm [t.root]
  rwa [List.flatMap_singleton] at walked

variable [Std.TransOrd κ]

theorem Sound.pruned_at {t : RTree κ} (sound : t.Sound) (p : Point Float) : t.Pruned p := by
  have nodes := sound.root.nodes
  have perm := t.visitsAt_perm p
  have reached : t.root.node.reached (·.contains p) =
      t.root :: (t.root.node.below.filter (·.box.contains p)).map (·.item) :=
    Node.reached_eq_filter (fun _ _ within => within.contains) t.root.node nodes
  have effort : t.effortAt p = ⟨_, _⟩ := Node.effort_eq t.root.node
  have distinct := Node.nodup_below sound.usable t.root.node nodes sound.nodup_items.of_map
  have passed : (t.root :: (t.root.node.below.filter (·.box.contains p)).map (·.item)).Nodup :=
    distinct.sublist ((List.filter_sublist.map _).cons_cons _)
  refine ⟨reached ▸ perm, (reached ▸ perm).nodup_iff.mpr passed, fun d hd => ?_,
    Node.length_below t.root.node, ?_, ?_, ?_⟩
  · exact (Node.inner_of_mem_below t.root.node nodes d hd).cover
  · rw [effort, reached, List.length_cons, List.length_map, ← List.countP_eq_length_filter,
      Nat.add_comm]
  · rw [effort, List.length_flatMap]
    exact (perm.map _).sum_nat.symm
  · rw [keysAt, search, Node.search_eq]
    exact ((perm.flatMap_right _).filter _).map _

variable [Std.LawfulEqOrd κ] [ToString κ]

/-- In every index that can be reached, a query for the keys at a point looks at no more nodes than
it must. -/
theorem Reachable.pruned {t : RTree κ} (h : t.Reachable) : ∀ p : Point Float, t.Pruned p :=
  h.sound.pruned_at

/-- Five keys far from each other lie in two leaves, of which a query for a point looks into one. -/
theorem pruned_of_two_leaves : ∃ t : RTree Nat,
    (t.nodeCount, t.effortAt ⟨0.5, 0.5, 0.5⟩, t.keysAt ⟨0.5, 0.5, 0.5⟩) = (3, ⟨2, 3⟩, [1]) ∧
      ∀ p : Point Float, t.Pruned p := by
  let := Platform.reference
  have start : make ⟨4, 2⟩ = .ok (empty ⟨4, 2⟩ : RTree Nat) := rfl
  have reachable := (Reachable.make start).run [
    .insert 1 ⟨⟨0, 0, 0⟩, ⟨1, 1, 1⟩⟩, .insert 2 ⟨⟨1, 0, 0⟩, ⟨2, 1, 1⟩⟩,
    .insert 3 ⟨⟨2, 0, 0⟩, ⟨3, 1, 1⟩⟩, .insert 4 ⟨⟨8, 0, 0⟩, ⟨9, 1, 1⟩⟩,
    .insert 5 ⟨⟨9, 0, 0⟩, ⟨10, 1, 1⟩⟩]
  exact ⟨_, by decide +kernel, reachable.pruned⟩

end RTree

end Enclave
