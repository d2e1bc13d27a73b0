import Enclave.Index.Growth
import Enclave.Proofs.Geometry.Cover

/-!
# Sound nodes

Below a sound node, every child's box is the cover of the entries below the child, and every child
holds as many items as the bounds allow (`Node.Sound`). How much the node itself holds is not part
of it: a root may hold little, and so may a node from which an entry was just taken. `Node.Filled`
adds the bounds for the node itself, as they hold of every node but the root.

Sound nodes answer for their entries: a search that passes over children finds what a scan of the
entries finds (`Node.search_eq_filter`), and a key is found through the boxes that hold its own
(`Node.holds_of_mem`).
-/

namespace Enclave

variable {α β : Type}

/-! ## Lists of lists -/

/-- Leaving out what contributes nothing changes nothing. -/
theorem flatMap_filter_eq {l : List α} {p : α → Bool} {f g : α → List β}
    (pass : ∀ a ∈ l, p a = true → f a = g a) (fail : ∀ a ∈ l, p a = false → g a = []) :
    (l.filter p).flatMap f = l.flatMap g := by
  induction l with
  | nil => rfl
  | cons a l ih =>
    have ih := ih (fun b hb => pass b (List.mem_cons_of_mem a hb))
      (fun b hb => fail b (List.mem_cons_of_mem a hb))
    rw [List.flatMap_cons]
    cases hp : p a with
    | true => rw [List.filter_cons_of_pos hp, List.flatMap_cons, ih, pass a List.mem_cons_self hp]
    | false =>
      rw [List.filter_cons_of_neg (by simp [hp]), ih, fail a List.mem_cons_self hp, List.nil_append]

/-! ## Soundness -/

/-- The boxes of items. -/
def Boxed.boxes (items : List (Boxed α)) : List (Box Float) := items.map (·.box)

namespace Node

variable {κ : Type} {n : Nat}

/-- Below the node, boxes are the covers of what they stand for, and nodes hold what they may. -/
def Sound (f : Fanout) : {n : Nat} → Node κ n → Prop
  | 0, _ => True
  | _ + 1, (children : List (Boxed (Node κ _))) => ∀ c ∈ children,
    c.box.IsCover (Boxed.boxes c.item.entries) ∧ f.min ≤ c.item.size ∧ c.item.size ≤ f.max ∧
      c.item.Sound f

/-- A sound node that holds what a node other than the root may hold. -/
structure Filled (f : Fanout) (node : Node κ n) : Prop where
  sound : node.Sound f
  min_le : f.min ≤ node.size
  le_max : node.size ≤ f.max

/-- Every box below the node is valid. -/
def Valid (node : Node κ n) : Prop := ∀ e ∈ node.entries, e.box.isValid = true

end Node

/-- A child fits its parent: its box covers it, and it is filled. -/
structure Boxed.Fits {κ : Type} {n : Nat} (f : Fanout) (c : Boxed (Node κ n)) : Prop where
  cover : c.box.IsCover (Boxed.boxes c.item.entries)
  filled : c.item.Filled f

namespace Node

variable {κ : Type} {n : Nat}

theorem sound_branch_iff {f : Fanout} {children : List (Boxed (Node κ n))} :
    (branch children).Sound f ↔ ∀ c ∈ children, c.Fits f :=
  ⟨fun h c hc => ⟨(h c hc).1, (h c hc).2.2.2, (h c hc).2.1, (h c hc).2.2.1⟩,
    fun h c hc => ⟨(h c hc).cover, (h c hc).filled.min_le, (h c hc).filled.le_max,
      (h c hc).filled.sound⟩⟩

theorem Filled.two_le_size {f : Fanout} {node : Node κ n} (filled : node.Filled f)
    (usable : f.Usable) : 2 ≤ node.size := Nat.le_trans usable.two_le_min filled.min_le

theorem Filled.size_pos {f : Fanout} {node : Node κ n} (filled : node.Filled f)
    (usable : f.Usable) : 0 < node.size :=
  Nat.lt_of_lt_of_le Nat.zero_lt_two (filled.two_le_size usable)

theorem entries_branch (children : List (Boxed (Node κ n))) :
    (branch children).entries = children.flatMap (·.item.entries) := rfl

theorem Valid.child {children : List (Boxed (Node κ n))} (h : (branch children).Valid)
    {c : Boxed (Node κ n)} (hc : c ∈ children) : c.item.Valid :=
  fun e he => h e (List.mem_flatMap.mpr ⟨c, hc, he⟩)

theorem Valid.perm {m : Nat} {node : Node κ n} {node' : Node κ m} (h : node.Valid)
    (perm : node.entries.Perm node'.entries) : node'.Valid :=
  fun e he => h e (perm.mem_iff.mpr he)

/-- Below a sound node that holds something there are entries. -/
theorem entries_ne_nil {f : Fanout} (usable : f.Usable) : ∀ {n : Nat} (node : Node κ n),
    node.Sound f → 0 < node.size → node.entries ≠ [] := by
  intro n
  induction n with
  | zero =>
    intro (entries : List (Boxed κ)) _ pos
    exact List.length_pos_iff.mp pos
  | succ n ih =>
    intro (children : List (Boxed (Node κ n))) sound pos
    obtain ⟨c, hc⟩ := List.exists_mem_of_length_pos pos
    have filled := (sound_branch_iff.mp sound c hc).filled
    obtain ⟨e, he⟩ := List.exists_mem_of_ne_nil _ (ih c.item filled.sound (filled.size_pos usable))
    exact List.ne_nil_of_mem (List.mem_flatMap.mpr ⟨c, hc, he⟩)

theorem Filled.entries_ne_nil {f : Fanout} {node : Node κ n} (filled : node.Filled f)
    (usable : f.Usable) : node.entries ≠ [] :=
  Node.entries_ne_nil usable node filled.sound (filled.size_pos usable)

/-! ## Covers -/

theorem boxes_flatMap (children : List (Boxed (Node κ n))) :
    Boxed.boxes (children.flatMap (·.item.entries)) =
      children.flatMap fun c => Boxed.boxes c.item.entries :=
  List.map_flatMap

/-- The box computed for a node that is not empty covers the entries below it. -/
theorem exists_cover? {f : Fanout} : ∀ {n : Nat} (node : Node κ n), node.Sound f → node.Valid →
    0 < node.size → ∃ b, node.cover? = some b ∧ b.IsCover (Boxed.boxes node.entries)
  | 0, (entries : List (Boxed κ)), _, valid, pos => by
    refine Box.exists_cover? (by simpa [Boxed.boxes] using List.length_pos_iff.mp pos) ?_
    intro c hc
    obtain ⟨e, he, rfl⟩ := List.mem_map.mp hc
    exact Box.within_self_of_isValid (valid e he)
  | n + 1, (children : List (Boxed (Node κ n))), sound, _, pos => by
    have each := sound_branch_iff.mp sound
    have numbers : ∀ b ∈ Boxed.boxes children, b.Within b := by
      intro b hb
      obtain ⟨c, hc, rfl⟩ := List.mem_map.mp hb
      exact (each c hc).cover.self
    obtain ⟨b, hb, cover⟩ := Box.exists_cover?
      (by simpa [Boxed.boxes] using List.length_pos_iff.mp pos) numbers
    refine ⟨b, hb, ?_⟩
    show b.IsCover (Boxed.boxes (children.flatMap (·.item.entries)))
    rw [boxes_flatMap]
    exact cover.flatMap fun c hc => (each c hc).cover

/-- A filled node fits beside the box computed for it. -/
theorem boxed_fits {f : Fanout} (usable : f.Usable) {node : Node κ n} (filled : node.Filled f)
    (valid : node.Valid) : node.boxed.Fits f := by
  obtain ⟨b, hb, cover⟩ := exists_cover? node filled.sound valid (filled.size_pos usable)
  refine ⟨?_, filled⟩
  simpa only [boxed, hb, Option.getD_some] using cover

/-! ## Searching -/

/-- A search finds what a scan finds, if every box passes that holds one that passes. -/
theorem search_eq_filter {f : Fanout} {test : Box Float → Bool}
    (mono : ∀ b c : Box Float, c.Within b → test c = true → test b = true) :
    ∀ {n : Nat} (node : Node κ n), node.Sound f →
      node.search test = node.entries.filter (test ·.box) := by
  intro n
  induction n with
  | zero =>
    intro _ _
    rfl
  | succ n ih =>
    intro (children : List (Boxed (Node κ n))) sound
    have each := sound_branch_iff.mp sound
    show (children.filter (test ·.box)).flatMap (fun c => c.item.search test) =
      (children.flatMap (·.item.entries)).filter (test ·.box)
    rw [List.filter_flatMap]
    apply flatMap_filter_eq
    · intro c hc _
      exact ih c.item (each c hc).filled.sound
    · intro c hc fails
      refine List.filter_eq_nil_iff.mpr ?_
      intro e he passes
      have := mono c.box e.box ((each c hc).cover.covers e.box (List.mem_map_of_mem he)) passes
      exact Bool.false_ne_true (fails.symm.trans this)

variable [Ord κ]

/-- An entry with a valid box is found through the boxes that hold its own. -/
theorem holds_of_mem [Std.ReflOrd κ] {f : Fanout} {e : Boxed κ} (valid : e.box.isValid = true) :
    ∀ {n : Nat} (node : Node κ n), node.Sound f → e ∈ node.entries →
      node.holds e.item e.box = true := by
  intro n
  induction n with
  | zero =>
    intro entries _ he
    exact List.any_eq_true.mpr ⟨e, he, by simp [isOf, Std.ReflOrd.compare_self]⟩
  | succ n ih =>
    intro (children : List (Boxed (Node κ n))) sound he
    obtain ⟨c, hc, he⟩ := List.mem_flatMap.mp he
    obtain ⟨cover, filled⟩ := sound_branch_iff.mp sound c hc
    have within := cover.covers e.box (List.mem_map_of_mem he)
    refine List.any_eq_true.mpr ⟨c, hc, ?_⟩
    rw [within.containsBox valid, Bool.true_and]
    exact ih c.item filled.sound he

end Node

end Enclave
