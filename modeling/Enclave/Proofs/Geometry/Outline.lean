import Mathlib.Algebra.Group.Nat.Even
import Mathlib.Data.List.Rotate
import Enclave.Geometry.Footprint

/-!
# The edges of a closed line

The edges of a footprint are the legs of the open line that returns to the first vertex
(`Footprint.edges_eq_legs`). So they are the same edges wherever the list of vertices starts
(`Footprint.edges_rotate`) and the same with their ends exchanged when it is read backwards
(`Footprint.edges_reverse_perm`).

A chord from one vertex to a later one cuts a footprint in two, the `stretch` between them and the
`remainder`. The edges of the two parts are those of the whole, and the chord once in either
direction (`Footprint.edges_cut_perm`).

Whatever divides the plane in two, a closed line passes from one side to the other as often as back
(`Footprint.even_changes`).
-/

namespace Enclave.Footprint

variable {α : Type}

/-- The edges of an open line: each vertex with the next. -/
def legs : List (Vertex α) → List (Vertex α × Vertex α)
  | u :: v :: l => (u, v) :: legs (v :: l)
  | _ => []

theorem legs_append (l : List (Vertex α)) (v : Vertex α) (m : List (Vertex α)) :
    legs (l ++ v :: m) = legs (l ++ [v]) ++ legs (v :: m) := by
  induction l with
  | nil => rfl
  | cons u l ih =>
    cases l with
    | nil => rfl
    | cons w l => exact congrArg ((u, w) :: ·) ih

theorem legs_reverse (l : List (Vertex α)) :
    legs l.reverse = ((legs l).map Prod.swap).reverse := by
  induction l with
  | nil => rfl
  | cons u l ih =>
    cases l with
    | nil => rfl
    | cons v l =>
      rw [List.reverse_cons, List.reverse_cons, List.append_assoc, List.singleton_append,
        legs_append, ← List.reverse_cons, ih]
      simp [legs]

/-! ## The edges as legs -/

theorem zip_eq_legs (u w : Vertex α) (l : List (Vertex α)) :
    (u :: l).zip (l ++ [w]) = legs (u :: l ++ [w]) := by
  induction l generalizing u with
  | nil => rfl
  | cons v l ih => exact congrArg ((u, v) :: ·) (ih v)

theorem edges_eq_legs (u : Vertex α) (l : List (Vertex α)) :
    edges (u :: l) = legs (u :: l ++ [u]) := zip_eq_legs u u l

theorem edges_eq_zip (f : Footprint α) : f.edges = f.zip (f.rotate 1) := by
  cases f with
  | nil => rfl
  | cons u l => rw [List.rotate_cons_succ, List.rotate_zero, edges]

theorem map_fst_edges (f : Footprint α) : f.edges.map Prod.fst = f := by
  rw [edges_eq_zip]
  exact List.map_fst_zip (List.length_rotate f 1).ge

theorem map_snd_edges (f : Footprint α) : f.edges.map Prod.snd = f.rotate 1 := by
  rw [edges_eq_zip]
  exact List.map_snd_zip (List.length_rotate f 1).le

theorem fst_mem_of_mem_edges {f : Footprint α} {e : Vertex α × Vertex α} (he : e ∈ f.edges) :
    e.1 ∈ f := by
  have h := List.mem_map_of_mem (f := Prod.fst) he
  rwa [map_fst_edges] at h

theorem snd_mem_of_mem_edges {f : Footprint α} {e : Vertex α × Vertex α} (he : e ∈ f.edges) :
    e.2 ∈ f := by
  have h := List.mem_map_of_mem (f := Prod.snd) he
  rwa [map_snd_edges, List.mem_rotate] at h

/-- Every vertex is where some edge ends. -/
theorem exists_edge_to {f : Footprint α} {v : Vertex α} (hv : v ∈ f) : ∃ e ∈ f.edges, e.2 = v := by
  rw [← List.mem_rotate (n := 1), ← map_snd_edges] at hv
  exact List.mem_map.mp hv

/-! ## Where the list starts and which way it runs -/

theorem edges_rotate (f : Footprint α) (k : ℕ) : edges (f.rotate k) = f.edges.rotate k := by
  rw [edges_eq_zip, edges_eq_zip, List.rotate_rotate, Nat.add_comm, ← List.rotate_rotate]
  exact (List.zipWith_rotate_distrib Prod.mk f (f.rotate 1) k (List.length_rotate f 1).symm).symm

theorem edges_rotate_perm (f : Footprint α) (k : ℕ) : (edges (f.rotate k)).Perm f.edges := by
  rw [edges_rotate]
  exact List.rotate_perm _ _

/-- Backwards, the line takes the same edges, each from its other end. -/
theorem edges_reverse_perm (f : Footprint α) :
    (edges f.reverse).Perm (f.edges.map Prod.swap) := by
  cases f with
  | nil => exact .nil
  | cons u l =>
    -- the reversed list, started from `u` again, is the open line reversed
    have turned : (u :: l).reverse.rotate l.length = u :: l.reverse := by
      rw [List.reverse_cons, ← List.length_reverse, List.rotate_append_length_eq]
      rfl
    have legs_eq : edges (u :: l.reverse) = ((edges (u :: l)).map Prod.swap).reverse := by
      rw [edges_eq_legs, edges_eq_legs, ← legs_reverse]
      simp
    have perm := (edges_rotate_perm (u :: l).reverse l.length).symm
    rw [turned, legs_eq] at perm
    exact perm.trans (List.reverse_perm _)

/-! ## Cutting along a chord -/

/-- The part of a footprint from vertex `i` to vertex `j`, closed by the chord between them. -/
def stretch (f : Footprint α) (i j : ℕ) : Footprint α := (f.drop i).take (j + 1 - i)

/-- What is left when the part from vertex `i` to vertex `j` is cut off. -/
def remainder (f : Footprint α) (i j : ℕ) : Footprint α := f.drop j ++ f.take (i + 1)

/-- Where the parts of a footprint meet: both run from end to end of the chord, and one after the
other they are the whole. -/
theorem exists_cut (f : Footprint α) {i j : ℕ} (before : i < j) (within : j < f.length) :
    ∃ l m, f.stretch i j = f[i] :: l ++ [f[j]] ∧ f.remainder i j = f[j] :: m ++ [f[i]] ∧
      f.rotate i = f[i] :: l ++ f[j] :: m := by
  have atI : f.drop i = f[i] :: f.drop (i + 1) := List.drop_eq_getElem_cons _
  have atJ : f.drop j = f[j] :: f.drop (j + 1) := List.drop_eq_getElem_cons _
  obtain ⟨l, between, length⟩ :
      ∃ l, l ++ f.drop j = f.drop (i + 1) ∧ j + 1 - i = l.length + 1 + 1 := by
    refine ⟨(f.drop (i + 1)).take (j - (i + 1)), ?_, ?_⟩
    · have parts := List.take_append_drop (j - (i + 1)) (f.drop (i + 1))
      rwa [List.drop_drop, Nat.add_sub_cancel' before] at parts
    · rw [List.length_take, List.length_drop]
      omega
  refine ⟨l, f.drop (j + 1) ++ f.take i, ?_, ?_, ?_⟩
  · rw [stretch, atI, ← between, atJ, length, List.take_succ_cons, List.take_length_add_append]
    rfl
  · rw [remainder, atJ, List.take_succ_eq_append_getElem (before.trans within), List.cons_append,
      List.cons_append, List.append_assoc]
  · rw [List.rotate_eq_drop_append_take (before.trans within).le, atI, ← between, atJ,
      ← List.cons_append, List.append_assoc]
    rfl

theorem edges_cons_concat (u w : Vertex α) (l : List (Vertex α)) :
    edges (u :: l ++ [w]) = legs (u :: l ++ [w]) ++ [(w, u)] := by
  rw [List.cons_append, edges_eq_legs, ← List.cons_append, List.append_assoc,
    List.singleton_append, legs_append]
  rfl

theorem chord_mem_edges_stretch (f : Footprint α) {i j : ℕ} (before : i < j)
    (within : j < f.length) : (f[j], f[i]) ∈ edges (f.stretch i j) := by
  obtain ⟨l, -, stretch_eq, -⟩ := f.exists_cut before within
  rw [stretch_eq, edges_cons_concat]
  exact List.mem_append_right _ (List.mem_singleton_self _)

theorem chord_mem_edges_remainder (f : Footprint α) {i j : ℕ} (before : i < j)
    (within : j < f.length) : (f[i], f[j]) ∈ edges (f.remainder i j) := by
  obtain ⟨-, m, -, remainder_eq, -⟩ := f.exists_cut before within
  rw [remainder_eq, edges_cons_concat]
  exact List.mem_append_right _ (List.mem_singleton_self _)

theorem edges_cut_perm (f : Footprint α) {i j : ℕ} (before : i < j) (within : j < f.length) :
    (edges (f.stretch i j) ++ edges (f.remainder i j)).Perm
      ((f[j], f[i]) :: (f[i], f[j]) :: f.edges) := by
  obtain ⟨l, m, stretch_eq, remainder_eq, turned⟩ := f.exists_cut before within
  have whole : edges (f.rotate i) = legs (f[i] :: l ++ [f[j]]) ++ legs (f[j] :: m ++ [f[i]]) := by
    rw [turned, List.cons_append, edges_eq_legs, List.cons_append, List.append_assoc,
      List.cons_append, ← List.cons_append, legs_append]
  -- the chord closes each part, so it is the last edge of either
  have last_first := (List.perm_append_singleton (f[j], f[i]) (legs (f[i] :: l ++ [f[j]]))).append
    (List.perm_append_singleton (f[i], f[j]) (legs (f[j] :: m ++ [f[i]])))
  have perm := last_first.trans (List.perm_middle.cons _)
  rw [← edges_cons_concat, ← edges_cons_concat, ← whole, ← stretch_eq, ← remainder_eq] at perm
  exact perm.trans (((edges_rotate_perm f i).cons _).cons _)

/-! ## Passing from one side to the other -/

theorem changes_legs (side : Vertex α → Bool) (u w : Vertex α) (l : List (Vertex α)) :
    (legs (u :: l ++ [w])).countP (fun e => side e.1 != side e.2) % 2 =
      (side u != side w).toNat := by
  induction l generalizing u with
  | nil =>
    show (List.countP (fun e => side e.1 != side e.2) [(u, w)]) % 2 = _
    rw [List.countP_cons, List.countP_nil]
    cases side u <;> cases side w <;> rfl
  | cons v l ih =>
    show (List.countP (fun e => side e.1 != side e.2) ((u, v) :: legs (v :: l ++ [w]))) % 2 = _
    rw [List.countP_cons, Nat.add_mod, ih v]
    cases side u <;> cases side v <;> cases side w <;> rfl

/-- A closed line changes sides an even number of times. -/
theorem even_changes (f : Footprint α) (side : Vertex α → Bool) :
    Even (f.edges.countP fun e => side e.1 != side e.2) := by
  cases f with
  | nil => exact Even.zero
  | cons u l =>
    rw [edges_eq_legs, Nat.even_iff, changes_legs, bne_self_eq_false]
    rfl

end Enclave.Footprint
