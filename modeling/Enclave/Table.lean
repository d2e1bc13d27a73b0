/-!
# Tables in key order

A `Table κ β` is a finite map kept as the list of its pairs in strictly ascending key order. The
order is part of the type, so a table has one representation: two tables that answer every look-up
alike are equal (`Table.ext_get?`), and what is listed from a table never depends on the order in
which it was filled.

A `KeySet κ` is a table that keeps nothing beside its keys.
-/

namespace Enclave

/-- A finite map, kept as its pairs in strictly ascending key order. -/
structure Table (κ : Type) (β : Type) [Ord κ] where
  entries : List (κ × β)
  ascending : entries.Pairwise fun a b => compare a.1 b.1 = .lt

namespace Table

variable {κ β γ : Type} [Ord κ]

/-- The table without entries. -/
def empty : Table κ β := ⟨[], .nil⟩

instance : EmptyCollection (Table κ β) := ⟨empty⟩
instance : Inhabited (Table κ β) := ⟨empty⟩

/-- The number of keys. -/
def size (t : Table κ β) : Nat := t.entries.length

def isEmpty (t : Table κ β) : Bool := t.entries.isEmpty

/-- The keys, ascending. -/
def keys (t : Table κ β) : List κ := t.entries.map (·.1)

/-- The values, in the order of their keys. -/
def values (t : Table κ β) : List β := t.entries.map (·.2)

/-- The value kept under `k`. -/
def get? (t : Table κ β) (k : κ) : Option β :=
  (t.entries.find? fun e => compare e.1 k == .eq).map (·.2)

def contains (t : Table κ β) (k : κ) : Bool := (t.get? k).isSome

/-! ## Filling and emptying -/

/-- Puts a pair at its place in an ascending list, over a pair of the same key. -/
def insertEntry (k : κ) (v : β) : List (κ × β) → List (κ × β)
  | [] => [(k, v)]
  | e :: rest =>
    match compare k e.1 with
    | .lt => (k, v) :: e :: rest
    | .eq => (k, v) :: rest
    | .gt => e :: insertEntry k v rest

theorem mem_insertEntry {k : κ} {v : β} {e : κ × β} :
    ∀ {l : List (κ × β)}, e ∈ insertEntry k v l → e = (k, v) ∨ e ∈ l
  | [], h => .inl (List.mem_singleton.mp h)
  | d :: rest, h => by
    unfold insertEntry at h
    split at h
    · exact List.mem_cons.mp h
    · exact (List.mem_cons.mp h).imp_right (List.mem_cons_of_mem d)
    · rcases List.mem_cons.mp h with rfl | h
      · exact .inr List.mem_cons_self
      · exact (mem_insertEntry h).imp_right (List.mem_cons_of_mem d)

theorem insertEntry_ascending [Std.TransOrd κ] (k : κ) (v : β) :
    ∀ {l : List (κ × β)}, l.Pairwise (fun a b => compare a.1 b.1 = .lt) →
      (insertEntry k v l).Pairwise fun a b => compare a.1 b.1 = .lt
  | [], _ => List.pairwise_singleton _ _
  | d :: rest, h => by
    obtain ⟨hd, hrest⟩ := List.pairwise_cons.mp h
    unfold insertEntry
    split
    next hlt =>
      refine List.pairwise_cons.mpr ⟨fun e he => ?_, h⟩
      rcases List.mem_cons.mp he with rfl | he
      · exact hlt
      · exact Std.TransCmp.lt_trans hlt (hd e he)
    next heq =>
      exact List.pairwise_cons.mpr
        ⟨fun e he => Std.TransCmp.lt_of_eq_of_lt heq (hd e he), hrest⟩
    next hgt =>
      refine List.pairwise_cons.mpr ⟨fun e he => ?_, insertEntry_ascending k v hrest⟩
      rcases mem_insertEntry he with rfl | he
      · exact Std.OrientedCmp.lt_of_gt hgt
      · exact hd e he

/-- Keeps `v` under `k`, in place of what was there. -/
def insert [Std.TransOrd κ] (t : Table κ β) (k : κ) (v : β) : Table κ β :=
  ⟨insertEntry k v t.entries, insertEntry_ascending k v t.ascending⟩

/-- Drops the key `k`. -/
def erase (t : Table κ β) (k : κ) : Table κ β :=
  ⟨t.entries.filter fun e => compare e.1 k != .eq, t.ascending.filter _⟩

/-- The table of the given pairs; of two pairs with one key the later stays. -/
def ofList [Std.TransOrd κ] (pairs : List (κ × β)) : Table κ β :=
  pairs.foldl (fun t e => t.insert e.1 e.2) empty

/-- The same keys, each value replaced by its image. -/
def mapValues (f : κ → β → γ) (t : Table κ β) : Table κ γ :=
  ⟨t.entries.map fun e => (e.1, f e.1 e.2), List.pairwise_map.mpr t.ascending⟩

/-! ## What look-ups find -/

/-- No key lies strictly below itself. -/
theorem ne_of_compare_lt [Std.TransOrd κ] {a b : κ} (h : compare a b = .lt) : a ≠ b := by
  rintro rfl
  exact absurd (Std.ReflCmp.compare_self.symm.trans h) (by decide)

/-- Ascending lists of the same pairs are the same list. -/
theorem eq_of_mem_iff [Std.TransOrd κ] : ∀ {l l' : List (κ × β)},
    l.Pairwise (fun a b => compare a.1 b.1 = .lt) →
    l'.Pairwise (fun a b => compare a.1 b.1 = .lt) → (∀ e, e ∈ l ↔ e ∈ l') → l = l'
  | [], [], _, _, _ => rfl
  | [], e :: _, _, _, h => absurd ((h e).mpr List.mem_cons_self) List.not_mem_nil
  | e :: _, [], _, _, h => absurd ((h e).mp List.mem_cons_self) List.not_mem_nil
  | a :: l, b :: l', hl, hl', h => by
    obtain ⟨ha, hrest⟩ := List.pairwise_cons.mp hl
    obtain ⟨hb, hrest'⟩ := List.pairwise_cons.mp hl'
    have hab : a = b := by
      rcases List.mem_cons.mp ((h a).mp List.mem_cons_self) with hab | hab
      · exact hab
      · rcases List.mem_cons.mp ((h b).mpr List.mem_cons_self) with hba | hba
        · exact hba.symm
        · exact absurd rfl (ne_of_compare_lt (Std.TransCmp.lt_trans (ha b hba) (hb a hab)))
    subst hab
    have fresh : ∀ {m : List (κ × β)} {e}, (∀ e ∈ m, compare a.1 e.1 = .lt) → e ∈ m → e ≠ a :=
      fun hm he hea => ne_of_compare_lt (hm _ he) (by rw [hea])
    have tails : l = l' := by
      refine eq_of_mem_iff hrest hrest' fun e => ⟨fun he => ?_, fun he => ?_⟩
      · exact (List.mem_cons.mp ((h e).mp (List.mem_cons_of_mem a he))).resolve_left (fresh ha he)
      · exact (List.mem_cons.mp ((h e).mpr (List.mem_cons_of_mem a he))).resolve_left (fresh hb he)
    rw [tails]

section Lawful

variable [Std.TransOrd κ] [Std.LawfulEqOrd κ]

/-- A look-up finds exactly the pairs of the table. -/
theorem get?_eq_some_iff (t : Table κ β) (k : κ) (v : β) :
    t.get? k = some v ↔ (k, v) ∈ t.entries := by
  obtain ⟨entries, ascending⟩ := t
  simp only [get?]
  induction entries with
  | nil => simp
  | cons e rest ih =>
    obtain ⟨hhead, hrest⟩ := List.pairwise_cons.mp ascending
    by_cases he : compare e.1 k = .eq
    · have hk : e.1 = k := Std.LawfulEqCmp.eq_of_compare he
      rw [List.find?_cons_of_pos (by simp [he])]
      constructor
      · intro h
        rw [← hk, ← Option.some.inj h]
        exact List.mem_cons_self
      · intro h
        rcases List.mem_cons.mp h with h | h
        · rw [← h]
          rfl
        · exact absurd hk (ne_of_compare_lt (hhead _ h))
    · rw [List.find?_cons_of_neg (by simp [he]), ih hrest]
      constructor
      · exact List.mem_cons_of_mem e
      · intro h
        rcases List.mem_cons.mp h with h | h
        · exact absurd (by rw [← h]; exact Std.ReflCmp.compare_self) he
        · exact h

theorem mem_insertEntry_iff {k : κ} {v : β} {e : κ × β} :
    ∀ {l : List (κ × β)}, l.Pairwise (fun a b => compare a.1 b.1 = .lt) →
      (e ∈ insertEntry k v l ↔ e = (k, v) ∨ e ∈ l ∧ e.1 ≠ k)
  | [], _ => by simp [insertEntry]
  | d :: rest, h => by
    obtain ⟨hd, hrest⟩ := List.pairwise_cons.mp h
    unfold insertEntry
    split
    next hlt =>
      have hdk : k ≠ d.1 := ne_of_compare_lt hlt
      have hlater : ∀ x ∈ rest, k ≠ x.1 := fun x hx =>
        ne_of_compare_lt (Std.TransCmp.lt_trans hlt (hd x hx))
      grind
    next heq =>
      have hdk : k = d.1 := Std.LawfulEqCmp.eq_of_compare heq
      have hlater : ∀ x ∈ rest, k ≠ x.1 := fun x hx => hdk ▸ ne_of_compare_lt (hd x hx)
      grind
    next hgt =>
      have hdk : d.1 ≠ k := ne_of_compare_lt (Std.OrientedCmp.lt_of_gt hgt)
      rw [List.mem_cons, mem_insertEntry_iff hrest]
      grind

theorem get?_insert (t : Table κ β) (k k' : κ) (v : β) :
    (t.insert k v).get? k' = if compare k k' = .eq then some v else t.get? k' := by
  apply Option.ext
  intro w
  rw [get?_eq_some_iff]
  split
  next h =>
    obtain rfl := Std.LawfulEqCmp.eq_of_compare h
    simp only [insert, mem_insertEntry_iff t.ascending]
    grind
  next h =>
    have hne : k' ≠ k := fun e => h (by rw [e]; exact Std.ReflCmp.compare_self)
    rw [get?_eq_some_iff]
    simp only [insert, mem_insertEntry_iff t.ascending]
    grind

theorem get?_erase (t : Table κ β) (k k' : κ) :
    (t.erase k).get? k' = if compare k k' = .eq then none else t.get? k' := by
  apply Option.ext
  intro w
  rw [get?_eq_some_iff]
  simp only [erase, List.mem_filter, bne_iff_ne, ne_eq]
  split
  next h =>
    obtain rfl := Std.LawfulEqCmp.eq_of_compare h
    simp [Std.ReflCmp.compare_self]
  next h =>
    rw [get?_eq_some_iff]
    have : compare k' k ≠ .eq := fun e => h (Std.OrientedCmp.eq_symm e)
    simp [this]

/-- A table is what its look-ups answer. -/
theorem ext_get? {t t' : Table κ β} (h : ∀ k, t.get? k = t'.get? k) : t = t' := by
  have : t.entries = t'.entries := eq_of_mem_iff t.ascending t'.ascending fun e => by
    rw [← get?_eq_some_iff t e.1 e.2, ← get?_eq_some_iff t' e.1 e.2, h]
  cases t
  cases t'
  cases this
  rfl

end Lawful

end Table

/-! ## Sets of keys -/

/-- A finite set, kept in ascending order. -/
abbrev KeySet (κ : Type) [Ord κ] := Table κ Unit

namespace KeySet

variable {κ : Type} [Ord κ] [Std.TransOrd κ]

/-- The set with `k` in it. -/
def add (s : KeySet κ) (k : κ) : KeySet κ := s.insert k ()

/-- The set of the listed keys. -/
def ofKeys (ks : List κ) : KeySet κ := ks.foldl add ∅

end KeySet

end Enclave
