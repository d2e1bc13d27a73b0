import Mathlib.Data.List.Perm.Basic
import Mathlib.Data.List.Nodup
import Enclave.Table

/-!
# What a table holds

The pairs of a table, as a list without repetition, and how filling and emptying change it. Keys
that ascend strictly are pairwise different, so a list of a table's keys names each of them once.
-/

namespace Enclave.Table

variable {κ β : Type} [Ord κ]

/-- Tables are equal if their pairs are. -/
instance [DecidableEq κ] [DecidableEq β] : DecidableEq (Table κ β) := fun t t' =>
  decidable_of_iff (t.entries = t'.entries) ⟨fun h => by cases t; cases t'; cases h; rfl, (· ▸ rfl)⟩

variable [Std.TransOrd κ]

omit [Std.TransOrd κ] in
theorem ascending_keys (t : Table κ β) : t.keys.Pairwise fun a b => compare a b = .lt :=
  List.pairwise_map.mpr t.ascending

theorem nodup_keys (t : Table κ β) : t.keys.Nodup :=
  List.nodup_iff_pairwise_ne.mpr (t.ascending_keys.imp fun h => ne_of_compare_lt h)

/-- The keys before a key are the lesser ones. -/
theorem mem_passed_iff {t : Table κ β} {passed rest : List κ} {a k : κ}
    (ordered : t.keys = passed ++ k :: rest) (ha : a ∈ t.keys) :
    a ∈ passed ↔ compare a k = .lt := by
  have ascending := t.ascending_keys
  rw [ordered] at ascending ha
  obtain ⟨-, later, before⟩ := List.pairwise_append.mp ascending
  constructor
  · exact fun h => before a h k List.mem_cons_self
  · intro lt
    rcases List.mem_append.mp ha with h | h
    · exact h
    · rcases List.mem_cons.mp h with rfl | h
      · exact absurd rfl (ne_of_compare_lt lt)
      · have back := (List.pairwise_cons.mp later).1 a h
        exact absurd rfl (ne_of_compare_lt (Std.TransCmp.lt_trans lt back))

theorem nodup_entries (t : Table κ β) : t.entries.Nodup := t.nodup_keys.of_map _

/-- What a table of listed pairs holds is listed. -/
theorem mem_of_mem_ofList {e : κ × β} {pairs : List (κ × β)} (h : e ∈ (ofList pairs).entries) :
    e ∈ pairs := by
  have held : ∀ (pairs : List (κ × β)) (t : Table κ β),
      e ∈ (pairs.foldl (fun t e => t.insert e.1 e.2) t).entries → e ∈ t.entries ∨ e ∈ pairs := by
    intro pairs
    induction pairs with
    | nil => exact fun _ h => .inl h
    | cons d pairs ih =>
      intro t h
      rcases ih (t.insert d.1 d.2) h with h | h
      · rcases mem_insertEntry h with rfl | h
        · exact .inr List.mem_cons_self
        · exact .inl h
      · exact .inr (List.mem_cons_of_mem d h)
  exact (held pairs empty h).resolve_left List.not_mem_nil

variable [Std.LawfulEqOrd κ] {t : Table κ β} {k : κ} {v : β}

theorem mem_entries_insert {e : κ × β} :
    e ∈ (t.insert k v).entries ↔ e = (k, v) ∨ e ∈ t.entries ∧ e.1 ≠ k :=
  mem_insertEntry_iff t.ascending

omit [Std.TransOrd κ] in
theorem mem_entries_erase {e : κ × β} : e ∈ (t.erase k).entries ↔ e ∈ t.entries ∧ e.1 ≠ k := by
  simp only [erase, List.mem_filter, bne_iff_ne, ne_eq, Std.LawfulEqOrd.compare_eq_iff_eq]

/-- Listed pairs of different keys are all held. -/
theorem mem_ofList_iff {pairs : List (κ × β)} (distinct : (pairs.map (·.1)).Nodup) {e : κ × β} :
    e ∈ (ofList pairs).entries ↔ e ∈ pairs := by
  have held : ∀ (pairs : List (κ × β)) (t : Table κ β), (pairs.map (·.1)).Nodup →
      (e ∈ (pairs.foldl (fun t e => t.insert e.1 e.2) t).entries ↔
        e ∈ pairs ∨ e ∈ t.entries ∧ e.1 ∉ pairs.map (·.1)) := by
    intro pairs
    induction pairs with
    | nil => intro t _; simp
    | cons d pairs ih =>
      intro t distinct
      obtain ⟨single, distinct⟩ := List.nodup_cons.mp distinct
      rw [List.foldl_cons, ih _ distinct, mem_entries_insert, List.map_cons, List.mem_cons,
        List.mem_cons]
      grind
  exact (held pairs empty distinct).trans (or_iff_left fun h => List.not_mem_nil h.1)

/-- A table is that of its own pairs. -/
theorem ofList_entries (t : Table κ β) : ofList t.entries = t :=
  ext_get? fun k => Option.ext fun v => by
    rw [get?_eq_some_iff, get?_eq_some_iff, mem_ofList_iff t.nodup_keys]

theorem contains_eq_true_iff : t.contains k = true ↔ ∃ v, (k, v) ∈ t.entries := by
  simp only [contains, Option.isSome_iff_exists, get?_eq_some_iff]

theorem mem_keys_iff : k ∈ t.keys ↔ ∃ v, t.get? k = some v := by
  simp only [keys, List.mem_map, Prod.exists, exists_and_right, exists_eq_right, get?_eq_some_iff]

theorem mem_values_iff : v ∈ t.values ↔ ∃ k, t.get? k = some v := by
  simp only [values, List.mem_map, Prod.exists, exists_eq_right, get?_eq_some_iff]

/-- The value of a key is the one it stands with. -/
theorem eq_of_mem_entries {v' : β} (h : (k, v) ∈ t.entries) (h' : (k, v') ∈ t.entries) : v = v' :=
  Option.some.inj (((get?_eq_some_iff t k v).mpr h).symm.trans ((get?_eq_some_iff t k v').mpr h'))

/-- A new key brings one pair. -/
theorem insert_perm (h : t.contains k = false) :
    (t.insert k v).entries.Perm ((k, v) :: t.entries) := by
  have fresh : ∀ w, (k, w) ∉ t.entries := fun w hw =>
    Bool.false_ne_true (h.symm.trans (contains_eq_true_iff.mpr ⟨w, hw⟩))
  refine (List.perm_ext_iff_of_nodup (nodup_entries _)
    (List.nodup_cons.mpr ⟨fresh v, t.nodup_entries⟩)).mpr fun e => ?_
  rw [mem_entries_insert, List.mem_cons]
  refine or_congr_right (and_iff_left_of_imp fun he => ?_)
  rintro rfl
  exact fresh e.2 he

/-- A key dropped takes its pair along. -/
theorem erase_perm (h : (k, v) ∈ t.entries) :
    t.entries.Perm ((k, v) :: (t.erase k).entries) := by
  have gone : (k, v) ∉ (t.erase k).entries := fun he => (mem_entries_erase.mp he).2 rfl
  refine (List.perm_ext_iff_of_nodup t.nodup_entries
    (List.nodup_cons.mpr ⟨gone, nodup_entries _⟩)).mpr fun e => ?_
  rw [List.mem_cons, mem_entries_erase]
  constructor
  · intro he
    by_cases hk : e.1 = k
    · subst hk
      exact .inl (Prod.ext rfl (eq_of_mem_entries he h))
    · exact .inr ⟨he, hk⟩
  · rintro (rfl | ⟨he, -⟩)
    · exact h
    · exact he

/-! ## Look-ups after a change -/

omit [Std.TransOrd κ] [Std.LawfulEqOrd κ] in
theorem contains_iff_get? : t.contains k = true ↔ ∃ v, t.get? k = some v :=
  Option.isSome_iff_exists

theorem get?_insert_self : (t.insert k v).get? k = some v := by
  rw [get?_insert, if_pos Std.ReflCmp.compare_self]

theorem get?_insert_of_ne {k' : κ} (h : k' ≠ k) : (t.insert k v).get? k' = t.get? k' := by
  rw [get?_insert, if_neg fun e => h (Std.LawfulEqCmp.eq_of_compare e).symm]

theorem contains_insert_iff {k' : κ} :
    (t.insert k v).contains k' = true ↔ k' = k ∨ t.contains k' = true := by
  by_cases h : k' = k
  · subst h
    simp [contains, get?_insert_self]
  · simp [contains, get?_insert_of_ne h, h]

theorem get?_erase_self : (t.erase k).get? k = none := by
  rw [get?_erase, if_pos Std.ReflCmp.compare_self]

theorem get?_erase_of_ne {k' : κ} (h : k' ≠ k) : (t.erase k).get? k' = t.get? k' := by
  rw [get?_erase, if_neg fun e => h (Std.LawfulEqCmp.eq_of_compare e).symm]

theorem contains_erase_of_ne {k' : κ} (h : k' ≠ k) : (t.erase k).contains k' = t.contains k' := by
  rw [contains, contains, get?_erase_of_ne h]

theorem get?_of_get?_erase {k' : κ} (h : (t.erase k).get? k' = some v) : t.get? k' = some v := by
  rw [get?_erase] at h
  split at h
  · cases h
  · exact h

/-- The second table differs from the first one under one key at most, where it has `found`. -/
structure DiffersAt (t t' : Table κ β) (k : κ) (found : Option β) : Prop where
  here : t'.get? k = found
  elsewhere : ∀ k', k' ≠ k → t'.get? k' = t.get? k'

theorem differsAt_insert (t : Table κ β) (k : κ) (v : β) : t.DiffersAt (t.insert k v) k (some v) :=
  ⟨get?_insert_self, fun _ => get?_insert_of_ne⟩

theorem differsAt_erase (t : Table κ β) (k : κ) : t.DiffersAt (t.erase k) k none :=
  ⟨get?_erase_self, fun _ => get?_erase_of_ne⟩

omit [Std.TransOrd κ] [Std.LawfulEqOrd κ] in
/-- Of two changes under one key the later stands. -/
theorem DiffersAt.trans {t t' t'' : Table κ β} {k : κ} {v w : Option β} (h : t.DiffersAt t' k v)
    (h' : t'.DiffersAt t'' k w) : t.DiffersAt t'' k w :=
  ⟨h'.here, fun k' ne => (h'.elsewhere k' ne).trans (h.elsewhere k' ne)⟩

omit [Std.TransOrd κ] [Std.LawfulEqOrd κ] in
theorem get?_mapValues {γ : Type} (g : β → γ) :
    (t.mapValues fun _ => g).get? k = (t.get? k).map g := by
  simp only [get?, mapValues, List.find?_map, Option.map_map, Function.comp_def]

omit [Std.TransOrd κ] [Std.LawfulEqOrd κ] in
theorem contains_mapValues {γ : Type} (g : β → γ) :
    (t.mapValues fun _ => g).contains k = t.contains k := by
  rw [contains, contains, get?_mapValues, Option.isSome_map]

/-- A key that is not there is dropped in vain. -/
theorem erase_eq_self (h : t.get? k = none) : t.erase k = t :=
  ext_get? fun k' => by
    by_cases same : k' = k
    · rw [same, get?_erase_self, h]
    · exact get?_erase_of_ne same

/-! ## Leaving keys out -/

section Without

variable [DecidableEq κ] {ks ks' : List κ}

/-- The table without the listed keys. -/
def without (t : Table κ β) (ks : List κ) : Table κ β :=
  ⟨t.entries.filter (·.1 ∉ ks), t.ascending.filter _⟩

omit [Std.TransOrd κ] [Std.LawfulEqOrd κ] in
@[simp] theorem without_nil : t.without [] = t := by
  simp [without]

omit [Std.TransOrd κ] [Std.LawfulEqOrd κ] in
theorem without_without : (t.without ks).without ks' = t.without (ks ++ ks') := by
  simp only [without, List.filter_filter, List.mem_append, not_or, Bool.decide_and, Bool.and_comm]

theorem get?_without : (t.without ks).get? k = if k ∈ ks then none else t.get? k := by
  apply Option.ext
  intro v
  rw [get?_eq_some_iff, without, List.mem_filter, decide_eq_true_iff]
  split
  next gone => exact iff_of_false (fun h => h.2 gone) nofun
  next stays => rw [get?_eq_some_iff, and_iff_left stays]

theorem without_singleton : t.without [k] = t.erase k :=
  ext_get? fun k' => by
    by_cases same : k' = k
    · rw [get?_without, same, if_pos List.mem_cons_self, get?_erase_self]
    · rw [get?_without, if_neg (by simpa using same), get?_erase_of_ne same]

end Without

end Enclave.Table
