import Enclave.Flag.Catalogue
import Enclave.Proofs.Outcome
import Enclave.Proofs.Table

/-!
# What values combine to

A combinator can use the values of the kinds that suit it, and makes something of a list exactly if
the list has such a value (`Combinator.combine_eq_none_iff`). What it makes is one of them
(`Combinator.mem_of_combine`). A rule that was registered has a combinator that suits its kind
(`FlagRule.Coherent`), so it can use every value of that kind.
-/

namespace Enclave

namespace Permission

theorem combine_eq_none_iff {opinions : List (Option Permission)} :
    combine opinions = none ↔ ∀ o ∈ opinions, o = none := by
  rw [combine]
  split
  next deny =>
    refine iff_of_false (Option.some_ne_none _) fun none => ?_
    exact absurd (none _ (List.contains_iff_mem.mp deny)) (Option.some_ne_none _)
  next noDeny =>
    split
    next allow =>
      refine iff_of_false (Option.some_ne_none _) fun none => ?_
      exact absurd (none _ (List.contains_iff_mem.mp allow)) (Option.some_ne_none _)
    next noAllow =>
      refine iff_of_true rfl ?_
      rintro (_ | _ | _) ho
      · rfl
      · exact absurd (List.contains_iff_mem.mpr ho) noAllow
      · exact absurd (List.contains_iff_mem.mpr ho) noDeny

/-- The verdict is one of the opinions. -/
theorem mem_of_combine {opinions : List (Option Permission)} {p : Permission}
    (h : combine opinions = some p) : some p ∈ opinions := by
  rw [combine] at h
  split at h
  next deny =>
    cases h
    exact List.contains_iff_mem.mp deny
  next =>
    split at h
    next allow =>
      cases h
      exact List.contains_iff_mem.mp allow
    next => cases h

end Permission

namespace Value

theorem permission?_eq_some_iff {v : Value} {p : Permission} :
    v.permission? = some p ↔ v = .state p := by
  cases v <;> simp [permission?]

theorem bool?_eq_some_iff {v : Value} {b : Bool} : v.bool? = some b ↔ v = .bool b := by
  cases v <;> simp [bool?]

end Value

namespace Combinator

variable {values : List Value} {v : Value}

theorem extreme?_eq_none_iff {wanted : Ordering} :
    extreme? wanted values = none ↔ ∀ v ∈ values, v.kind.isNumeric = false := by
  rw [extreme?]
  split
  next none => simpa [List.filter_eq_nil_iff] using none
  next v vs some =>
    refine iff_of_false (Option.some_ne_none _) fun none => ?_
    have : v ∈ values.filter (·.kind.isNumeric) := by simp [some]
    obtain ⟨hv, numeric⟩ := List.mem_filter.mp this
    exact absurd numeric (by simp [none v hv])

theorem combine_eq_none_iff (c : Combinator) :
    c.combine values = none ↔ ∀ v ∈ values, c.suits v.kind = false := by
  cases c with
  | firstMatch => simp [combine, suits, List.eq_nil_iff_forall_not_mem]
  | denyOverrides =>
    have permission : ∀ v : Value, v.permission? = none ↔ (v.kind == .state) = false := by
      rintro (_ | _ | _ | _ | _) <;> simp [Value.permission?, Value.kind]
    simp only [combine, Option.map_eq_none_iff, Permission.combine_eq_none_iff, List.forall_mem_map,
      permission, suits]
  | all | any =>
    have bool : ∀ v : Value, v.bool? = none ↔ (v.kind == .boolean) = false := by
      rintro (_ | _ | _ | _ | _) <;> simp [Value.bool?, Value.kind]
    simp only [combine, suits, ← bool, ← List.filterMap_eq_nil_iff]
    split <;> simp_all
  | least | greatest => exact extreme?_eq_none_iff

theorem mem_filter_of_extreme? {wanted : Ordering} (h : extreme? wanted values = some v) :
    v ∈ values.filter (·.kind.isNumeric) := by
  rw [extreme?] at h
  split at h
  · cases h
  next w rest numbers =>
    obtain rfl := Option.some.inj h
    rw [numbers]
    refine List.foldlRecOn (motive := (· ∈ w :: rest)) rest _ List.mem_cons_self
      fun best hbest u hu => ?_
    rw [improve]
    split
    · exact List.mem_cons_of_mem _ hu
    · exact hbest

theorem bool_mem {b : Bool} (h : b ∈ values.filterMap Value.bool?) : .bool b ∈ values := by
  obtain ⟨v, hv, given⟩ := List.mem_filterMap.mp h
  exact Value.bool?_eq_some_iff.mp given ▸ hv

theorem all_id_mem {bs : List Bool} (ne : bs ≠ []) : bs.all id ∈ bs := by
  cases settled : bs.all id with
  | true =>
    obtain ⟨b, hb⟩ := List.exists_mem_of_ne_nil bs ne
    obtain rfl : b = true := List.all_eq_true.mp settled b hb
    exact hb
  | false =>
    obtain ⟨b, hb, no⟩ := List.all_eq_false.mp settled
    exact Bool.eq_false_iff.mpr no ▸ hb

theorem any_id_mem {bs : List Bool} (ne : bs ≠ []) : bs.any id ∈ bs := by
  cases settled : bs.any id with
  | true =>
    obtain ⟨b, hb, yes⟩ := List.any_eq_true.mp settled
    obtain rfl : b = true := yes
    exact hb
  | false =>
    obtain ⟨b, hb⟩ := List.exists_mem_of_ne_nil bs ne
    exact Bool.eq_false_iff.mpr (List.any_eq_false.mp settled b hb) ▸ hb

/-- What values combine to is one of them that can be used. -/
theorem mem_of_combine {c : Combinator} (h : c.combine values = some v) :
    v ∈ values ∧ c.suits v.kind = true := by
  cases c with
  | firstMatch => exact ⟨List.mem_of_mem_head? h, rfl⟩
  | denyOverrides =>
    obtain ⟨p, verdict, rfl⟩ := Option.map_eq_some_iff.mp h
    obtain ⟨u, hu, given⟩ := List.mem_map.mp (Permission.mem_of_combine verdict)
    exact ⟨Value.permission?_eq_some_iff.mp given ▸ hu, rfl⟩
  | all =>
    rw [combine] at h
    split at h
    · cases h
    next given =>
      cases h
      exact ⟨bool_mem (all_id_mem given), rfl⟩
  | any =>
    rw [combine] at h
    split at h
    · cases h
    next given =>
      cases h
      exact ⟨bool_mem (any_id_mem given), rfl⟩
  | least | greatest => exact List.mem_filter.mp (mem_filter_of_extreme? h)

end Combinator

/-! ## Registered rules -/

namespace FlagRule

/-- The rule does not contradict itself. -/
structure Coherent (r : FlagRule) : Prop where
  suits : r.combinator.suits r.kind = true
  state : r.membershipDecides = true → r.kind = .state
  default : ∀ v, r.default = some v → v.kind = r.kind

theorem coherent_of_check {r : FlagRule} (h : r.check = .ok ()) : r.Coherent := by
  rw [check] at h
  split at h
  · cases h
  next suits =>
    split at h
    · cases h
    next state =>
      refine ⟨by simpa using suits, by simpa using state, fun v given => ?_⟩
      rw [given] at h
      dsimp only at h
      rw [checkValue] at h
      split at h
      next same => exact same
      next => cases h

end FlagRule

namespace Catalogue

/-- Catalogues filled by registration, starting from none or from that of every world. -/
inductive Registered : Catalogue → Prop
  | empty : Registered ∅
  | builtin : Registered builtin
  | register {c c' : Catalogue} {r : FlagRule} : Registered c → c.register r = .ok c' → Registered c'

theorem register_eq_ok {c c' : Catalogue} {r : FlagRule} (h : c.register r = .ok c') :
    r.check = .ok () ∧ c' = c.insert r.name r := by
  obtain ⟨⟨⟩, checked, h⟩ := bind_eq_ok_iff.mp h
  dsimp only at h
  split at h
  · exact absurd h throw_bind_ne_ok
  · exact ⟨checked, (pure_eq_ok_iff.mp h).symm⟩

/-- A new rule that passes its check can be entered. -/
theorem Registered.insert {c : Catalogue} {flag : FlagName} {r : FlagRule}
    (registered : c.Registered) (named : r.name = flag) (fresh : c.contains flag = false)
    (checked : r.check = .ok ()) : Registered (Table.insert c flag r) := by
  subst named
  refine .register registered (r := r) ?_
  rw [Catalogue.register, checked, fresh]
  rfl

theorem check_of_mem_builtin {e : FlagName × FlagRule} (h : e ∈ builtin.entries) :
    e.2.check = .ok () := by
  have all : builtinRules.all (·.check.toBool) = true := by decide
  obtain ⟨r, hr, rfl⟩ := List.mem_map.mp (Table.mem_of_mem_ofList h)
  have passes := List.all_eq_true.mp all r hr
  cases checked : r.check with
  | ok => rfl
  | error refusal =>
    rw [checked] at passes
    cases passes

/-- Every rule of a catalogue that was filled by registration has passed its check. -/
theorem Registered.check_eq_ok {c : Catalogue} (registered : c.Registered) {flag : FlagName}
    {r : FlagRule} (found : c.get? flag = some r) : r.check = .ok () := by
  induction registered with
  | empty => cases found
  | builtin => exact check_of_mem_builtin ((Table.get?_eq_some_iff _ _ _).mp found)
  | register _ registered ih =>
    obtain ⟨checked, rfl⟩ := register_eq_ok registered
    rw [Table.get?_insert] at found
    split at found
    · exact Option.some.inj found ▸ checked
    · exact ih found

theorem Registered.coherent {c : Catalogue} (registered : c.Registered) {flag : FlagName}
    {r : FlagRule} (found : c.get? flag = some r) : r.Coherent :=
  FlagRule.coherent_of_check (registered.check_eq_ok found)

end Catalogue

end Enclave
