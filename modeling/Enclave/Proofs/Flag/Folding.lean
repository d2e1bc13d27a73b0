import Enclave.Proofs.Flag.Combining

/-!
# Folding values

A combinator reads the values that suit it, one after another, and skips the others. Denials and
truth values have a value that settles the outcome: the fold may be left there (`shortened`), or go
on to the last (`merged`), and comes to the same, in whatever order the values stand
(`Combinator.Settled`).

Numbers are compared with the one that is held so far. Integers compare exactly, anything else as
doubles, so that two integers may both tie with a double and not with each other. Ties do not carry
over, but to be less does (`Value.lt_trans`), if an integer that is less than another does not become
a greater double (`Value.ConvertsMonotonely`). So no number compares better than the one held in the
end (`Combinator.Best`). If all numbers are of one kind they have an order in which only equals tie,
doubles that are not numbers and the two zeros each in their place: then the one held is the only
best value and the first such, whatever the conversion (`Combinator.Chooses`).
-/

namespace Enclave

/-! ## Folds that a value settles -/

section Settling

variable {α : Type} {merge : α → α → α} {settling other : α}

/-- Holds the last value, and leaves at the one that settles the outcome. -/
def shortened [DecidableEq α] (settling : α) : (held : Option α) → List α → Option α
  | held, [] => held
  | _, v :: vs => if v = settling then some settling else shortened settling (some v) vs

/-- Merges all values, from the first to the last. -/
def merged (merge : α → α → α) : List α → Option α
  | [] => none
  | v :: vs => some (vs.foldl merge v)

/-- What does not change when the first two values are merged is what all are merged to. -/
theorem merged_cons_eq (total : List α → α) (single : ∀ v, total [v] = v)
    (step : ∀ v w vs, total (v :: w :: vs) = total (merge v w :: vs)) (v : α) (vs : List α) :
    merged merge (v :: vs) = some (total (v :: vs)) := by
  rw [merged]
  induction vs generalizing v with
  | nil => rw [List.foldl_nil, single]
  | cons w vs ih => rw [List.foldl_cons, ih, step]

/-- Of two possible values one settles what is merged. -/
structure Settles (merge : α → α → α) (settling other : α) : Prop where
  differ : other ≠ settling
  either : ∀ v, v = settling ∨ v = other
  keeps : ∀ v, merge settling v = settling
  yields : ∀ v, merge other v = v

namespace Settles

variable (settles : Settles merge settling other)
include settles

theorem foldl_settling (vs : List α) : vs.foldl merge settling = settling := by
  induction vs with
  | nil => rfl
  | cons v vs ih => rw [List.foldl_cons, settles.keeps, ih]

variable [DecidableEq α]

theorem foldl_other (vs : List α) :
    vs.foldl merge other = if settling ∈ vs then settling else other := by
  induction vs with
  | nil => rfl
  | cons v vs ih =>
    rw [List.foldl_cons, settles.yields]
    rcases settles.either v with rfl | rfl
    · rw [settles.foldl_settling, if_pos List.mem_cons_self]
    · rw [ih]
      simp only [List.mem_cons, settles.differ.symm, false_or]

theorem shortened_other (vs : List α) :
    shortened settling (some other) vs = some (if settling ∈ vs then settling else other) := by
  induction vs with
  | nil => rfl
  | cons v vs ih =>
    rw [shortened]
    rcases settles.either v with rfl | rfl
    · rw [if_pos rfl, if_pos List.mem_cons_self]
    · rw [if_neg settles.differ, ih]
      simp only [List.mem_cons, settles.differ.symm, false_or]

/-- What is merged is told by which of the two values there are. -/
theorem merged_eq (vs : List α) : merged merge vs =
    if settling ∈ vs then some settling else if other ∈ vs then some other else none := by
  cases vs with
  | nil => rfl
  | cons v vs =>
    rw [merged]
    rcases settles.either v with rfl | rfl
    · rw [settles.foldl_settling, if_pos List.mem_cons_self]
    · rw [settles.foldl_other]
      simp only [List.mem_cons, settles.differ.symm, false_or, true_or, if_true]
      split <;> rfl

/-- The fold may be left at the value that settles it. -/
theorem shortened_eq (vs : List α) : shortened settling none vs = merged merge vs := by
  cases vs with
  | nil => rfl
  | cons v vs =>
    rw [shortened, merged]
    rcases settles.either v with rfl | rfl
    · rw [if_pos rfl, settles.foldl_settling]
    · rw [if_neg settles.differ, settles.shortened_other, settles.foldl_other]

end Settles

end Settling

namespace Permission

/-- Both permissions together: one that denies settles it. -/
def both : Permission → Permission → Permission
  | deny, _ => deny
  | allow, p => p

theorem settles_both : Settles both deny allow where
  differ := nofun
  either v := by cases v <;> simp
  keeps _ := rfl
  yields _ := rfl

end Permission

theorem settles_and : Settles and false true where
  differ := nofun
  either v := by cases v <;> simp
  keeps _ := rfl
  yields _ := rfl

theorem settles_or : Settles or true false where
  differ := nofun
  either v := by cases v <;> simp
  keeps _ := rfl
  yields _ := rfl

/-! ## Comparing numbers -/

namespace Value

variable {u v w : Value} {values : List Value}

/-- The place of a value among doubles. -/
def place (v : Value) : Int := (v.double?.getD .nan).rank

theorem compareNumbers_cases (v w : Value) :
    (∃ i j, v = int i ∧ w = int j) ∨ v.int? = none ∨ w.int? = none := by
  cases v <;> cases w <;> simp [int?]

theorem compareNumbers_int (i j : Int) : (int i).compareNumbers (int j) = compare i j := rfl

/-- Unless both are integers, numbers compare by their places. -/
theorem compareNumbers_eq (inexact : v.int? = none ∨ w.int? = none) :
    v.compareNumbers w = compare v.place w.place := by
  cases v with
  | int i =>
    cases w with
    | int j => exact absurd inexact (by simp [int?])
    | state | bool | float | text => rfl
  | state | bool | float | text => rfl

theorem compareNumbers_swap (v w : Value) : (v.compareNumbers w).swap = w.compareNumbers v := by
  rcases compareNumbers_cases v w with ⟨i, j, rfl, rfl⟩ | inexact
  · exact Int.compare_swap i j
  · rw [compareNumbers_eq inexact, compareNumbers_eq inexact.symm, Int.compare_swap]

/-- Numbers of one kind tie only with themselves. -/
theorem eq_of_compareNumbers_eq (same : v.kind = w.kind) (numeric : v.kind.isNumeric = true)
    (tied : v.compareNumbers w = .eq) : v = w := by
  cases v with
  | int i =>
    cases w <;> cases same
    exact congrArg int (Int.compare_eq_eq.mp tied)
  | float x =>
    cases w <;> cases same
    exact congrArg float (Double.rank_injective (Int.compare_eq_eq.mp tied))
  | state | bool | text => cases numeric

theorem compareNumbers_self (v : Value) : v.compareNumbers v = .eq := by
  rcases compareNumbers_cases v v with ⟨i, j, rfl, same⟩ | inexact
  · exact Int.compare_eq_eq.mpr rfl
  · rw [compareNumbers_eq inexact, Int.compare_eq_eq]

/-- Conversion to doubles keeps the order of the integers among the values. -/
def ConvertsMonotonely (values : List Value) : Prop :=
  ∀ i j : Int, int i ∈ values → int j ∈ values → i ≤ j →
    (Double.ofInt i).rank ≤ (Double.ofInt j).rank

section Monotone

variable (monotone : ConvertsMonotonely values)
include monotone

/-- A number that is less is no greater as a double. -/
theorem place_le_of_lt (hv : v ∈ values) (hw : w ∈ values) (lt : v.compareNumbers w = .lt) :
    v.place ≤ w.place := by
  rcases compareNumbers_cases v w with ⟨i, j, rfl, rfl⟩ | inexact
  · exact monotone i j hv hw (Int.le_of_lt (Int.compare_eq_lt.mp lt))
  · rw [compareNumbers_eq inexact, Int.compare_eq_lt] at lt
    exact Int.le_of_lt lt

theorem lt_of_place_lt (hv : v ∈ values) (hw : w ∈ values) (lt : v.place < w.place) :
    v.compareNumbers w = .lt := by
  rcases compareNumbers_cases v w with ⟨i, j, rfl, rfl⟩ | inexact
  · refine Int.compare_eq_lt.mpr (Int.not_le.mp fun le => ?_)
    exact absurd (monotone j i hw hv le) (Int.not_le.mpr lt)
  · rw [compareNumbers_eq inexact, Int.compare_eq_lt]
    exact lt

/-- Unless all three are integers, one of the two steps is a step between doubles. -/
theorem lt_trans (hu : u ∈ values) (hv : v ∈ values) (hw : w ∈ values)
    (uv : u.compareNumbers v = .lt) (vw : v.compareNumbers w = .lt) :
    u.compareNumbers w = .lt := by
  have below := place_le_of_lt monotone hu hv uv
  have above := place_le_of_lt monotone hv hw vw
  rcases compareNumbers_cases u v with ⟨i, j, rfl, rfl⟩ | inexact
  · rcases compareNumbers_cases (int j) w with ⟨_, k, same, rfl⟩ | inexact
    · cases same
      rw [compareNumbers_int, Int.compare_eq_lt] at uv vw ⊢
      omega
    · rw [compareNumbers_eq inexact, Int.compare_eq_lt] at vw
      exact lt_of_place_lt monotone hu hw (by omega)
  · rw [compareNumbers_eq inexact, Int.compare_eq_lt] at uv
    exact lt_of_place_lt monotone hu hw (by omega)

/-- To be less or to be greater carries over. -/
theorem compareNumbers_trans {wanted : Ordering} (directed : wanted ≠ .eq) (hu : u ∈ values)
    (hv : v ∈ values) (hw : w ∈ values) (uv : u.compareNumbers v = wanted)
    (vw : v.compareNumbers w = wanted) : u.compareNumbers w = wanted := by
  cases wanted with
  | lt => exact lt_trans monotone hu hv hw uv vw
  | eq => exact absurd rfl directed
  | gt =>
    rw [← compareNumbers_swap, Ordering.swap_eq_gt] at uv vw ⊢
    exact lt_trans monotone hw hv hu vw uv

end Monotone

/-- Values of one kind lie on a line. -/
theorem exists_line (k : Kind) : ∃ line : Value → Int, ∀ v w : Value, v.kind = k → w.kind = k →
    v.compareNumbers w = compare (line v) (line w) := by
  by_cases integers : k = .integer
  · refine ⟨fun v => v.int?.getD 0, fun v w hv hw => ?_⟩
    subst integers
    cases v <;> cases hv
    cases w <;> cases hw
    rfl
  · refine ⟨place, fun v w hv _ => compareNumbers_eq (.inl ?_)⟩
    cases v with
    | int => exact absurd hv.symm integers
    | state | bool | float | text => rfl

end Value

namespace Combinator

open Value (compareNumbers_self)

variable {values done l : List Value} {held v x : Value} {wanted : Ordering} {c : Combinator}

/-! ## The number held in the end -/

/-- No number passed compares as wanted to the one that is held. -/
structure Held (wanted : Ordering) (done : List Value) (held : Value) : Prop where
  mem : held ∈ done
  unbeaten : ∀ u ∈ done, u.compareNumbers held ≠ wanted

/-- The number held is the first such: it compares as wanted to those before it. -/
structure HeldFirst (wanted : Ordering) (done : List Value) (held : Value) : Prop
    extends Held wanted done held where
  first : ∃ before after, done = before ++ held :: after ∧
    ∀ u ∈ before, held.compareNumbers u = wanted

theorem heldFirst_singleton (directed : wanted ≠ .eq) (v : Value) : HeldFirst wanted [v] v where
  mem := List.mem_singleton_self v
  unbeaten u hu := by
    rw [List.mem_singleton.mp hu, compareNumbers_self]
    exact directed.symm
  first := ⟨[], [], rfl, nofun⟩

/-- Among the values, to compare so carries over. -/
def Carries (wanted : Ordering) (values : List Value) : Prop :=
  ∀ u ∈ values, ∀ v ∈ values, ∀ w ∈ values,
    u.compareNumbers v = wanted → v.compareNumbers w = wanted → u.compareNumbers w = wanted

/-- What every step keeps holds of the number held in the end. -/
theorem foldl_improve {P : List Value → Value → Prop}
    (step : ∀ done held x, done ++ [x] ⊆ values → P done held →
      P (done ++ [x]) (improve wanted held x)) :
    ∀ l done held, done ++ l ⊆ values → P done held →
      P (done ++ l) (l.foldl (improve wanted) held) := by
  intro l
  induction l with
  | nil =>
    intro done held _ start
    rwa [List.append_nil]
  | cons x l ih =>
    intro done held sub start
    rw [List.append_cons] at sub ⊢
    have sub' : done ++ [x] ⊆ values := (List.append_subset.mp sub).1
    exact ih _ _ sub (step done held x sub' start)

section Steps

variable (directed : wanted ≠ .eq) (sub : done ++ [x] ⊆ values)
include directed sub

theorem Held.step (carries : Carries wanted values) (h : Held wanted done held) :
    Held wanted (done ++ [x]) (improve wanted held x) := by
  obtain ⟨sub, hx⟩ := List.append_subset.mp sub
  have hx : x ∈ values := hx (List.mem_singleton_self x)
  by_cases better : x.compareNumbers held = wanted
  · rw [improve, if_pos (beq_iff_eq.mpr better)]
    refine ⟨List.mem_append_right _ (List.mem_singleton_self x), fun u hu beats => ?_⟩
    rcases List.mem_append.mp hu with hu | hu
    · exact h.unbeaten u hu (carries u (sub hu) x hx held (sub h.mem) beats better)
    · rw [List.mem_singleton.mp hu, compareNumbers_self] at beats
      exact directed beats.symm
  · rw [improve, if_neg (fun yes => better (beq_iff_eq.mp yes))]
    refine ⟨List.mem_append_left _ h.mem, fun u hu => ?_⟩
    rcases List.mem_append.mp hu with hu | hu
    · exact h.unbeaten u hu
    · rw [List.mem_singleton.mp hu]
      exact better

/-- On a line, what beats the number held beats all that do not. -/
theorem HeldFirst.step {line : Value → Int}
    (onLine : ∀ v ∈ values, ∀ w ∈ values, v.compareNumbers w = compare (line v) (line w))
    (h : HeldFirst wanted done held) : HeldFirst wanted (done ++ [x]) (improve wanted held x) := by
  have carries : Carries wanted values := by
    intro u hu v hv w hw uv vw
    rw [onLine u hu v hv] at uv
    rw [onLine v hv w hw] at vw
    rw [onLine u hu w hw]
    cases wanted <;> grind [Int.compare_eq_lt, Int.compare_eq_gt]
  refine ⟨h.toHeld.step directed sub carries, ?_⟩
  obtain ⟨sub, hx⟩ := List.append_subset.mp sub
  have hx : x ∈ values := hx (List.mem_singleton_self x)
  by_cases better : x.compareNumbers held = wanted
  · rw [improve, if_pos (beq_iff_eq.mpr better)]
    refine ⟨done, [], rfl, fun u hu => ?_⟩
    have worse := h.unbeaten u hu
    rw [onLine u (sub hu) held (sub h.mem)] at worse
    rw [onLine x hx held (sub h.mem)] at better
    rw [onLine x hx u (sub hu)]
    cases wanted <;> grind [Int.compare_eq_lt, Int.compare_eq_gt]
  · rw [improve, if_neg (fun yes => better (beq_iff_eq.mp yes))]
    obtain ⟨before, after, rfl, beaten⟩ := h.first
    exact ⟨before, after ++ [x], by simp, beaten⟩

end Steps

/-- The value is a number of the list, and no number of the list compares to it as wanted. -/
structure Best (wanted : Ordering) (values : List Value) (v : Value) : Prop where
  mem : v ∈ values
  numeric : v.kind.isNumeric = true
  unbeaten : ∀ u ∈ values, u.kind.isNumeric = true → u.compareNumbers v ≠ wanted

theorem Held.best (h : Held wanted (values.filter (·.kind.isNumeric)) v) :
    Best wanted values v where
  mem := (List.mem_filter.mp h.mem).1
  numeric := (List.mem_filter.mp h.mem).2
  unbeaten u hu numeric := h.unbeaten u (List.mem_filter.mpr ⟨hu, numeric⟩)

theorem HeldFirst.not_best (h : HeldFirst wanted (values.filter (·.kind.isNumeric)) v) :
    ∃ before after, values = before ++ v :: after ∧ ∀ u ∈ before, ¬ Best wanted values u := by
  obtain ⟨before, after, parts, beaten⟩ := h.first
  obtain ⟨before', rest, rfl, rfl, parts'⟩ := List.filter_eq_append_iff.mp parts
  obtain ⟨skipped, after', rfl, noNumbers, numeric, -⟩ := List.filter_eq_cons_iff.mp parts'
  refine ⟨before' ++ skipped, after', by simp, fun u hu best => ?_⟩
  rcases List.mem_append.mp hu with hu | hu
  · exact best.unbeaten v (by simp) numeric
      (beaten u (List.mem_filter.mpr ⟨hu, best.numeric⟩))
  · exact noNumbers u hu best.numeric

/-- What every step keeps holds of the number that is chosen. -/
theorem foldl_of_extreme? {P : List Value → Value → Prop}
    (start : ∀ v, P [v] v)
    (step : ∀ done held x, done ++ [x] ⊆ values.filter (·.kind.isNumeric) → P done held →
      P (done ++ [x]) (improve wanted held x))
    (h : extreme? wanted values = some v) : P (values.filter (·.kind.isNumeric)) v := by
  rw [extreme?] at h
  split at h
  · cases h
  next w rest numbers =>
    obtain rfl := Option.some.inj h
    rw [numbers] at step ⊢
    exact foldl_improve step rest [w] w (List.Subset.refl _) (start w)

/-- Of numbers of one kind only one is the best, however often it is listed. -/
theorem Best.unique {u : Value} (best : Best wanted values v) (best' : Best wanted values u)
    (same : u.kind = v.kind) (directed : wanted ≠ .eq) : u = v := by
  apply Value.eq_of_compareNumbers_eq same best'.numeric
  have below := best.unbeaten u best'.mem best'.numeric
  have above := best'.unbeaten v best.mem best.numeric
  rw [← Value.compareNumbers_swap] at above
  cases tied : u.compareNumbers v <;> cases wanted <;> simp_all

/-- What is made of the values is a number to which none compares as wanted. Where all numbers are of
one kind it is the only such value, and the first; where they are not, conversion has to keep the
order of integers. -/
structure Chooses (c : Combinator) (wanted : Ordering) (values : List Value) : Prop where
  best : Value.ConvertsMonotonely values → ∀ v, c.combine values = some v → Best wanted values v
  first : ∀ k, (∀ u ∈ values, u.kind.isNumeric = true → u.kind = k) →
    ∀ v, c.combine values = some v →
      (∀ u, Best wanted values u ↔ u = v) ∧
      ∃ before after, values = before ++ v :: after ∧ ∀ u ∈ before, ¬ Best wanted values u

theorem chooses (directed : wanted ≠ .eq) (combines : c.combine values = extreme? wanted values) :
    Chooses c wanted values where
  best monotone v h := by
    rw [combines] at h
    refine (foldl_of_extreme? (P := Held wanted)
      (fun v => (heldFirst_singleton directed v).toHeld) (fun done held x sub => ?_) h).best
    refine Held.step directed sub fun u hu v hv w hw => ?_
    exact Value.compareNumbers_trans monotone directed (List.mem_filter.mp hu).1
      (List.mem_filter.mp hv).1 (List.mem_filter.mp hw).1
  first k same v h := by
    rw [combines] at h
    obtain ⟨line, onLine⟩ := Value.exists_line k
    have onLine : ∀ v ∈ values.filter (·.kind.isNumeric), ∀ w ∈ values.filter (·.kind.isNumeric),
        v.compareNumbers w = compare (line v) (line w) := fun v hv w hw => by
      obtain ⟨hv, numeric⟩ := List.mem_filter.mp hv
      obtain ⟨hw, numeric'⟩ := List.mem_filter.mp hw
      exact onLine v w (same v hv numeric) (same w hw numeric')
    have held : HeldFirst wanted (values.filter (·.kind.isNumeric)) v :=
      foldl_of_extreme? (heldFirst_singleton directed)
        (fun _ _ _ sub => HeldFirst.step directed sub onLine) h
    refine ⟨fun u => ⟨fun best => ?_, fun here => here ▸ held.best⟩, held.not_best⟩
    have kinds : u.kind = v.kind := (same u best.mem best.numeric).trans
      (same v held.best.mem held.best.numeric).symm
    exact held.best.unique best kinds directed

/-! ## Values that settle -/

section Settling

variable {α : Type} [DecidableEq α] {read : Value → Option α} {write : α → Value}
  {merge : α → α → α} {settling other : α}

/-- What is made of the values that can be read: they are folded to the last, or up to the one that
settles the outcome, and in whatever order. -/
structure Settled (c : Combinator) (read : Value → Option α) (write : α → Value)
    (merge : α → α → α) (settling : α) (values : List Value) : Prop where
  short : c.combine values = (shortened settling none (values.filterMap read)).map write
  full : c.combine values = (merged merge (values.filterMap read)).map write
  settled : c.combine values = some (write settling) ↔ write settling ∈ values
  unordered : ∀ values', values.Perm values' → c.combine values' = c.combine values

theorem settled (settles : Settles merge settling other)
    (reads : ∀ v a, read v = some a ↔ v = write a)
    (full : ∀ values, c.combine values = (merged merge (values.filterMap read)).map write) :
    Settled c read write merge settling values where
  short := by rw [full, settles.shortened_eq]
  full := full values
  settled := by
    have given : settling ∈ values.filterMap read ↔ write settling ∈ values := by
      simp [List.mem_filterMap, reads]
    rw [full, settles.merged_eq, ← given]
    by_cases met : settling ∈ values.filterMap read
    · rw [if_pos met]
      exact iff_of_true rfl met
    · rw [if_neg met]
      refine iff_of_false (fun same => ?_) met
      split at same
      · have written : write other = write settling := Option.some.inj same
        have read := (reads _ _).mpr written
        rw [(reads _ _).mpr rfl] at read
        exact settles.differ (Option.some.inj read)
      · cases same
  unordered values' perm := by
    rw [full, full, settles.merged_eq, settles.merged_eq]
    simp only [(perm.filterMap read).mem_iff]

end Settling

/-! ## All combinators -/

theorem combine_denyOverrides (values : List Value) : combine .denyOverrides values =
    (merged Permission.both (values.filterMap Value.permission?)).map .state := by
  have given : ∀ p, (values.map Value.permission?).contains (some p) = true ↔
      p ∈ values.filterMap Value.permission? := fun p => by
    rw [List.contains_iff_mem, List.mem_map, List.mem_filterMap]
  rw [combine, Permission.combine, Permission.settles_both.merged_eq]
  simp only [given]

theorem combine_all (values : List Value) : combine .all values =
    (merged and (values.filterMap Value.bool?)).map .bool := by
  rw [combine]
  cases values.filterMap Value.bool? with
  | nil => rfl
  | cons b bs =>
    have fold : merged and (b :: bs) = some ((b :: bs).all id) :=
      merged_cons_eq (fun bs => bs.all id) (by simp) (by simp) b bs
    rw [fold, Option.map_some]

theorem combine_any (values : List Value) : combine .any values =
    (merged or (values.filterMap Value.bool?)).map .bool := by
  rw [combine]
  cases values.filterMap Value.bool? with
  | nil => rfl
  | cons b bs =>
    have fold : merged or (b :: bs) = some ((b :: bs).any id) :=
      merged_cons_eq (fun bs => bs.any id) (by simp) (by simp) b bs
    rw [fold, Option.map_some]

/-- What can be read of values is read of those that suit. -/
theorem filterMap_filter_suits {α : Type} {c : Combinator} {read : Value → Option α}
    (unread : ∀ v, c.suits v.kind = false → read v = none) (values : List Value) :
    (values.filter (c.suits ·.kind)).filterMap read = values.filterMap read := by
  rw [List.filterMap_filter]
  refine List.filterMap_congr fun v _ => ?_
  split
  next => rfl
  next unsuited => exact (unread v (Bool.eq_false_iff.mpr unsuited)).symm

theorem combine_filter_suits (c : Combinator) (values : List Value) :
    c.combine (values.filter (c.suits ·.kind)) = c.combine values := by
  cases c with
  | firstMatch => simp [suits]
  | denyOverrides =>
    rw [combine_denyOverrides, combine_denyOverrides, filterMap_filter_suits]
    rintro (_ | _ | _ | _ | _) <;> simp [suits, Value.kind, Value.permission?]
  | all =>
    rw [combine_all, combine_all, filterMap_filter_suits]
    rintro (_ | _ | _ | _ | _) <;> simp [suits, Value.kind, Value.bool?]
  | any =>
    rw [combine_any, combine_any, filterMap_filter_suits]
    rintro (_ | _ | _ | _ | _) <;> simp [suits, Value.kind, Value.bool?]
  | least | greatest => simp [combine, extreme?, suits]

/-- What each combinator makes of the values. -/
structure Folds (values : List Value) : Prop where
  /-- What cannot be used is skipped. -/
  skips : ∀ c : Combinator, c.combine (values.filter (c.suits ·.kind)) = c.combine values
  empty : ∀ c : Combinator, c.combine values = none ↔ ∀ v ∈ values, c.suits v.kind = false
  first : combine .firstMatch values = values.head?
  deny : Settled .denyOverrides Value.permission? .state Permission.both .deny values
  all : Settled .all Value.bool? .bool and false values
  any : Settled .any Value.bool? .bool or true values
  least : Chooses .least .lt values
  greatest : Chooses .greatest .gt values

/-- Whatever the values, this is what the combinators make of them. -/
theorem folds (values : List Value) : Folds values where
  skips c := combine_filter_suits c values
  empty := combine_eq_none_iff
  first := rfl
  deny := settled Permission.settles_both (fun _ _ => Value.permission?_eq_some_iff)
    combine_denyOverrides
  all := settled settles_and (fun _ _ => Value.bool?_eq_some_iff) combine_all
  any := settled settles_or (fun _ _ => Value.bool?_eq_some_iff) combine_any
  least := chooses nofun rfl
  greatest := chooses nofun rfl

/-- The least double may be one that is not a number, where its sign is set. -/
example : (combine .least [.float (.ofFloat 1), .float ⟨0xFFF8000000000000⟩]).bind Value.double? =
    some ⟨0xFFF8000000000000⟩ := rfl

/-- Two integers that tie with one double: the lesser of them is chosen, though nothing is less than
the double either, which stands before it. -/
theorem folds_of_tied_numbers : ∃ values : List Value, ∃ v : Value,
    values = [.text "many", .int 9007199254740993, .float (.ofFloat 9007199254740992),
      .int 9007199254740992] ∧
    combine .least values = some v ∧ v.int? = some 9007199254740992 ∧
    (∀ u ∈ values, u.kind.isNumeric = true →
      u.compareNumbers (.float (.ofFloat 9007199254740992)) ≠ .lt) ∧
    Value.ConvertsMonotonely values ∧ Best .lt values v := by
  let values : List Value := [.text "many", .int 9007199254740993,
    .float (.ofFloat 9007199254740992), .int 9007199254740992]
  have monotone : Value.ConvertsMonotonely values := by
    have rank : (Double.ofInt 9007199254740993).rank = (Double.ofInt 9007199254740992).rank := by
      decide +kernel
    intro i j hi hj _
    obtain rfl | rfl : i = 9007199254740993 ∨ i = 9007199254740992 := by simpa [values] using hi
    all_goals
      obtain rfl | rfl : j = 9007199254740993 ∨ j = 9007199254740992 := by simpa [values] using hj
      all_goals simp only [rank, Int.le_refl]
  have chosen : (combine .least values).bind Value.int? = some 9007199254740992 := by decide +kernel
  obtain ⟨v, chosen, int⟩ := Option.bind_eq_some_iff.mp chosen
  exact ⟨values, v, rfl, chosen, int, by decide +kernel, monotone,
    (folds values).least.best monotone v chosen⟩

end Combinator

end Enclave
