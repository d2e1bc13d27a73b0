import Mathlib.Data.Prod.Lex
import Mathlib.Order.Compare
import Enclave.Geometry.Point

/-!
# Doubles on a line

The comparisons of doubles look at two doubles unpacked. Every unpacked value that is a number has a
`place` on one line, from `-∞` over the two zeros, which share a place, to `+∞`; the comparisons say
how two places lie to each other, and hold of nothing that is not a number (`Double.le_iff`,
`Double.lt_iff`, `Double.beq_iff`).

`Coordinate.Ordered` names what the geometry needs of its coordinates: the comparisons are those of
a line on all that are numbers. Doubles satisfy it.
-/

namespace Enclave

/-! ## The line of doubles -/

namespace Double

open Float.Model (UnpackedFloat)

/-- Where a value stands: by its kind and sign, then its exponent, then its mantissa. -/
abbrev Line := ℤ ×ₗ ℤ ×ₗ ℤ

/-- The point of the line with the given kind, exponent and mantissa. -/
def Line.at (kind exponent mantissa : ℤ) : Line := toLex (kind, toLex (exponent, mantissa))

theorem Line.compare_at (k e m k' e' m' : ℤ) : compare (Line.at k e m) (Line.at k' e' m') =
    (compare k k').then ((compare e e').then (compare m m')) := rfl

/-- The place of an unpacked value; what is not a number is put at the origin. -/
def placeUnpacked : UnpackedFloat → Line
  | .infinity .negative => .at (-2) 0 0
  | .finite .negative m e _ => .at (-1) (-e) (-m)
  | .zero _ => .at 0 0 0
  | .notANumber => .at 0 0 0
  | .finite .positive m e _ => .at 1 e m
  | .infinity .positive => .at 2 0 0

/-- The place of a double. -/
def place (a : Float) : Line := placeUnpacked a.toModel.unpack

theorem compare_natCast (m n : ℕ) : compare (m : ℤ) (n : ℤ) = compare m n := by
  simp only [Nat.compare_eq_ite_lt, Int.compare_eq_ite_lt, Int.ofNat_lt]

theorem compare_neg_neg (a b : ℤ) : compare (-a) (-b) = (compare a b).swap := by
  rw [Int.compare_swap]
  simp only [Int.compare_eq_ite_lt, Int.neg_lt_neg_iff]

/-- Two numbers compare as their places do. -/
theorem compare_unpacked (a b : UnpackedFloat) (ha : a ≠ .notANumber) (hb : b ≠ .notANumber) :
    a.compare b = some (compare (placeUnpacked a) (placeUnpacked b)) := by
  rcases a with (_ | _) | _ | (_ | _) | ⟨_ | _, m, e, _⟩ <;>
    rcases b with (_ | _) | _ | (_ | _) | ⟨_ | _, m', e', _⟩ <;>
    first
    | contradiction
    | rfl
    | skip
  · show some ((compare e e').then (compare m m')).swap = some (compare (Line.at _ _ _) (.at _ _ _))
    rw [Line.compare_at, compare_neg_neg e e', compare_neg_neg m m', compare_natCast,
      Ordering.swap_then]
    rfl
  · show some ((compare e e').then (compare m m')) = some (compare (Line.at _ _ _) (.at _ _ _))
    rw [Line.compare_at, compare_natCast]
    rfl

theorem isNaN_eq_false_iff (a : Float) : a.isNaN = false ↔ a.toModel.unpack ≠ .notANumber := by
  show a.toModel.unpack.isNaN = false ↔ _
  cases a.toModel.unpack with
  | notANumber => exact ⟨fun h => absurd h (by decide), fun h => absurd rfl h⟩
  | infinity | zero | finite => exact ⟨fun _ => nofun, fun _ => rfl⟩

/-- The outcome of comparing two doubles: there is one only for numbers, and it is that of their
places. -/
theorem compare_eq_some_iff {a b : Float} {o : Ordering} :
    a.toModel.unpack.compare b.toModel.unpack = some o ↔
      a.isNaN = false ∧ b.isNaN = false ∧ compare (place a) (place b) = o := by
  rw [isNaN_eq_false_iff, isNaN_eq_false_iff, place, place]
  generalize a.toModel.unpack = x, b.toModel.unpack = y
  by_cases hx : x = .notANumber
  · subst hx
    have incomparable : UnpackedFloat.notANumber.compare y = none := rfl
    simp [incomparable]
  by_cases hy : y = .notANumber
  · subst hy
    have incomparable : x.compare .notANumber = none := by cases x <;> rfl
    simp [incomparable]
  · simp [compare_unpacked x y hx hy, hx, hy]

theorem le_iff {a b : Float} : a ≤ b ↔ a.isNaN = false ∧ b.isNaN = false ∧ place a ≤ place b := by
  show decide (a.toModel ≤ b.toModel) = true ↔ _
  rw [decide_eq_true_iff]
  show (a.toModel.unpack.compare b.toModel.unpack).any (·.isLE) = true ↔ _
  simp only [Option.any_eq_true, compare_eq_some_iff, ← compare_le_iff_le, ne_eq,
    Ordering.ne_gt_iff_isLE]
  grind

theorem lt_iff {a b : Float} : a < b ↔ a.isNaN = false ∧ b.isNaN = false ∧ place a < place b := by
  show decide (a.toModel < b.toModel) = true ↔ _
  rw [decide_eq_true_iff, ← compare_lt_iff_lt, ← compare_eq_some_iff]
  show (a.toModel.unpack.compare b.toModel.unpack == some .lt) = true ↔ _
  rw [beq_iff_eq]

theorem beq_iff {a b : Float} :
    (a == b) = true ↔ a.isNaN = false ∧ b.isNaN = false ∧ place a = place b := by
  rw [← compare_eq_iff_eq (a := place a), ← compare_eq_some_iff]
  show (a.toModel.unpack.compare b.toModel.unpack == some .eq) = true ↔ _
  rw [beq_iff_eq]

theorem isNaN_eq_false_of_isFinite {a : Float} (h : a.isFinite = true) : a.isNaN = false := by
  have h : a.toModel.unpack.isFinite = true := h
  rw [isNaN_eq_false_iff]
  intro e
  rw [e] at h
  exact absurd h (by decide)

end Double

/-! ## Coordinates -/

/-- The comparisons of coordinates are those of a line on all that are numbers, and hold of nothing
else; what is finite is a number. -/
class Coordinate.Ordered (α : Type) [Coordinate α] : Prop where
  le_refl_left {a b : α} : a ≤ b → a ≤ a
  le_refl_right {a b : α} : a ≤ b → b ≤ b
  le_trans {a b c : α} : a ≤ b → b ≤ c → a ≤ c
  le_total {a b : α} : a ≤ a → b ≤ b → a ≤ b ∨ b ≤ a
  lt_iff {a b : α} : a < b ↔ a ≤ b ∧ ¬ b ≤ a
  beq_iff {a b : α} : (a == b) = true ↔ a ≤ b ∧ b ≤ a
  le_refl_of_isFinite {a : α} : Coordinate.isFinite a = true → a ≤ a

instance : Coordinate.Ordered Float where
  le_refl_left h := Double.le_iff.mpr ⟨(Double.le_iff.mp h).1, (Double.le_iff.mp h).1, le_refl _⟩
  le_refl_right h :=
    Double.le_iff.mpr ⟨(Double.le_iff.mp h).2.1, (Double.le_iff.mp h).2.1, le_refl _⟩
  le_trans h h' := by
    obtain ⟨ha, -, hab⟩ := Double.le_iff.mp h
    obtain ⟨-, hc, hbc⟩ := Double.le_iff.mp h'
    exact Double.le_iff.mpr ⟨ha, hc, le_trans hab hbc⟩
  le_total {a b} h h' := by
    obtain ⟨ha, -⟩ := Double.le_iff.mp h
    obtain ⟨hb, -⟩ := Double.le_iff.mp h'
    rcases le_total (Double.place a) (Double.place b) with hab | hba
    · exact .inl (Double.le_iff.mpr ⟨ha, hb, hab⟩)
    · exact .inr (Double.le_iff.mpr ⟨hb, ha, hba⟩)
  lt_iff {a b} := by
    rw [Double.lt_iff, Double.le_iff, Double.le_iff, lt_iff_le_not_ge]
    tauto
  beq_iff {a b} := by
    rw [Double.le_iff, Double.le_iff]
    have antisymm := le_antisymm_iff (a := Double.place a) (b := Double.place b)
    exact Double.beq_iff.trans (by tauto)
  le_refl_of_isFinite h :=
    have number := Double.isNaN_eq_false_of_isFinite h
    Double.le_iff.mpr ⟨number, number, le_refl _⟩

end Enclave
