/-!
# Doubles as they are stored

A `Double` is what is stored of a double: sixty-four bits. Arithmetic is done on `Float`, which has
one value that is not a number; among the stored doubles there are many that are none, with either
sign.

The comparisons `≤`, `<` and `==` of `Float` leave a value that is not a number out of every order
and see no difference between the two zeros. Sorting and choosing need an order in which every
double has its place: `Double.rank` gives each its position on a line that goes from the negative
doubles that are not numbers over `-∞`, `-0.0`, `0.0` and `+∞` to the positive ones.
-/

namespace Enclave

/-- A double by its bits: the sign, the exponent and the mantissa. -/
structure Double where
  bits : UInt64
  deriving Repr

namespace Double

/-- What is stored of a computed double. -/
def ofFloat (x : Float) : Double := ⟨x.toBits⟩

/-- The nearest double to an integer. -/
def ofInt (i : Int) : Double := .ofFloat (.ofInt i)

/-- The double that arithmetic goes on with. -/
def toFloat (x : Double) : Float := .ofBits x.bits

/-- The positive double that is not a number. -/
def nan : Double := ⟨0x7FF8000000000000⟩

/-- Doubles are equal as numbers are: both zeros are, and what is not a number equals nothing. -/
instance : BEq Double := ⟨fun x y => x.toFloat == y.toFloat⟩

def isNaN (x : Double) : Bool := x.toFloat.isNaN

/-! ## The line of all doubles -/

/-- The place of a double among all doubles. -/
def rank (x : Double) : Int :=
  let bits := x.bits.toNat
  if bits < Nat.pow 2 63 then bits else (Nat.pow 2 63 : Int) - 1 - bits

/-- The order by rank. -/
def totalCompare (x y : Double) : Ordering := compare x.rank y.rank

/-- Doubles of one place have the same bits. -/
theorem rank_injective {x y : Double} (h : x.rank = y.rank) : x = y := by
  have same : x.bits.toNat = y.bits.toNat := by
    simp only [rank] at h
    split at h <;> split at h <;> omega
  cases x
  cases y
  exact congrArg mk (UInt64.toNat_inj.mp same)

example : (nan.rank, (ofFloat (-0.0)).rank, (ofFloat 0.0).rank) = (9221120237041090560, -1, 0) := by
  decide +kernel

/-- A negative double that is not a number lies below `-∞`. -/
example : totalCompare ⟨0xFFF8000000000000⟩ (ofFloat (-1.0 / 0.0)) = .lt := by decide +kernel

end Double

end Enclave
