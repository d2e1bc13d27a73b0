/-!
# Doubles in decimal

A double stands for all real numbers that round to it. Of the decimals among those, `shortest` finds
the one of fewest digits, and of several with as few the one nearest to the double; a tie goes up.

A positive finite double is `m · 2^q` with natural `m`. The search runs over grids `10^k` from
coarse to fine; on each the two neighbours of the double are tried, since if any point of a grid
rounds to the double, one of its two neighbours does. All comparisons are between natural numbers.

A `Style` says how the digits are written: which numbers are written out positionally and which with
an exponent, and whether a whole number shows a fraction of zero. In `Style.plain` values are shown
to people; in `Style.explicit` a message names coordinates, so that they are seen to be doubles.
-/

namespace Enclave.Decimal

/-- The number `digits · 10^exponent`. -/
structure Numeral where
  digits : Nat
  exponent : Int
  deriving Repr, DecidableEq

/-- The finite positive double `mantissa · 2^exponent`, and whether the doubles next below it lie
only half as far away as those above. -/
structure Binary where
  mantissa : Nat
  exponent : Int
  narrowBelow : Bool

/-- Reads the fields of a finite double, its sign left aside. -/
def Binary.ofFloat (x : Float) : Binary :=
  let bits : Nat := x.toBits.toNat
  let field : Nat := bits / Nat.pow 2 52 % Nat.pow 2 11
  let fraction := bits % Nat.pow 2 52
  if field = 0 then ⟨fraction, -1074, false⟩
  else ⟨Nat.pow 2 52 + fraction, (field : Int) - 1075, fraction == 0 && 1 < field⟩

/-! ## One grid

Everything is counted in quarters of the last binary place: the double is `4m`, the numbers that
round to it reach from `4m - 2` (`4m - 1` where the gap below is narrow) to `4m + 2`. A natural `d`
on the grid `10^k` is compared with a count of quarters `n` through `d · grid` and `n · scale`. -/

/-- The common scale of quarters of the last binary place. -/
def Binary.scale (b : Binary) (k : Int) : Nat :=
  Nat.pow 2 (b.exponent - 2).toNat * Nat.pow 10 (-k).toNat

/-- The common scale of steps on the grid `10^k`. -/
def Binary.grid (b : Binary) (k : Int) : Nat :=
  Nat.pow 2 (2 - b.exponent).toNat * Nat.pow 10 k.toNat

/-- Whether `d · 10^k` rounds to the double. The ends of the
interval do when the mantissa is even. -/
def Binary.readsBack (b : Binary) (k : Int) (d : Nat) : Bool :=
  let low := (4 * b.mantissa - if b.narrowBelow then 1 else 2) * b.scale k
  let high := (4 * b.mantissa + 2) * b.scale k
  let point := d * b.grid k
  if b.mantissa % 2 = 0 then low ≤ point && point ≤ high else low < point && point < high

/-- The neighbour of the double on the grid `10^k` that reads back, the nearer if both do. -/
def Binary.hit? (b : Binary) (k : Int) : Option Nat :=
  let value := 4 * b.mantissa * b.scale k
  let below := value / b.grid k
  match b.readsBack k below, b.readsBack k (below + 1) with
  | true, false => some below
  | false, true => some (below + 1)
  | true, true => if 2 * value < (2 * below + 1) * b.grid k then some below else some (below + 1)
  | false, false => none

/-! ## The search -/

/-- The first hit on the grids `10^k`, `10^(k-1)`, … -/
def Binary.search (b : Binary) : (fuel : Nat) → (k : Int) → Numeral
  | 0, k => ⟨4 * b.mantissa * b.scale k / b.grid k, k⟩
  | fuel + 1, k =>
    match b.hit? k with
    | some d => ⟨d, k⟩
    | none => b.search fuel (k - 1)

/-- The shortest decimal that reads back as the double. No double reaches `10^309`, and on the grid
`10^(-325)` every double has a neighbour that reads back. -/
def shortest (x : Float) : Numeral :=
  if x == 0.0 then ⟨0, 0⟩ else (Binary.ofFloat x).search 634 309

/-! ## Writing -/

/-- How the decimal point of a number is placed. -/
structure Style where
  /-- Whether a whole number is written with `.0`. -/
  wholeFraction : Bool
  /-- Whether a number whose first digit counts `10^e` is written without an exponent. -/
  positional : Int → Bool

/-- Every number is written out, whole numbers without a point. -/
def Style.plain : Style := ⟨false, fun _ => true⟩

/-- Whole numbers show `.0`; below `10^-4` and from `10^16` on, an exponent is written. -/
def Style.explicit : Style := ⟨true, fun e => -4 ≤ e && e < 16⟩

/-- The power of ten that the first digit counts. -/
def Numeral.magnitude (d : Numeral) : Int := d.exponent + (Nat.toDigits 10 d.digits).length - 1

/-- Writes a decimal without an exponent. -/
def Style.writePositional (style : Style) (d : Numeral) : List Char :=
  let digits := Nat.toDigits 10 d.digits
  if 0 ≤ d.exponent then
    digits ++ List.replicate d.exponent.toNat '0' ++
      if style.wholeFraction then ['.', '0'] else []
  else
    let places := (-d.exponent).toNat
    let padded := List.replicate (places + 1 - digits.length) '0' ++ digits
    padded.take (padded.length - places) ++ '.' :: padded.drop (padded.length - places)

/-- Writes a decimal with one digit before the point and an exponent. -/
def writeExponent (d : Numeral) : List Char :=
  let digits := Nat.toDigits 10 d.digits
  digits.take 1 ++ (if digits.length = 1 then [] else '.' :: digits.drop 1) ++
    'e' :: (toString d.magnitude).toList

/-- The text of a double. -/
def Style.write (style : Style) (x : Float) : String :=
  if x.isNaN then "NaN"
  else
    let sign := if Nat.pow 2 63 ≤ x.toBits.toNat then ['-'] else []
    if x.isInf then .ofList (sign ++ ['i', 'n', 'f'])
    else
      let d := shortest x
      let body := if d.digits = 0 || style.positional d.magnitude then style.writePositional d
        else writeExponent d
      .ofList (sign ++ body)

end Enclave.Decimal
