/-!
# The fewest decimal digits that stand for a floating point number

A finite floating point number is `significand · 2 ^ exponent`, and every real number close enough
to it rounds to it.  Its *shortest decimal* is the one with the fewest digits among the decimals in
that interval, and of those the nearest.  The search is exact: for 1, 2, … 17 digits it takes the two
neighbours of the number on the grid of decimals with so many digits, in integer arithmetic, and
stops at the first grid that has a neighbour inside the interval.  Seventeen digits always suffice.

All quantities of a `Binary` are counted in quarters of its last place, so that the ends of its
interval — half a place up, half a place down, or a quarter down at a power of two — are whole.
Whether the ends themselves belong to the interval depends on the parity of the significand.

What two equally near candidates are decided by is a parameter (`Tie`): that is a decision of the
format in which the number is written.
-/

namespace PathExpr.Number

/-- What decides between two equally near neighbours. -/
inductive Tie where
  /-- The neighbour with an even last digit. -/
  | toEven
  /-- The neighbour further from zero. -/
  | away
  deriving Repr, DecidableEq

/-- A positive number `significand · 2 ^ exponent` with the width of its rounding interval:
`tight` tells that the next smaller number is only half a place away. -/
structure Binary where
  significand : Nat
  exponent : Int
  tight : Bool
  deriving Repr, DecidableEq

/-- A number `digits · 10 ^ exponent`. -/
structure Decimal where
  digits : Nat
  exponent : Int
  deriving Repr, DecidableEq

/-- What 64 bits stand for. -/
inductive Reading where
  | nan
  | infinite (negative : Bool)
  | finite (negative : Bool) (magnitude : Binary)
  deriving Repr, DecidableEq

/-- The leading bit of a significand, which is not written: 2 to the power of 52. -/
def hiddenBit : Nat := 4503599627370496

/-- **Decode** the sign bit, the 11 bits of exponent and the 52 bits of fraction. -/
def Reading.ofBits (bits : Nat) : Reading :=
  let negative := (bits >>> 63) % 2 == 1
  let exponent : Nat := (bits >>> 52) % 2048
  let fraction := bits % hiddenBit
  if exponent = 2047 then
    if fraction = 0 then .infinite negative else .nan
  else if exponent = 0 then .finite negative ⟨fraction, -1074, false⟩
  else
    .finite negative ⟨hiddenBit + fraction, (exponent : Int) - 1075, fraction == 0 && exponent != 1⟩

/-- What a floating point number is. -/
def Reading.ofFloat (x : Float) : Reading := .ofBits x.toBits.toNat

/-- The number of decimal digits of a natural number. -/
def digitCount (n : Nat) : Nat := (Nat.toDigits 10 n).length

/-- A whole number read as a fraction when it is an exponent: `base ^ e` as numerator and
denominator. -/
def powerFraction (base : Nat) : Int → Nat × Nat
  | .ofNat e => (base.pow e, 1)
  | .negSucc e => (1, base.pow (e + 1))

/-- Drop trailing zeros from the digits. -/
def Decimal.stripped (d : Decimal) : Decimal :=
  if d.digits = 0 ∨ d.digits % 10 ≠ 0 then d
  else Decimal.stripped ⟨d.digits / 10, d.exponent + 1⟩
termination_by d.digits
decreasing_by omega

namespace Binary

/-- The number in quarters of its last place. -/
def quarters (b : Binary) : Nat := 4 * b.significand

/-- The lower end of the rounding interval, in quarters. -/
def lower (b : Binary) : Nat := b.quarters - if b.tight then 1 else 2

/-- The upper end of the rounding interval, in quarters. -/
def upper (b : Binary) : Nat := b.quarters + 2

/-- How many steps of the grid `10 ^ k` a quarter of the last place is, as a fraction. -/
def quarterOnGrid (b : Binary) (k : Int) : Nat × Nat :=
  let quarter := powerFraction 2 (b.exponent - 2)
  let step := powerFraction 10 k
  (quarter.1 * step.2, quarter.2 * step.1)

/-- The exponent of the leading decimal digit. The number is scaled up so far first that no
floating point number has a leading digit behind the point. -/
def leadingExponent (b : Binary) : Int :=
  let quarter := powerFraction 2 (b.exponent - 2)
  (digitCount (b.quarters * quarter.1 * Nat.pow 10 400 / quarter.2) : Int) - 401

/-- The neighbour below the number on the grid `10 ^ k`. -/
def floorOnGrid (b : Binary) (k : Int) : Nat :=
  b.quarters * (b.quarterOnGrid k).1 / (b.quarterOnGrid k).2

/-- Of the two neighbours of the number on the grid `10 ^ k`, the nearer one that rounds to the
number. -/
def nearestOnGrid? (tie : Tie) (b : Binary) (k : Int) : Option Decimal :=
  let (num, den) := b.quarterOnGrid k
  let below := b.floorOnGrid k
  let excess := b.quarters * num % den
  let inclusive := b.significand % 2 == 0
  let takesBelow :=
    if inclusive then decide (b.lower * num ≤ below * den) else decide (b.lower * num < below * den)
  let takesAbove :=
    if inclusive then decide ((below + 1) * den ≤ b.upper * num)
    else decide ((below + 1) * den < b.upper * num)
  if takesBelow && takesAbove then
    if 2 * excess < den then some ⟨below, k⟩
    else if den < 2 * excess then some ⟨below + 1, k⟩
    else match tie with
      | .toEven => some ⟨below + below % 2, k⟩
      | .away => some ⟨below + 1, k⟩
  else if takesBelow then some ⟨below, k⟩
  else if takesAbove then some ⟨below + 1, k⟩
  else none

/-- **The shortest decimal** of a number. -/
def shortest (tie : Tie) (b : Binary) : Decimal :=
  if b.significand = 0 then ⟨0, 0⟩
  else
    let leading := b.leadingExponent
    match (List.range 17).findSome? fun (count : Nat) =>
        b.nearestOnGrid? tie (leading - (count : Int)) with
    | some decimal => decimal.stripped
    | none => ⟨b.floorOnGrid (leading - 16), leading - 16⟩

end Binary

end PathExpr.Number
