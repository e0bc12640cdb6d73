import PathExpr.Value.Access

/-!
# Numbers in JSON text

A number without fraction and exponent that fits a signed word of 64 bits is an integer; `-0` and
every other number is a floating point number.  The digits are gathered in an unsigned word of 64
bits: digits that no longer fit are dropped, and before the point each of them raises the exponent.
The value is the gathered word, scaled by one power of ten, or by several of `10 ^ 308` when the
exponent is below that; so a number with more than 19 digits, or a very small one, need not be the
nearest floating point number to its text.  A number too large for floating point is refused.
-/

namespace PathExpr.Json

/-- Digits gathered so far, and the power of ten they count in. -/
structure Gathered where
  significand : Nat
  exponent : Int
  deriving Repr, DecidableEq

/-- Does one more digit fit the word? -/
def Gathered.fits (g : Gathered) (digit : Nat) : Bool :=
  10 * g.significand + digit < indexBound

/-- The value of a digit. -/
def digitValue (c : Char) : Nat := c.toNat - '0'.toNat

/-- Gather digits before the point; from the first that does not fit on, each raises the exponent. -/
def gatherWhole (g : Gathered) : List Char → Gathered
  | [] => g
  | c :: rest =>
      if g.exponent = 0 && g.fits (digitValue c) then
        gatherWhole { g with significand := 10 * g.significand + digitValue c } rest
      else gatherWhole { g with exponent := g.exponent + 1 } rest

/-- Gather digits behind the point; from the first that does not fit on, all are ignored. -/
def gatherFraction (g : Gathered) : List Char → Gathered
  | [] => g
  | c :: rest =>
      if g.fits (digitValue c) then
        gatherFraction ⟨10 * g.significand + digitValue c, g.exponent - 1⟩ rest
      else g

/-- `10 ^ n` as a floating point number. -/
def powerOfTen (n : Nat) : Float := Float.ofScientific 1 false n

/-- Scale a number by a power of ten; `none` if it leaves the range of floating point. -/
def scale (x : Float) (exponent : Int) : Option Float :=
  if exponent.natAbs ≤ 308 then
    if 0 ≤ exponent then
      let scaled := x * powerOfTen exponent.natAbs
      if scaled.isInf then none else some scaled
    else some (x / powerOfTen exponent.natAbs)
  else if x == 0.0 then some x
  else if 0 ≤ exponent then none
  else scale (x / powerOfTen 308) (exponent + 308)
termination_by (-exponent).toNat
decreasing_by omega

/-- The floating point number of the gathered digits. -/
def Gathered.toFloat? (g : Gathered) (negative : Bool) : Option Float :=
  (scale g.significand.toUInt64.toFloat g.exponent).map fun x => if negative then -x else x

/-- The bound of the integers, 2 to the power of 63: a negative one may reach it. -/
def integerBound : Nat := 9223372036854775808

/-- The number of gathered digits without fraction and exponent. -/
def Gathered.toValue? (g : Gathered) (negative : Bool) : Option Value :=
  if g.exponent ≠ 0 then (g.toFloat? negative).map .float
  else if negative then
    if g.significand = 0 ∨ integerBound < g.significand then
      some (.float (-g.significand.toUInt64.toFloat))
    else some (.integer (Int64.ofInt (-g.significand)))
  else if g.significand < integerBound then some (.integer (Int64.ofInt g.significand))
  else some (.float g.significand.toUInt64.toFloat)

/-- The bound that exponents read as numbers stay below: 2 to the power of 31. -/
def exponentBound : Nat := 2147483648

/-- The number of gathered digits with a written exponent.  An exponent out of range makes any
number but zero too large, or zero. -/
def Gathered.withExponent? (g : Gathered) (negative down : Bool) (digits : List Char) :
    Option Float :=
  let written := ofDigits digits
  if written < exponentBound then
    let shift : Int := if down then -written else written
    { g with exponent := g.exponent + shift }.toFloat? negative
  else if g.significand ≠ 0 && !down then none
  else some (if negative then -0.0 else 0.0)

/-- Split off a leading run of digits. -/
def spanDigits (s : List Char) : List Char × List Char := (s.takeWhile isDigit, s.dropWhile isDigit)

/-- Read the exponent of a number whose digits are gathered, if one follows. -/
def readExponent (g : Gathered) (negative : Bool) (plain : Option Value) (s : List Char) :
    Option (Value × List Char) :=
  match s with
  | c :: rest =>
      if c == 'e' || c == 'E' then
        let (down, rest) :=
          match rest with
          | '+' :: rest => (false, rest)
          | '-' :: rest => (true, rest)
          | rest => (false, rest)
        match spanDigits rest with
        | ([], _) => none
        | (digits, rest) => (g.withExponent? negative down digits).map (.float ·, rest)
      else plain.map (·, s)
  | [] => plain.map (·, s)

/-- **Read a number** whose sign is read already: digits without a superfluous leading zero, then a
fraction and an exponent if they are there. -/
def readNumber (negative : Bool) (s : List Char) : Option (Value × List Char) :=
  match spanDigits s with
  | ([], _) => none
  | ('0' :: _ :: _, _) => none
  | (whole, rest) =>
      let g := gatherWhole ⟨0, 0⟩ whole
      match rest with
      | '.' :: rest =>
          match spanDigits rest with
          | ([], _) => none
          | (fraction, rest) =>
              let g := gatherFraction g fraction
              readExponent g negative ((g.toFloat? negative).map .float) rest
      | rest => readExponent g negative (g.toValue? negative) rest

end PathExpr.Json
