import PathExpr.Number.Shortest

/-!
# How a decimal is laid out

The same digits can be written positionally (`0.00015`) or with an exponent (`1.5e-4`), and a whole
number with or without a fraction.  A `Layout` holds these decisions of one format; the modules that
write a format define its layout.
-/

namespace PathExpr.Number

/-- The decisions of a format that writes floating point numbers. -/
structure Layout where
  /-- What decides between two equally near shortest decimals. -/
  tie : Tie
  /-- The least and greatest leading exponents that are written positionally; all if absent. -/
  positional : Option (Int × Int)
  /-- Does a whole number written positionally end in `.0`? -/
  pointZero : Bool

namespace Layout

/-- A run of zeros. -/
def zeros (count : Nat) : String := String.ofList (List.replicate count '0')

/-- All digits around the point, with the zeros between them and it. -/
def writePositional (layout : Layout) (digits : List Char) (exponent : Int) : String :=
  let leading : Int := digits.length - 1 + exponent
  if 0 ≤ exponent then
    String.ofList digits ++ zeros exponent.toNat ++ if layout.pointZero then ".0" else ""
  else if 0 ≤ leading then
    let whole := leading.toNat + 1
    String.ofList (digits.take whole) ++ "." ++ String.ofList (digits.drop whole)
  else "0." ++ zeros (-leading - 1).toNat ++ String.ofList digits

/-- One digit before the point, the others behind it, and the exponent with its sign. -/
def writeScientific (digits : List Char) (exponent : Int) : String :=
  let leading : Int := digits.length - 1 + exponent
  let mantissa :=
    match digits with
    | [] => ""
    | [digit] => String.singleton digit
    | digit :: rest => String.singleton digit ++ "." ++ String.ofList rest
  mantissa ++ "e" ++ (if leading < 0 then "-" else "+") ++ toString leading.natAbs

/-- **The text of a finite number.** Zero has the layout of a whole number, and keeps its sign. -/
def write (layout : Layout) (negative : Bool) (magnitude : Binary) : String :=
  let decimal := magnitude.shortest layout.tie
  let digits := Nat.toDigits 10 decimal.digits
  let leading : Int := digits.length - 1 + decimal.exponent
  let positional :=
    match layout.positional with
    | some (least, greatest) => decide (least ≤ leading) && decide (leading ≤ greatest)
    | none => true
  (if negative then "-" else "") ++
    if positional then layout.writePositional digits decimal.exponent
    else writeScientific digits decimal.exponent

end Layout

end PathExpr.Number
