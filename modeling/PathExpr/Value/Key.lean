import PathExpr.Number.Layout
import PathExpr.Value.Basic

/-!
# Values as names

A placeholder, a computed property and the joining of texts use the *key* of a value: its text
without quotes.  Values that contain values and functions have none.
-/

namespace PathExpr

/-- Numbers in names are written positionally however large or small, without an empty fraction;
of two equally near shortest decimals the larger is written. -/
def keyLayout : Number.Layout := ⟨.away, none, false⟩

/-- The key of a floating point number. -/
def floatKey (x : Float) : String :=
  match Number.Reading.ofFloat x with
  | .nan => "NaN"
  | .infinite negative => if negative then "-inf" else "inf"
  | .finite negative magnitude => keyLayout.write negative magnitude

/-- **The text of a value used as a name.** -/
def Value.key? : Value → Option String
  | .null => some "null"
  | .boolean truth => some (if truth then "true" else "false")
  | .integer number => some (toString number.toInt)
  | .float number => some (floatKey number)
  | .string text => some text
  | .array _ | .object _ | .function _ => none

end PathExpr
