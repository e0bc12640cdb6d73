import PathExpr.Resolve.Interpret

/-!
# The stock of functions

The functions that documents can hold by name.  Each is given the receiver — the value that the
function was taken from — and the arguments, and answers with a value or with none.
-/

namespace PathExpr.Builtin

/-- The functions of the stock. -/
inductive Function where
  | none | null | args | count | receiver | both | first | name | sum | concat | div | maker
  deriving Repr, DecidableEq, Inhabited

/-- Every function with the name that it has in a document. -/
def stock : List (String × Function) :=
  [("none", .none), ("null", .null), ("args", .args), ("count", .count), ("receiver", .receiver),
    ("both", .both), ("first", .first), ("name", .name), ("sum", .sum), ("concat", .concat),
    ("div", .div), ("maker", .maker)]

/-- The sum of the integers among some values, in words of 64 bits. -/
def sumOfIntegers (values : List Value) : Int64 :=
  values.foldl (fun sum value =>
    match value with
    | .integer number => sum + number
    | _ => sum) 0

/-- A value as a floating point number; what is no number counts as zero. -/
def toFloat : Option Value → Float
  | some (.integer number) => number.toFloat
  | some (.float number) => number
  | _ => 0.0

/-- The keys of some values, joined; none if one of them has none. -/
def joinKeys? : List Value → Option String
  | [] => some ""
  | value :: rest =>
      match value.key?, joinKeys? rest with
      | some key, some keys => some (key ++ keys)
      | _, _ => Option.none

/-- **What a function answers.** -/
def Function.apply (receiver : Value) (arguments : List Value) : Function → Option Value
  | .none => Option.none
  | .null => some .null
  | .args => some (.array arguments)
  | .count => some (.integer (Int64.ofNat arguments.length))
  | .receiver => some receiver
  | .both => some (.object [("this", receiver), ("args", .array arguments)])
  | .first => arguments.head?
  | .name => receiver.child? "name"
  | .sum => some (.integer (sumOfIntegers arguments))
  | .concat => (joinKeys? arguments).map .string
  | .div => some (.float (toFloat arguments[0]? / toFloat arguments[1]?))
  | .maker => some (.function "both")

/-- Is a function of this name in the stock? -/
def isKnown (name : String) : Bool := (stock.lookup name).isSome

/-- **The functions of the stock**, by name. A name that is not in it has no answer. -/
def functions : Resolve.Functions := fun name receiver arguments =>
  (stock.lookup name).bind (Function.apply receiver arguments)

end PathExpr.Builtin
