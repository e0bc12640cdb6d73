import PathExpr.Number.Layout
import PathExpr.Value.Basic

/-!
# Writing JSON text

Two layouts: compact, without any blank, and indented by two spaces a level, where an empty array or
object stays on one line.  Members keep their order.  Only what a string cannot hold is escaped in it.
What JSON has no text for — functions, and numbers that are not finite — is written as `null`.
-/

namespace PathExpr.Json

/-- JSON writes leading exponents from -5 to 15 positionally and always with a fraction; of two
equally near shortest decimals it takes the even one. -/
def numberLayout : Number.Layout := ⟨.toEven, some (-5, 15), true⟩

/-- The text of a floating point number. -/
def writeFloat (x : Float) : String :=
  match Number.Reading.ofFloat x with
  | .finite negative magnitude => numberLayout.write negative magnitude
  | _ => "null"

/-- A lower case hexadecimal digit. -/
def hexDigit (n : Nat) : Char := Nat.digitChar (n % 16)

/-- A character inside a string. -/
def escapeCharacter (c : Char) : String :=
  match c with
  | '"' => "\\\""
  | '\\' => "\\\\"
  | '\x08' => "\\b"
  | '\x0c' => "\\f"
  | '\n' => "\\n"
  | '\r' => "\\r"
  | '\t' => "\\t"
  | c =>
      if c < ' ' then
        "\\u00" ++ String.ofList [hexDigit (c.toNat / 16), hexDigit c.toNat]
      else String.singleton c

/-- A string with its quotes. -/
def writeString (text : String) : String :=
  "\"" ++ text.foldl (fun written c => written ++ escapeCharacter c) "" ++ "\""

/-- A line break and the indentation of a level. -/
def newLine (level : Nat) : String := "\n" ++ String.ofList (List.replicate (2 * level) ' ')

/-- The parts of an array or object between its brackets: bare in the compact layout, else each on
its own line one level further in. -/
def enclose (indent : Option Nat) (opener closer : String) (parts : List String) : String :=
  match parts, indent with
  | [], _ => opener ++ closer
  | parts, none => opener ++ String.intercalate "," parts ++ closer
  | parts, some level =>
      opener ++ newLine (level + 1) ++ String.intercalate ("," ++ newLine (level + 1)) parts
        ++ newLine level ++ closer

mutual

/-- Write a value; `indent` is the level of the line it stands on, or `none` for the compact
layout. -/
def writeValue (indent : Option Nat) : Value → String
  | .null | .function _ => "null"
  | .boolean truth => if truth then "true" else "false"
  | .integer number => toString number.toInt
  | .float number => writeFloat number
  | .string text => writeString text
  | .array items => enclose indent "[" "]" (writeItems (indent.map (· + 1)) items)
  | .object members =>
      enclose indent "\x7b" "\x7d" (writeMembers (indent.map (· + 1)) members)

/-- Write every item of an array. -/
def writeItems (indent : Option Nat) : List Value → List String
  | [] => []
  | item :: rest => writeValue indent item :: writeItems indent rest

/-- Write every member of an object: its name, a colon and its value. -/
def writeMembers (indent : Option Nat) : List (String × Value) → List String
  | [] => []
  | (key, value) :: rest =>
      (writeString key ++ (if indent.isSome then ": " else ":") ++ writeValue indent value)
        :: writeMembers indent rest

end

/-- **Compact JSON text.** -/
def compact (value : Value) : String := writeValue none value

/-- **JSON text indented by two spaces a level.** -/
def pretty (value : Value) : String := writeValue (some 0) value

end PathExpr.Json
