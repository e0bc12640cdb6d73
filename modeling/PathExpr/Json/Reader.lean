import PathExpr.Json.Number

/-!
# Reading JSON text

A strict reader: blanks are space, tab, line feed and carriage return; strings hold no raw control
characters and no lone surrogates; nothing but blanks follows the value; and at most `maxDepth`
arrays and objects are open at one time.  A name that an object repeats keeps its first position and
takes its last value.

Reading recurses on the depth that is left.  The items of one array, and the members of one object,
are a loop with a budget of as many parts as the text has characters; every part takes a character at
least, so no text exhausts it.
-/

namespace PathExpr.Json

/-- How many arrays and objects may be open at one time. -/
def maxDepth : Nat := 127

/-- A blank between tokens. -/
def isBlank (c : Char) : Bool := c == ' ' || c == '\t' || c == '\n' || c == '\r'

/-- Drop leading blanks. -/
def skipBlanks (s : List Char) : List Char := s.dropWhile isBlank

/-- The value of a hexadecimal digit. -/
def hexValue? (c : Char) : Option Nat :=
  if isDigit c then some (c.toNat - '0'.toNat)
  else if 'a' ≤ c ∧ c ≤ 'f' then some (c.toNat - 'a'.toNat + 10)
  else if 'A' ≤ c ∧ c ≤ 'F' then some (c.toNat - 'A'.toNat + 10)
  else none

/-- The 16 bits that four hexadecimal digits stand for. -/
def hexUnit? (a b c d : Char) : Option Nat := do
  return (((← hexValue? a) * 16 + (← hexValue? b)) * 16 + (← hexValue? c)) * 16 + (← hexValue? d)

/-- A unit that opens a surrogate pair. -/
def isLeading (unit : Nat) : Bool := 0xD800 ≤ unit && unit < 0xDC00

/-- A unit that closes a surrogate pair. -/
def isTrailing (unit : Nat) : Bool := 0xDC00 ≤ unit && unit < 0xE000

/-- The character of a surrogate pair. -/
def joinPair (leading trailing : Nat) : Char :=
  Char.ofNat (0x10000 + (leading - 0xD800) * 0x400 + (trailing - 0xDC00))

/-- The character that a one-letter escape stands for. -/
def shortEscape? : Char → Option Char
  | '"' => some '"'
  | '\\' => some '\\'
  | '/' => some '/'
  | 'b' => some '\x08'
  | 'f' => some '\x0c'
  | 'n' => some '\n'
  | 'r' => some '\r'
  | 't' => some '\t'
  | _ => none

/-- Read a string whose opening quote is read already; `taken` holds its characters so far, last
first. -/
def readString (taken : List Char) : List Char → Option (String × List Char)
  | [] => none
  | '"' :: rest => some (String.ofList taken.reverse, rest)
  | '\\' :: 'u' :: a :: b :: c :: d :: rest =>
      match hexUnit? a b c d with
      | none => none
      | some unit =>
          if isLeading unit then
            match rest with
            | '\\' :: 'u' :: a :: b :: c :: d :: rest =>
                match hexUnit? a b c d with
                | none => none
                | some second =>
                    if isTrailing second then readString (joinPair unit second :: taken) rest
                    else none
            | _ => none
          else if isTrailing unit then none
          else readString (Char.ofNat unit :: taken) rest
  | '\\' :: c :: rest =>
      match shortEscape? c with
      | some character => readString (character :: taken) rest
      | none => none
  | c :: rest => if c == '\\' || c < ' ' then none else readString (c :: taken) rest

/-- Read the items of an array, from the first of them up to the closing bracket. -/
def readItems (item : List Char → Option (Value × List Char)) :
    (budget : Nat) → List Char → Option (List Value × List Char)
  | 0, _ => none
  | budget + 1, s =>
      match item s with
      | none => none
      | some (value, rest) =>
          match skipBlanks rest with
          | ']' :: rest => some ([value], rest)
          | ',' :: rest =>
              (readItems item budget rest).map fun (values, rest) => (value :: values, rest)
          | _ => none

/-- Read one member of an object: a name, a colon and a value. -/
def readMember (item : List Char → Option (Value × List Char)) (s : List Char) :
    Option ((String × Value) × List Char) :=
  match skipBlanks s with
  | '"' :: name =>
      match readString [] name with
      | none => none
      | some (key, rest) =>
          match skipBlanks rest with
          | ':' :: rest => (item rest).map fun (value, rest) => ((key, value), rest)
          | _ => none
  | _ => none

/-- Read the members of an object, from the first of them up to the closing brace. -/
def readMembers (item : List Char → Option (Value × List Char)) :
    (budget : Nat) → List Char → Option (List (String × Value) × List Char)
  | 0, _ => none
  | budget + 1, s =>
      match readMember item s with
      | none => none
      | some (entry, rest) =>
          match skipBlanks rest with
          | '\x7d' :: rest => some ([entry], rest)
          | ',' :: rest =>
              (readMembers item budget rest).map fun (entries, rest) => (entry :: entries, rest)
          | _ => none

/-- Read one value; `depth` arrays and objects may still be opened, and each of them may have up to
`budget` parts. -/
def readValue (budget : Nat) : (depth : Nat) → List Char → Option (Value × List Char)
  | depth, s =>
    match skipBlanks s with
    | 'n' :: 'u' :: 'l' :: 'l' :: rest => some (.null, rest)
    | 't' :: 'r' :: 'u' :: 'e' :: rest => some (.boolean true, rest)
    | 'f' :: 'a' :: 'l' :: 's' :: 'e' :: rest => some (.boolean false, rest)
    | '"' :: rest => (readString [] rest).map fun (text, rest) => (.string text, rest)
    | '[' :: rest =>
        match depth with
        | 0 => none
        | depth + 1 =>
            match skipBlanks rest with
            | ']' :: rest => some (.array [], rest)
            | rest =>
                (readItems (readValue budget depth) budget rest).map fun (items, rest) =>
                  (.array items, rest)
    | '\x7b' :: rest =>
        match depth with
        | 0 => none
        | depth + 1 =>
            match skipBlanks rest with
            | '\x7d' :: rest => some (.object [], rest)
            | rest =>
                (readMembers (readValue budget depth) budget rest).map fun (entries, rest) =>
                  (.object (Members.ofList entries), rest)
    | '-' :: rest => readNumber true rest
    | rest => readNumber false rest

/-- **The value that a JSON text stands for**, or `none` if the text is not JSON. -/
def parse? (text : String) : Option Value :=
  let characters := text.toList
  match readValue characters.length maxDepth characters with
  | some (value, rest) => if (skipBlanks rest).isEmpty then some value else none
  | none => none

end PathExpr.Json
