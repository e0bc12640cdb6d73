import PathExpr.Text.Hidden

/-!
# Strings as they are shown to people

A string is shown between double quotes with everything escaped that could be misread: the quote and
the escape themselves, and the characters that do not show as characters of their own.
-/

namespace PathExpr.Text

/-- A character inside a shown string. -/
def shown (c : Char) : String :=
  match c with
  | '\x00' => "\\0"
  | '\t' => "\\t"
  | '\n' => "\\n"
  | '\r' => "\\r"
  | '"' => "\\\""
  | '\\' => "\\\\"
  | c =>
      if isHidden c then "\\u\x7b" ++ String.ofList (Nat.toDigits 16 c.toNat) ++ "\x7d"
      else String.singleton c

/-- **A string as it is shown.** -/
def quoted (text : String) : String :=
  "\"" ++ text.foldl (fun written c => written ++ shown c) "" ++ "\""

end PathExpr.Text
