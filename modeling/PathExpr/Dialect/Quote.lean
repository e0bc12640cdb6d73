import PathExpr.Dialect.Basic

/-!
# Writing a name so that it is read back as one plain name

Two ways to write a name in a dialect: with an escape before every special character, or, if it
needs it, between quotes, where only the closing quote and the escape are special.  A simple dialect
has neither, and leaves the name as it is.
-/

namespace PathExpr.Dialect

/-- Put an escape before each character of a kind. -/
def escapeWhere (needs : Char → Bool) : List Char → List Char
  | [] => []
  | c :: rest => if needs c then escapeMark :: c :: escapeWhere needs rest else c :: escapeWhere needs rest

@[simp] theorem escapeWhere_nil (needs : Char → Bool) : escapeWhere needs [] = [] := rfl

theorem escapeWhere_cons (needs : Char → Bool) (c : Char) (rest : List Char) :
    escapeWhere needs (c :: rest) =
      if needs c then escapeMark :: c :: escapeWhere needs rest
      else c :: escapeWhere needs rest := rfl

theorem escapeWhere_append (needs : Char → Bool) (first second : List Char) :
    escapeWhere needs (first ++ second) = escapeWhere needs first ++ escapeWhere needs second := by
  induction first with
  | nil => rfl
  | cons c rest ih =>
      rw [List.cons_append, escapeWhere_cons, escapeWhere_cons, ih]
      split <;> rfl

/-- **Escape a name.** The empty name stays empty, and is no segment. -/
def escape (dialect : Dialect) (name : List Char) : List Char :=
  if dialect.simple then name else escapeWhere dialect.isSpecial name

/-- The quotes of a dialect: single ones if it has them, else double ones. -/
def quotes? (dialect : Dialect) : Option (Char × Char) :=
  dialect.container? .singleQuote <|> dialect.container? .doubleQuote

/-- **Quote a name** if it is empty or has a special character, and escape it where there are no
quotes. -/
def quote (dialect : Dialect) (name : List Char) : List Char :=
  if dialect.simple || (!name.isEmpty && !name.any dialect.isSpecial) then name
  else
    match dialect.quotes? with
    | some (opener, closer) =>
        opener :: escapeWhere (fun c => c == closer || c == escapeMark) name ++ [closer]
    | none => dialect.escape name

end PathExpr.Dialect
