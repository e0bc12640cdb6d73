import PathExpr.Text.Quoted
import PathExpr.Token.Basic

/-!
# Showing compiled path expressions

A token set is shown as an outline of named records, one-item wrappers and lists.  An outline is
written on one line, or with every field and item on a line of its own, indented by four spaces a
level and ended by a comma, where an empty list stays on its line.
-/

namespace PathExpr

/-- A text with structure. -/
inductive Outline where
  | leaf (text : String)
  /-- A name around one item. -/
  | wrapped (name : String) (item : Outline)
  | record (name : String) (fields : List (String × Outline))
  | list (items : List Outline)
  deriving Inhabited

namespace Outline

mutual

/-- **Write an outline on one line.** -/
def inline : Outline → String
  | .leaf text => text
  | .wrapped name item => name ++ "(" ++ item.inline ++ ")"
  | .record name fields =>
      name ++ " \x7b " ++ String.intercalate ", " (inlineFields fields) ++ " \x7d"
  | .list items => "[" ++ String.intercalate ", " (inlineItems items) ++ "]"

/-- Each item of a list on one line. -/
def inlineItems : List Outline → List String
  | [] => []
  | item :: rest => item.inline :: inlineItems rest

/-- Each field of a record on one line. -/
def inlineFields : List (String × Outline) → List String
  | [] => []
  | (name, item) :: rest => (name ++ ": " ++ item.inline) :: inlineFields rest

end

/-- A line break and the indentation of a level. -/
def newLine (level : Nat) : String := "\n" ++ String.ofList (List.replicate (4 * level) ' ')

/-- Parts on lines of their own one level further in, each ended by a comma, between an opening and a
closing text. -/
def block (level : Nat) (opener closer : String) (parts : List String) : String :=
  opener ++ String.join (parts.map fun part => newLine (level + 1) ++ part ++ ",")
    ++ newLine level ++ closer

mutual

/-- **Write an outline on many lines**; it begins on a line of the given level. -/
def indented (level : Nat) : Outline → String
  | .leaf text => text
  | .wrapped name item => block level (name ++ "(") ")" [item.indented (level + 1)]
  | .record name fields => block level (name ++ " \x7b") "\x7d" (indentedFields (level + 1) fields)
  | .list [] => "[]"
  | .list items => block level "[" "]" (indentedItems (level + 1) items)

/-- Each item of a list on many lines. -/
def indentedItems (level : Nat) : List Outline → List String
  | [] => []
  | item :: rest => item.indented level :: indentedItems level rest

/-- Each field of a record on many lines. -/
def indentedFields (level : Nat) : List (String × Outline) → List String
  | [] => []
  | (name, item) :: rest => (name ++ ": " ++ item.indented level) :: indentedFields level rest

end

/-- A truth value. -/
def ofBool (truth : Bool) : Outline := .leaf (if truth then "true" else "false")

/-- A number. -/
def ofNat (n : Nat) : Outline := .leaf (toString n)

/-- A string with its quotes. -/
def ofString (text : String) : Outline := .leaf (Text.quoted text)

end Outline

/-- The outline of modifiers. -/
def Modifiers.outline (m : Modifiers) : Outline :=
  .record "Modifiers" [
    ("parent", .ofNat m.parent),
    ("root", .ofBool m.root),
    ("placeholder", .ofBool m.placeholder),
    ("context", .ofBool m.context)]

/-- The outline of a word. -/
def Word.outline (w : Word) : Outline :=
  .record "Word" [
    ("name", .ofString w.name),
    ("modifiers", w.modifiers.outline),
    ("wildcard",
      match w.wildcard with
      | some offset => .wrapped "Some" (.ofNat offset)
      | none => .leaf "None"),
    ("each", .ofBool w.each)]

/-- The outline of a sequence whose tokens are outlined. -/
def outlineOfSequence (tokens : List Outline) (simple : Bool) : Outline :=
  .record "TokenSet" [("tokens", .list tokens), ("simple", .ofBool simple)]

mutual

/-- **The outline of a token.** -/
def Token.outline : Token → Outline
  | .plain name => .wrapped "Plain" (.ofString name)
  | .word w => .wrapped "Word" w.outline
  | .collection items each =>
      .wrapped "Collection"
        (.record "Collection" [("items", .list (Token.outlines items)), ("each", .ofBool each)])
  | .container role inner each =>
      .wrapped "Container"
        (.record "Container" [
          ("inner", outlineOfSequence (Token.outlines inner.tokens) inner.simple),
          ("role", .leaf role.name),
          ("each", .ofBool each)])

/-- The outline of each token. -/
def Token.outlines : List Token → List Outline
  | [] => []
  | token :: rest => token.outline :: Token.outlines rest

end

/-- **The outline of a token set.** -/
def TokenSet.outline (set : TokenSet) : Outline :=
  outlineOfSequence (Token.outlines set.tokens) set.simple

end PathExpr
