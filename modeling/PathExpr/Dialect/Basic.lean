import PathExpr.Token.Role

/-!
# Dialects: which character has which role

A dialect is three tables — modifiers, separators and containers — in which no character has two
roles, with one exception: a container may close with the character that opens it.  Every dialect is
made by `Dialect.ofTables`, which refuses tables that break the rule, so the look-ups below never
have to choose between roles.

* `Dialect.roleOf?` — the role of a character.
* `Dialect.isSimplePath` — the test that lets a path expression be split at its property separators
  without being tokenized.  It is a list of its own, not a use of `roleOf?`: that the two agree is a
  fact about dialects.
* A *simple* dialect has one separator and nothing else, not even an escape.
-/

namespace PathExpr

/-- A table of characters. -/
abbrev Table (α : Type) := List (Char × α)

/-- The three tables of a dialect. A container is listed under its opener. -/
structure Tables where
  modifiers : Table ModifierRole
  separators : Table SeparatorRole
  containers : Table (ContainerRole × Char)
  deriving Repr, DecidableEq, Inhabited

/-- A role that a table gives to a character. -/
inductive Binding where
  | modifier (role : ModifierRole)
  | separator (role : SeparatorRole)
  | opener (role : ContainerRole)
  | closer (role : ContainerRole)
  deriving Repr, DecidableEq, Inhabited

/-- How an error message names a role. -/
def Binding.description : Binding → String
  | .modifier role => "prefix " ++ role.name
  | .separator role => "separator " ++ role.name
  | .opener role => role.name ++ " container opener"
  | .closer role => role.name ++ " container closer"

/-- Why tables are refused. -/
inductive ConfigError where
  /-- One character is given two roles. -/
  | conflict (character : Char) (first second : Binding)
  /-- A character with a fixed meaning is given a role. -/
  | reserved (character : Char)
  /-- No character separates properties. -/
  | missingPropertySeparator
  deriving Repr, DecidableEq, Inhabited

/-- The wording of a refusal. -/
def ConfigError.message : ConfigError → String
  | .conflict character first second =>
      s!"character '{character}' cannot be both {first.description} and {second.description}"
  | .reserved character =>
      s!"character '{character}' is reserved and cannot be assigned a syntax role"
  | .missingPropertySeparator => "syntax has no property separator"

namespace Tables

/-- The role of a closing character, under that character. -/
def closers (tables : Tables) : Table ContainerRole :=
  tables.containers.map fun (_, role, closer) => (closer, role)

/-- **All roles that the tables give**, in table order. A container that closes with the character
that opens it binds that character once. -/
def bindings (tables : Tables) : List (Char × Binding) :=
  tables.modifiers.map (fun (c, role) => (c, .modifier role)) ++
  tables.separators.map (fun (c, role) => (c, .separator role)) ++
  tables.containers.flatMap fun (opener, role, closer) =>
    (opener, .opener role) :: if closer = opener then [] else [(closer, .closer role)]

/-- The character that separates properties. -/
def property? (tables : Tables) : Option Char :=
  (tables.separators.find? fun entry => entry.2 = .property).map (·.1)

/-- Check bindings one after the other: none may be of a reserved character or of one that is
`taken`. -/
def checkBindings (taken : List (Char × Binding)) : List (Char × Binding) → Except ConfigError Unit
  | [] => .ok ()
  | (c, binding) :: rest =>
      if c = wildcardMark ∨ c = escapeMark then .error (.reserved c)
      else match taken.lookup c with
        | some first => .error (.conflict c first binding)
        | none => checkBindings ((c, binding) :: taken) rest

end Tables

/-- A consistent set of tables with its property separator. -/
structure Dialect where
  tables : Tables
  property : Char
  /-- Is this a dialect of one separator, without escapes? -/
  simple : Bool
  deriving Repr, DecidableEq, Inhabited

/-- What a character means in a dialect. -/
inductive CharRole where
  | modifier (role : ModifierRole)
  | separator (role : SeparatorRole)
  | opener (role : ContainerRole) (closer : Char)
  | closer (role : ContainerRole)
  deriving Repr, DecidableEq, Inhabited

namespace Dialect

/-- **The dialect of some tables**, unless two roles collide, a reserved character is used or no
character separates properties. -/
def ofTables (tables : Tables) : Except ConfigError Dialect :=
  match Tables.checkBindings [] tables.bindings with
  | .error fault => .error fault
  | .ok () =>
      match tables.property? with
      | some property => .ok ⟨tables, property, false⟩
      | none => .error .missingPropertySeparator

/-- **The simple dialect** of a separator. -/
def ofSeparator (separator : Char) : Except ConfigError Dialect :=
  (ofTables ⟨[], [(separator, .property)], []⟩).map fun dialect => { dialect with simple := true }

/-- The tables of the default dialect. -/
def standardTables : Tables where
  modifiers := [('^', .parent), ('~', .root), ('%', .placeholder), ('@', .context)]
  separators := [('.', .property), (',', .collection), ('<', .each)]
  containers := [
    ('[', .property, ']'),
    ('\x27', .singleQuote, '\x27'),
    ('\x22', .doubleQuote, '\x22'),
    ('(', .call, ')'),
    ('\x7b', .evalProperty, '\x7d')]

/-- The default dialect. -/
def standard : Dialect := ⟨standardTables, '.', false⟩

/-- The default tables are accepted. -/
theorem ofTables_standardTables : ofTables standardTables = .ok standard := by rfl

/-- **The role of a character.** -/
def roleOf? (dialect : Dialect) (c : Char) : Option CharRole :=
  match dialect.tables.modifiers.lookup c with
  | some role => some (.modifier role)
  | none =>
      match dialect.tables.separators.lookup c with
      | some role => some (.separator role)
      | none =>
          match dialect.tables.containers.lookup c with
          | some (role, closer) => some (.opener role closer)
          | none => (dialect.tables.closers.lookup c).map .closer

/-- Does a character have a meaning of its own in the dialect? -/
def isSpecial (dialect : Dialect) (c : Char) : Bool :=
  if dialect.simple then c == dialect.property
  else c == wildcardMark || c == escapeMark || (dialect.roleOf? c).isSome

/-- The opener and closer of a container role. -/
def container? (dialect : Dialect) (role : ContainerRole) : Option (Char × Char) :=
  (dialect.tables.containers.find? fun entry => entry.2.1 = role).map
    fun (opener, _, closer) => (opener, closer)

/-- The characters that a path expression must not hold to be split without being tokenized. -/
def complications (dialect : Dialect) : List Char :=
  dialect.tables.modifiers.map (·.1) ++
  (dialect.tables.separators.map (·.1)).filter (· != dialect.property) ++
  dialect.tables.containers.map (·.1) ++
  dialect.tables.closers.map (·.1) ++ [wildcardMark, escapeMark]

/-- **Is a path expression a run of plain names** between property separators? In a simple dialect
every one is. -/
def isSimplePath (dialect : Dialect) (path : List Char) : Bool :=
  dialect.simple || !path.any dialect.complications.contains

end Dialect

end PathExpr
