import PathExpr.Dialect.Basic

/-!
# Changing a dialect

A change replaces a whole table or gives one role to other characters.  Every change goes through
`Dialect.ofTables`, so the result is a consistent dialect or an error, and the old dialect is kept in
the second case.  To rebind a role frees the characters that had it before; a character that has
another role of the same table is refused before anything is freed.

A changed dialect is not simple, whatever the old one was; only `Change.simple` makes a simple one.
-/

namespace PathExpr

/-- A change of dialect. -/
inductive Change where
  | modifiers (table : Table ModifierRole)
  | separators (table : Table SeparatorRole)
  | containers (table : Table (ContainerRole × Char))
  | modifier (role : ModifierRole) (c : Char)
  | separator (role : SeparatorRole) (c : Char)
  | container (role : ContainerRole) (opener closer : Char)
  /-- Enter the simple dialect of a separator, or leave it. -/
  | simple (separator : Option Char)
  /-- Back to the default. -/
  | reset
  deriving Repr, DecidableEq, Inhabited

/-- Move a role to another character of a table: every entry of the role goes, and the new one is
added. -/
def Table.rebind {α : Type} (table : Table α) (hasRole : α → Bool) (c : Char) (entry : α) : Table α :=
  table.filter (fun old => !hasRole old.2) ++ [(c, entry)]

namespace Dialect

/-- The dialect with another table of modifiers. -/
def withModifiers (dialect : Dialect) (table : Table ModifierRole) : Except ConfigError Dialect :=
  ofTables { dialect.tables with modifiers := table }

/-- The dialect with another table of separators. -/
def withSeparators (dialect : Dialect) (table : Table SeparatorRole) : Except ConfigError Dialect :=
  ofTables { dialect.tables with separators := table }

/-- The dialect with another table of containers. -/
def withContainers (dialect : Dialect) (table : Table (ContainerRole × Char)) :
    Except ConfigError Dialect :=
  ofTables { dialect.tables with containers := table }

/-- **Rebind a modifier role** to a character that no other modifier role has. -/
def withModifier (dialect : Dialect) (role : ModifierRole) (c : Char) : Except ConfigError Dialect :=
  match (dialect.tables.modifiers.lookup c).filter (· != role) with
  | some existing => .error (.conflict c (.modifier existing) (.modifier role))
  | none =>
      dialect.withModifiers (Table.rebind dialect.tables.modifiers (· == role) c role)

/-- **Rebind a separator role** to a character that no other separator role has. -/
def withSeparator (dialect : Dialect) (role : SeparatorRole) (c : Char) :
    Except ConfigError Dialect :=
  match (dialect.tables.separators.lookup c).filter (· != role) with
  | some existing => .error (.conflict c (.separator existing) (.separator role))
  | none =>
      dialect.withSeparators (Table.rebind dialect.tables.separators (· == role) c role)

/-- **Rebind a container role** to an opener that no other container role has. -/
def withContainer (dialect : Dialect) (role : ContainerRole) (opener closer : Char) :
    Except ConfigError Dialect :=
  match (dialect.tables.containers.lookup opener).filter (·.1 != role) with
  | some (existing, _) => .error (.conflict opener (.opener existing) (.opener role))
  | none =>
      dialect.withContainers
        (Table.rebind dialect.tables.containers (·.1 == role) opener (role, closer))

/-- **Change a dialect** that has no history: leaving a simple dialect gives the default one. -/
def change (dialect : Dialect) : Change → Except ConfigError Dialect
  | .modifiers table => dialect.withModifiers table
  | .separators table => dialect.withSeparators table
  | .containers table => dialect.withContainers table
  | .modifier role c => dialect.withModifier role c
  | .separator role c => dialect.withSeparator role c
  | .container role opener closer => dialect.withContainer role opener closer
  | .simple (some separator) => ofSeparator separator
  | .simple none => .ok standard
  | .reset => .ok standard

end Dialect

end PathExpr
