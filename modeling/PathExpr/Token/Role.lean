/-!
# The roles of special characters

A path expression gives a meaning to a few characters: *modifiers* stand in front of a name and
change what it names, *separators* stand between segments, and *containers* enclose text.  Which
character has which role is up to the dialect; the roles themselves are fixed.
-/

namespace PathExpr

/-- What a modifier character does to the name behind it. -/
inductive ModifierRole where
  /-- Start one context further up. -/
  | parent
  /-- Start at the document. -/
  | root
  /-- The name is the text of an argument. -/
  | placeholder
  /-- The name stands for the argument itself. -/
  | context
  deriving Repr, DecidableEq, Inhabited

/-- What a separator character does to the segments beside it. -/
inductive SeparatorRole where
  /-- The next segment is looked up on what the previous one reached. -/
  | property
  /-- Both segments belong to one collection. -/
  | collection
  /-- The next segment is applied to every element of what the previous one reached. -/
  | each
  deriving Repr, DecidableEq, Inhabited

/-- What a container does with the text it encloses. -/
inductive ContainerRole where
  /-- A path expression taken as one segment. -/
  | property
  /-- A literal name in single quotes. -/
  | singleQuote
  /-- A literal name in double quotes. -/
  | doubleQuote
  /-- The arguments of a call. -/
  | call
  /-- A path expression whose value is the name. -/
  | evalProperty
  deriving Repr, DecidableEq, Inhabited

/-- Does the container enclose a literal name? -/
def ContainerRole.isQuote : ContainerRole → Bool
  | .singleQuote | .doubleQuote => true
  | _ => false

/-- The name of a modifier role. -/
def ModifierRole.name : ModifierRole → String
  | .parent => "Parent"
  | .root => "Root"
  | .placeholder => "Placeholder"
  | .context => "Context"

/-- The name of a separator role. -/
def SeparatorRole.name : SeparatorRole → String
  | .property => "Property"
  | .collection => "Collection"
  | .each => "Each"

/-- The name of a container role. -/
def ContainerRole.name : ContainerRole → String
  | .property => "Property"
  | .singleQuote => "SingleQuote"
  | .doubleQuote => "DoubleQuote"
  | .call => "Call"
  | .evalProperty => "EvalProperty"

/-- The character that takes the special meaning off the next one; no dialect can change it. -/
def escapeMark : Char := '\\'

/-- The character that stands for any text in a name; no dialect can change it. -/
def wildcardMark : Char := '*'

end PathExpr
