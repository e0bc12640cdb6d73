import PathExpr.Value.Basic

/-!
# What can go wrong

Three families of errors, each told apart by its cause: a path expression that is not well formed
(`SyntaxError`), a well formed one that does not resolve (`PathError`), and a table of special
characters that is refused (`ConfigError`, beside the dialects).  A constructor carries what its
message names; the wording is in one function per family.

Positions count characters from the start of the whole path expression, also for a fault inside a
container.
-/

namespace PathExpr

/-- Why a path expression is not well formed. -/
inductive SyntaxError where
  /-- A container is opened and the expression ends before it is closed. -/
  | unclosedContainer (opener : Char) (position : Nat)
  /-- A closing character stands outside every container. -/
  | unexpectedCloser (closer : Char) (position : Nat)
  /-- The last character is an escape with nothing to escape. -/
  | trailingEscape (position : Nat)
  /-- A segment, an item of a collection or the inside of a container is missing. -/
  | emptySegment (position : Nat)
  /-- Modifiers stand where no name follows that could carry them. -/
  | danglingModifier (position : Nat)
  /-- One word holds two or more unescaped wildcards. -/
  | multipleWildcards (word : String)
  /-- Text follows a closed container without a separator. -/
  | unexpectedCharacter (character : Char) (position : Nat)
  deriving Repr, DecidableEq, Inhabited

/-- The wording of a syntax error. -/
def SyntaxError.message : SyntaxError → String
  | .unclosedContainer opener position =>
      s!"container '{opener}' opened at position {position} is never closed"
  | .unexpectedCloser closer position =>
      s!"unexpected closing character '{closer}' at position {position}"
  | .trailingEscape position => s!"path ends with an unfinished escape at position {position}"
  | .emptySegment position => s!"empty path segment at position {position}"
  | .danglingModifier position =>
      s!"modifier or wildcard without a property name at position {position}"
  | .multipleWildcards word =>
      s!"'{word}' contains more than one wildcard, which is not supported"
  | .unexpectedCharacter character position =>
      s!"unexpected character '{character}' at position {position} after a closed container"

/-- What a resolution looked for in vain. -/
inductive Missing where
  /-- A member or element that its context does not have. -/
  | member (name : String)
  /-- A place in the document that is no longer there. -/
  | place (path : List String)
  /-- A context further up than the trail of contexts reaches. -/
  | ancestor (levels depth : Nat)
  /-- The value of a call that gave none. -/
  | result
  deriving Repr, DecidableEq, Inhabited

/-- How an error message names what is missing. -/
def Missing.description : Missing → String
  | .member name => name
  | .place path => String.intercalate "." path
  | .ancestor levels depth => s!"parent {levels} levels up from a stack of depth {depth}"
  | .result => "call returned no value"

/-- Why a value cannot be assigned where a path expression points. -/
inductive Unassignable where
  /-- The path expression is empty: it names the document itself, which has no owner. -/
  | noTarget
  /-- An array takes a value only at one of its indices or right after the last. -/
  | element (key : String) (length : Nat)
  /-- Only objects and arrays have members. -/
  | member (key : String) (kind : Kind)
  /-- A word that names an argument. -/
  | argument (name : String)
  /-- A call. -/
  | call
  /-- A value that was computed and has no place in the document. -/
  | detached (key : String) (kind : Kind)
  /-- A list of results. -/
  | results (key : String) (count : Nat)
  deriving Repr, DecidableEq, Inhabited

/-- The wording of a refused assignment. -/
def Unassignable.description : Unassignable → String
  | .noTarget => "an empty path has no assignment target"
  | .element key length => s!"cannot assign '{key}' on an array of length {length}"
  | .member key kind => s!"cannot assign '{key}' on a {kind.name}"
  | .argument name => s!"'{name}' names an argument and cannot be assigned"
  | .call => "a call result cannot be assigned"
  | .detached key kind => s!"cannot assign '{key}' on a {kind.name} outside the document"
  | .results key count => s!"cannot assign '{key}' on a result list of {count} values"

/-- A value of the wrong kind for what the path expression does with it. -/
inductive Mismatch where
  /-- A placeholder whose text is no argument number. -/
  | placeholder (text : String)
  /-- An argument that has no text to name a property by. -/
  | argumentName (text : String) (kind : Kind)
  /-- A computed property name that has no text. -/
  | computedName (kind : Kind)
  /-- A wildcard over something without members. -/
  | wildcard (kind : Kind)
  /-- A broadcast over something that is no array. -/
  | each (kind : Kind)
  /-- A call of something that is no function. -/
  | callee (kind : Kind)
  deriving Repr, DecidableEq, Inhabited

/-- The wording of a kind mismatch. -/
def Mismatch.description : Mismatch → String
  | .placeholder text => s!"placeholder '{text}' is not a positional index"
  | .argumentName text kind => s!"argument {text} is a {kind.name} and cannot name a property"
  | .computedName kind => s!"a {kind.name} cannot be used as a property name"
  | .wildcard kind => s!"wildcard needs an object or array, found a {kind.name}"
  | .each kind => s!"each needs an array, found a {kind.name}"
  | .callee kind => s!"cannot call a {kind.name}"

/-- Why a path expression cannot be read or written in a document. -/
inductive PathError where
  | invalid (error : SyntaxError)
  | notFound (what : Missing)
  | assignment (fault : Unassignable)
  | missingArgument (index supplied : Nat)
  | mismatch (fault : Mismatch)
  deriving Repr, DecidableEq, Inhabited

/-- The wording of a path error; a syntax error keeps its own. -/
def PathError.message : PathError → String
  | .invalid error => error.message
  | .notFound what => s!"path not found: no value at '{what.description}'"
  | .assignment fault => s!"assignment failed: {fault.description}"
  | .missingArgument index supplied =>
      s!"missing argument: index {index} requested but {supplied} supplied"
  | .mismatch fault => s!"type mismatch: {fault.description}"

/-- What is made of a result is made of what it holds. -/
theorem exists_of_map_eq_ok {ε α β : Type} {f : α → β} {result : Except ε α} {b : β}
    (h : result.map f = .ok b) : ∃ a, result = .ok a ∧ f a = b := by
  cases result with
  | error failed => cases h
  | ok a => exact ⟨a, rfl, Except.ok.inj h⟩

/-- What is made of a result fails only as the result does. -/
theorem eq_error_of_map {ε α β : Type} {f : α → β} {result : Except ε α} {fault : ε}
    (h : result.map f = .error fault) : result = .error fault := by
  cases result with
  | error failed =>
      cases h
      rfl
  | ok a => cases h

end PathExpr
