import PathExpr.Token.Role

/-!
# Compiled path expressions

A path expression compiles to a sequence of tokens, each of which takes one context to one result.
Collections and containers hold tokens themselves, so tokens are a tree.

A token set carries a flag that promises that all its tokens are plain names.  The flag is a promise
of whoever made the set and not a function of its tokens: a set made by hand may break it, and no
result may depend on it.  `TokenSet.WellFormed` states what the compiler promises of its sets,
this flag included.
-/

namespace PathExpr

/-- The modifiers in front of a name. They add up, so their order does not matter. -/
structure Modifiers where
  parent : Nat := 0
  root : Bool := false
  placeholder : Bool := false
  context : Bool := false
  deriving Repr, DecidableEq, Inhabited

namespace Modifiers

/-- No modifier at all. -/
def none : Modifiers := {}

/-- One modifier more. -/
def add (m : Modifiers) : ModifierRole → Modifiers
  | .parent => { m with parent := m.parent + 1 }
  | .root => { m with root := true }
  | .placeholder => { m with placeholder := true }
  | .context => { m with context := true }

/-- The modifiers of both. -/
def merge (m other : Modifiers) : Modifiers where
  parent := m.parent + other.parent
  root := m.root || other.root
  placeholder := m.placeholder || other.placeholder
  context := m.context || other.context

@[simp] theorem merge_none (m : Modifiers) : m.merge none = m := by simp [merge, none]

@[simp] theorem none_merge (m : Modifiers) : none.merge m = m := by simp [merge, none]

/-- Modifiers merge to none only if there are none. -/
theorem eq_none_of_merge {m other : Modifiers} (h : m.merge other = none) : m = none := by
  obtain ⟨parent, root, placeholder, context⟩ := m
  rw [merge, none, mk.injEq] at h
  obtain ⟨hparent, hroot, hplaceholder, hcontext⟩ := h
  rw [none, mk.injEq]
  exact ⟨Nat.eq_zero_of_add_eq_zero_right hparent, (Bool.or_eq_false_iff.mp hroot).1,
    (Bool.or_eq_false_iff.mp hplaceholder).1, (Bool.or_eq_false_iff.mp hcontext).1⟩

/-- Adding one modifier commutes with adding another. -/
theorem add_right_comm (m : Modifiers) (a b : ModifierRole) : (m.add a).add b = (m.add b).add a := by
  cases a <;> cases b <;> rfl

end Modifiers

/-- A name with modifiers, a wildcard or a broadcast. -/
structure Word where
  name : String
  modifiers : Modifiers := {}
  /-- Where in the name its wildcard stands, in bytes. -/
  wildcard : Option Nat := Option.none
  /-- Is the word applied to every element of its context? -/
  each : Bool := false
  deriving Repr, DecidableEq, Inhabited

/-- A sequence of tokens with the promise, if `simple` is set, that all of them are plain names. -/
structure Sequence (α : Type) where
  tokens : List α
  simple : Bool
  deriving Repr, DecidableEq, Inhabited

/-- One step of a path expression. -/
inductive Token where
  /-- A name and nothing else. -/
  | plain (name : String)
  | word (word : Word)
  /-- Several items applied to the same context. -/
  | collection (items : List Token) (each : Bool)
  /-- An enclosed path expression. -/
  | container (role : ContainerRole) (inner : Sequence Token) (each : Bool)
  deriving Repr, Inhabited

/-- A compiled path expression. -/
abbrev TokenSet := Sequence Token

namespace Token

/-- Is the token a plain name? -/
def isPlain : Token → Bool
  | .plain _ => true
  | _ => false

/-- The name of a plain token. -/
def plainName? : Token → Option String
  | .plain name => some name
  | _ => none

/-- A literal name with the modifiers and the broadcast in front of it: plain if there are none. -/
def named (name : String) (modifiers : Modifiers) (each : Bool) : Token :=
  if modifiers = .none ∧ each = false then .plain name else .word ⟨name, modifiers, none, each⟩

end Token

namespace TokenSet

/-- The set of some tokens, with the flag that is true of them. -/
def ofTokens (tokens : List Token) : TokenSet := ⟨tokens, tokens.all Token.isPlain⟩

/-- The set of some plain names. -/
def ofNames (names : List String) : TokenSet := ofTokens (names.map .plain)

/-- The names of a set in which every token is plain. -/
def names? (set : TokenSet) : Option (List String) := set.tokens.mapM Token.plainName?

@[simp] theorem ofTokens_tokens (tokens : List Token) : (ofTokens tokens).tokens = tokens := rfl

/-- A set of plain names keeps its promise. -/
theorem ofNames_simple (names : List String) : (ofNames names).simple = true := by
  simp [ofNames, ofTokens, Token.isPlain]

/-- The names of a set of plain names. -/
theorem names?_ofNames (names : List String) : (ofNames names).names? = some names := by
  simp only [names?, ofNames, ofTokens]
  induction names with
  | nil => rfl
  | cons name rest ih =>
      rw [List.map_cons, List.mapM_cons, ih]
      rfl

end TokenSet

/-! ### What the compiler promises of its token sets -/

/-- A wildcard stands at a character boundary of its name, and on the wildcard character. -/
def Word.WildcardInPlace (w : Word) : Prop :=
  ∀ offset ∈ w.wildcard, ∃ before after : List Char,
    w.name = String.ofList (before ++ wildcardMark :: after) ∧
      (String.ofList before).utf8ByteSize = offset

/-- A word has something that a plain name has not, and its wildcard is in place. -/
def Word.WellFormed (w : Word) : Prop :=
  (w.modifiers ≠ .none ∨ w.wildcard ≠ none ∨ w.each = true) ∧ w.WildcardInPlace

mutual

/-- **Well formed tokens**, at every depth: words say more than a plain name, collections have two
items at least, containers are those that are not resolved on the spot, and enclosed sets keep their
promise. -/
def Token.WellFormed : Token → Prop
  | .plain _ => True
  | .word w => w.WellFormed
  | .collection items _ => 2 ≤ items.length ∧ Token.AllWellFormed items
  | .container role inner _ =>
      (match role with
        | .property => 2 ≤ inner.tokens.length
        | .evalProperty => 1 ≤ inner.tokens.length
        | .call => True
        | .singleQuote | .doubleQuote => False) ∧
      inner.simple = inner.tokens.all Token.isPlain ∧ Token.AllWellFormed inner.tokens

/-- Every token is well formed. -/
def Token.AllWellFormed : List Token → Prop
  | [] => True
  | token :: rest => token.WellFormed ∧ Token.AllWellFormed rest

end

/-- **Well formed token sets**: the tokens are, and the promise is kept. -/
def TokenSet.WellFormed (set : TokenSet) : Prop :=
  set.simple = set.tokens.all Token.isPlain ∧ Token.AllWellFormed set.tokens

end PathExpr
