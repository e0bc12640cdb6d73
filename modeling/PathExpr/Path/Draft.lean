import PathExpr.Error
import PathExpr.Token.Basic

/-!
# A path expression under construction

While a path expression is read, a `Draft` holds what is finished — tokens, and the items of a
collection that is still open — and what is not: the item at hand and a broadcast that waits for the
next item.  Characters, separators and closed containers each take a draft to the next one or to an
error; nothing here looks at the text itself.

The item at hand is blank, a word, or the token of a container that was closed.  A blank item with
modifiers is one that cannot stay blank (`SyntaxError.danglingModifier`).  Whether the draft stands
right behind a separator needs no flag: that is so when the item is blank without modifiers and
anything at all came before.
-/

namespace PathExpr

/-- The item at hand. -/
inductive Item where
  /-- Nothing yet but modifiers. -/
  | blank (modifiers : Modifiers)
  /-- A word so far; `stars` are the places of its wildcards, in bytes. -/
  | word (modifiers : Modifiers) (text : List Char) (stars : List Nat)
  /-- A container, closed and resolved to a token. -/
  | closed (token : Token)
  deriving Inhabited

/-- A path expression under construction. -/
structure Draft where
  /-- The finished tokens. -/
  tokens : List Token := []
  /-- The items of the open collection; none if no collection is open. -/
  items : List Token := []
  /-- Is the open collection applied to every element? -/
  itemsEach : Bool := false
  /-- The item at hand. -/
  item : Item := .blank .none
  /-- Is the item at hand applied to every element? -/
  each : Bool := false
  deriving Inhabited

namespace Draft

/-- The start. -/
def empty : Draft := {}

/-! ### Characters -/

/-- One more character of a name; after a closed container it has no place. -/
def letter (draft : Draft) (c : Char) (position : Nat) : Except SyntaxError Draft :=
  match draft.item with
  | .blank modifiers => .ok { draft with item := .word modifiers [c] [] }
  | .word modifiers text stars => .ok { draft with item := .word modifiers (text ++ [c]) stars }
  | .closed _ => .error (.unexpectedCharacter c position)

/-- A wildcard: a character of the name whose place is noted. -/
def star (draft : Draft) (position : Nat) : Except SyntaxError Draft :=
  match draft.item with
  | .blank modifiers => .ok { draft with item := .word modifiers [wildcardMark] [0] }
  | .word modifiers text stars =>
      .ok { draft with
        item := .word modifiers (text ++ [wildcardMark])
          (stars ++ [(String.ofList text).utf8ByteSize]) }
  | .closed _ => .error (.unexpectedCharacter wildcardMark position)

/-- A modifier character: a modifier in front of a name, and inside or behind one just a
character. -/
def modifier (draft : Draft) (role : ModifierRole) (c : Char) (position : Nat) :
    Except SyntaxError Draft :=
  match draft.item with
  | .blank modifiers => .ok { draft with item := .blank (modifiers.add role) }
  | _ => draft.letter c position

/-! ### Separators -/

/-- The token of a finished word: a plain name if there is nothing else to it. -/
def wordToken (modifiers : Modifiers) (text : List Char) (stars : List Nat) (each : Bool) :
    Except SyntaxError Token :=
  match stars with
  | [] => .ok (.named (String.ofList text) modifiers each)
  | [offset] => .ok (.word ⟨String.ofList text, modifiers, some offset, each⟩)
  | _ => .error (.multipleWildcards (String.ofList text))

/-- **Take the item at hand** out of a draft, with the broadcast that waited for it. -/
def take (draft : Draft) (position : Nat) : Except SyntaxError (Option Token × Draft) :=
  match draft.item with
  | .closed token => .ok (some token, { draft with item := .blank .none })
  | .word modifiers text stars =>
      (wordToken modifiers text stars draft.each).map fun token =>
        (some token, { draft with item := .blank .none, each := false })
  | .blank modifiers =>
      if modifiers = .none then .ok (none, draft) else .error (.danglingModifier position)

/-- Add a finished item: to the open collection, which it completes, or to the tokens. -/
def emit (draft : Draft) (token : Token) : Draft :=
  match draft.items with
  | [] => { draft with tokens := draft.tokens ++ [token] }
  | items =>
      { draft with
        tokens := draft.tokens ++ [.collection (items ++ [token]) draft.itemsEach]
        items := []
        itemsEach := false }

/-- A separator between the items of a collection. A broadcast that waits where the collection
begins is one of the whole collection. -/
def separateItems (draft : Draft) (position : Nat) : Except SyntaxError Draft :=
  let draft :=
    if draft.items.isEmpty then { draft with itemsEach := draft.each, each := false } else draft
  match draft.take position with
  | .error fault => .error fault
  | .ok (some token, draft) => .ok { draft with items := draft.items ++ [token] }
  | .ok (none, _) => .error (.emptySegment position)

/-- Is nothing there yet? -/
def isEmpty (draft : Draft) : Bool :=
  draft.tokens.isEmpty && draft.items.isEmpty && !draft.each

/-- A separator between segments. Only a broadcast may come first in an expression. -/
def separateSegments (draft : Draft) (each : Bool) (position : Nat) : Except SyntaxError Draft :=
  match draft.take position with
  | .error fault => .error fault
  | .ok (some token, draft) =>
      let draft := draft.emit token
      .ok { draft with each := draft.each || each }
  | .ok (none, draft) =>
      if each && draft.isEmpty then .ok { draft with each := true }
      else .error (.emptySegment position)

/-- **A separator.** -/
def separate (draft : Draft) (role : SeparatorRole) (position : Nat) : Except SyntaxError Draft :=
  match role with
  | .collection => draft.separateItems position
  | .property => draft.separateSegments false position
  | .each => draft.separateSegments true position

/-! ### Containers -/

/-- An opener ends the item at hand like a separator would, but leaves modifiers without a name
for the container. -/
def flush (draft : Draft) (position : Nat) : Except SyntaxError Draft :=
  match draft.item with
  | .blank _ => .ok draft
  | _ =>
      match draft.take position with
      | .error fault => .error fault
      | .ok (some token, draft) => .ok (draft.emit token)
      | .ok (none, draft) => .ok draft

/-- The modifiers that wait for a name. -/
def waiting (draft : Draft) : Modifiers :=
  match draft.item with
  | .blank modifiers => modifiers
  | _ => .none

/-- Put the token of a closed container at hand. -/
def hold (draft : Draft) (token : Token) : Draft :=
  { draft with item := .closed token, each := false }

/-- **The token of a property container.** One token is put in the place of its container and takes
over the modifiers and the broadcast in front of it, if it can carry them; more than one stay
together. -/
def spliceProperty (inner : List Token) (modifiers : Modifiers) (each : Bool) (position : Nat) :
    Except SyntaxError Token :=
  match inner with
  | [] => .error (.emptySegment (position + 1))
  | [.plain name] => .ok (.named name modifiers each)
  | [.word w] =>
      .ok (.word { w with modifiers := w.modifiers.merge modifiers, each := w.each || each })
  | [.collection items itemsEach] =>
      if modifiers = .none then .ok (.collection items (itemsEach || each))
      else .error (.danglingModifier position)
  | [.container role inner innerEach] =>
      if modifiers = .none then .ok (.container role inner (innerEach || each))
      else .error (.danglingModifier position)
  | tokens =>
      if modifiers = .none then .ok (.container .property (TokenSet.ofTokens tokens) each)
      else .error (.danglingModifier position)

/-- **The token of a closed container** that is no quote, from its compiled inside. -/
def containerToken (role : ContainerRole) (inner : TokenSet) (modifiers : Modifiers) (each : Bool)
    (position : Nat) : Except SyntaxError Token :=
  match role with
  | .property => spliceProperty inner.tokens modifiers each position
  | .evalProperty =>
      if inner.tokens.isEmpty then .error (.emptySegment (position + 1))
      else if modifiers = .none then .ok (.container role inner each)
      else .error (.danglingModifier position)
  | role =>
      if modifiers = .none then .ok (.container role inner each)
      else .error (.danglingModifier position)

/-! ### The end -/

/-- **The finished path expression.** -/
def finish (draft : Draft) (position : Nat) : Except SyntaxError TokenSet :=
  match draft.take position with
  | .error fault => .error fault
  | .ok (some token, draft) => .ok (TokenSet.ofTokens (draft.emit token).tokens)
  | .ok (none, draft) =>
      if draft.isEmpty then .ok (TokenSet.ofTokens []) else .error (.emptySegment position)

end Draft

end PathExpr
