import PathExpr.Error
import PathExpr.Token.Role

/-!
# The text between an opener and its closer

What a container encloses is found before it is understood: the closer is the first one at which
closers outnumber the openers of the same container, where an escaped character counts as neither.
In quotes, openers do not count.  The text in between is taken twice: raw, with its escapes, to be
read as a path expression of its own, and literal (`unescape`), as the name that a quote encloses.

* `Enclosed.length` — how far it is to the closer.
* `Enclosed.contents` — what is enclosed, and what follows behind the closer.
-/

namespace PathExpr.Enclosed

/-- Drop each escape and keep the character behind it. -/
def unescape : List Char → List Char
  | [] => []
  | c :: rest =>
      if c = escapeMark then
        match rest with
        | [] => []
        | escaped :: rest => escaped :: unescape rest
      else c :: unescape rest

@[simp] theorem unescape_nil : unescape [] = [] := rfl

theorem unescape_escape (c : Char) (rest : List Char) :
    unescape (escapeMark :: c :: rest) = c :: unescape rest := by
  rw [unescape, if_pos rfl]

theorem unescape_cons_of_ne {c : Char} (h : c ≠ escapeMark) (rest : List Char) :
    unescape (c :: rest) = c :: unescape rest := by
  rw [unescape.eq_def]
  simp only [if_neg h]

/-- **The number of characters before the closer** that ends a container; `depth` openers inside it
are still to be closed.  An expression that ends first is an error: of its escape, if it ends in one
with nothing behind it, and else of the container, which `unclosed` names. -/
def length (opener closer : Char) (nests : Bool) (unclosed : SyntaxError) (depth position : Nat) :
    List Char → Except SyntaxError Nat
  | [] => .error unclosed
  | c :: rest =>
      if c = escapeMark then
        match rest with
        | [] => .error (.trailingEscape position)
        | _ :: rest =>
            (length opener closer nests unclosed depth (position + 2) rest).map (· + 2)
      else if c = closer then
        match depth with
        | 0 => .ok 0
        | depth + 1 =>
            (length opener closer nests unclosed depth (position + 1) rest).map (· + 1)
      else if nests && c = opener then
        (length opener closer nests unclosed (depth + 1) (position + 1) rest).map (· + 1)
      else (length opener closer nests unclosed depth (position + 1) rest).map (· + 1)

/-! ### What is enclosed -/

/-- **What a container encloses**, raw and as a literal, and what follows behind its closer. -/
structure Contents where
  raw : List Char
  literal : List Char
  /-- The text behind the closer. -/
  rest : List Char
  /-- The position of that text. -/
  next : Nat
  deriving Repr, DecidableEq

/-- **Take a container apart** whose opener stands at a position, in front of a text. -/
def contents (opener closer : Char) (role : ContainerRole) (position : Nat) (text : List Char) :
    Except SyntaxError Contents :=
  (length opener closer (!role.isQuote) (.unclosedContainer opener position) 0 (position + 1)
    text).map fun count =>
      ⟨text.take count, unescape (text.take count), text.drop (count + 1), position + count + 2⟩

section Contents

variable {opener closer : Char} {role : ContainerRole} {position : Nat} {text : List Char}
  {found : Contents}

/-- What is enclosed is no longer than what was to be read. -/
theorem length_raw_le (h : contents opener closer role position text = .ok found) :
    found.raw.length ≤ text.length := by
  obtain ⟨count, -, rfl⟩ := exists_of_map_eq_ok h
  exact List.length_take_le' count text

/-- What follows is no longer, either. -/
theorem length_rest_le (h : contents opener closer role position text = .ok found) :
    found.rest.length ≤ text.length := by
  obtain ⟨count, -, rfl⟩ := exists_of_map_eq_ok h
  rw [List.length_drop]
  exact Nat.sub_le ..

/-- Where the search ends behind a text, this text is enclosed. -/
theorem contents_of_length {raw rest : List Char}
    (h : length opener closer (!role.isQuote) (.unclosedContainer opener position) 0 (position + 1)
      (raw ++ closer :: rest) = .ok raw.length) :
    contents opener closer role position (raw ++ closer :: rest) =
      .ok ⟨raw, unescape raw, rest, position + raw.length + 2⟩ := by
  have hdrop : (raw ++ closer :: rest).drop (raw.length + 1) = rest := by
    rw [← List.drop_drop, List.drop_left]
    rfl
  rw [contents, h]
  simp only [Except.map, List.take_left, hdrop]

end Contents

end PathExpr.Enclosed
