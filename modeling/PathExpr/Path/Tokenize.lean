import PathExpr.Dialect.Basic
import PathExpr.Path.Draft
import PathExpr.Path.Enclosed
import PathExpr.Path.Segments

/-!
# Compiling a path expression

`Path.tokenize` takes the text of a path expression to its tokens.  It has two routes: a run of plain
names is split at its separators (`Path.shortcut?`), and everything else goes through `Path.scan`,
which reads one character or one container at a time and hands it to the draft.  What a container
encloses is compiled by the same two routes, at its own position, so every error carries a position
in the whole expression.

The scan ends because what a container encloses, and what follows a character or a container, are
both shorter than what was to be read.
-/

namespace PathExpr.Path

/-- **The short route**: split a run of plain names; `none` if the expression is more than that. -/
def shortcut? (dialect : Dialect) (position : Nat) (text : List Char) :
    Option (Except SyntaxError TokenSet) :=
  if dialect.isSimplePath text then
    some ((Segments.split dialect.property position text).map TokenSet.ofNames)
  else none

/-- **The long route**: read characters and containers into a draft. -/
def scan (dialect : Dialect) (position : Nat) (text : List Char) (draft : Draft) :
    Except SyntaxError TokenSet :=
  match text with
  | [] => draft.finish position
  | c :: rest =>
      if c = escapeMark then
        match rest with
        | [] => .error (.trailingEscape position)
        | escaped :: rest =>
            (draft.letter escaped (position + 1)).bind fun draft =>
              scan dialect (position + 2) rest draft
      else if c = wildcardMark then
        (draft.star position).bind fun draft => scan dialect (position + 1) rest draft
      else
        match dialect.roleOf? c with
        | none => (draft.letter c position).bind fun draft => scan dialect (position + 1) rest draft
        | some (.modifier role) =>
            (draft.modifier role c position).bind fun draft =>
              scan dialect (position + 1) rest draft
        | some (.separator role) =>
            (draft.separate role position).bind fun draft => scan dialect (position + 1) rest draft
        | some (.closer _) => .error (.unexpectedCloser c position)
        | some (.opener role closer) =>
            match hfound : Enclosed.contents c closer role position rest with
            | .error fault => .error fault
            | .ok found =>
                (draft.flush position).bind fun draft =>
                let token :=
                  if role.isQuote then
                    .ok (.named (String.ofList found.literal) draft.waiting draft.each)
                  else
                    (match shortcut? dialect (position + 1) found.raw with
                      | some set => set
                      | none => scan dialect (position + 1) found.raw .empty).bind fun inner =>
                    Draft.containerToken role inner draft.waiting draft.each position
                token.bind fun token => scan dialect found.next found.rest (draft.hold token)
termination_by text.length
decreasing_by
  any_goals (simp only [List.length_cons]; omega)
  · exact Nat.lt_succ_of_le (Enclosed.length_raw_le hfound)
  · exact Nat.lt_succ_of_le (Enclosed.length_rest_le hfound)

/-! ### One step of the long route -/

theorem scan_nil (dialect : Dialect) (position : Nat) (draft : Draft) :
    scan dialect position [] draft = draft.finish position := by
  rw [scan]

/-- An escape with nothing behind it. -/
theorem scan_trailingEscape (dialect : Dialect) (position : Nat) (draft : Draft) :
    scan dialect position [escapeMark] draft = .error (.trailingEscape position) := by
  rw [scan, if_pos rfl]

/-- An escaped character is a character of a name. -/
theorem scan_escape (dialect : Dialect) (position : Nat) (c : Char) (rest : List Char)
    (draft : Draft) :
    scan dialect position (escapeMark :: c :: rest) draft =
      (draft.letter c (position + 1)).bind fun draft => scan dialect (position + 2) rest draft := by
  rw [scan.eq_def]
  simp only [if_true]

/-- The wildcard. -/
theorem scan_star (dialect : Dialect) (position : Nat) (rest : List Char) (draft : Draft) :
    scan dialect position (wildcardMark :: rest) draft =
      (draft.star position).bind fun draft => scan dialect (position + 1) rest draft := by
  rw [scan.eq_def]
  simp only [if_neg (show wildcardMark ≠ escapeMark by decide), if_true]

/-- A character without a role is a character of a name. -/
theorem scan_letter {dialect : Dialect} {c : Char} (hescape : c ≠ escapeMark)
    (hwildcard : c ≠ wildcardMark) (hrole : dialect.roleOf? c = none) (position : Nat)
    (rest : List Char) (draft : Draft) :
    scan dialect position (c :: rest) draft =
      (draft.letter c position).bind fun draft => scan dialect (position + 1) rest draft := by
  rw [scan.eq_def]
  simp only [if_neg hescape, if_neg hwildcard, hrole]

/-- A modifier. -/
theorem scan_modifier {dialect : Dialect} {c : Char} {role : ModifierRole}
    (hescape : c ≠ escapeMark) (hwildcard : c ≠ wildcardMark)
    (hrole : dialect.roleOf? c = some (.modifier role)) (position : Nat) (rest : List Char)
    (draft : Draft) :
    scan dialect position (c :: rest) draft =
      (draft.modifier role c position).bind fun draft =>
        scan dialect (position + 1) rest draft := by
  rw [scan.eq_def]
  simp only [if_neg hescape, if_neg hwildcard, hrole]

/-- A separator. -/
theorem scan_separator {dialect : Dialect} {c : Char} {role : SeparatorRole}
    (hescape : c ≠ escapeMark) (hwildcard : c ≠ wildcardMark)
    (hrole : dialect.roleOf? c = some (.separator role)) (position : Nat) (rest : List Char)
    (draft : Draft) :
    scan dialect position (c :: rest) draft =
      (draft.separate role position).bind fun draft => scan dialect (position + 1) rest draft := by
  rw [scan.eq_def]
  simp only [if_neg hescape, if_neg hwildcard, hrole]

/-- A closer outside its container. -/
theorem scan_closer {dialect : Dialect} {c : Char} {role : ContainerRole}
    (hescape : c ≠ escapeMark) (hwildcard : c ≠ wildcardMark)
    (hrole : dialect.roleOf? c = some (.closer role)) (position : Nat) (rest : List Char)
    (draft : Draft) :
    scan dialect position (c :: rest) draft = .error (.unexpectedCloser c position) := by
  rw [scan.eq_def]
  simp only [if_neg hescape, if_neg hwildcard, hrole]

/-! ### Both routes -/

/-- Compile the part of a path expression that starts at a position. -/
def tokenizeAt (dialect : Dialect) (position : Nat) (text : List Char) :
    Except SyntaxError TokenSet :=
  match shortcut? dialect position text with
  | some set => set
  | none => scan dialect position text .empty

/-- **A container**: take it apart, end the item at hand, make a token of what it encloses, and go on
behind it. -/
theorem scan_opener {dialect : Dialect} {c closer : Char} {role : ContainerRole}
    (hescape : c ≠ escapeMark) (hwildcard : c ≠ wildcardMark)
    (hrole : dialect.roleOf? c = some (.opener role closer)) (position : Nat) (rest : List Char)
    (draft : Draft) :
    scan dialect position (c :: rest) draft =
      (Enclosed.contents c closer role position rest).bind fun found =>
      (draft.flush position).bind fun draft =>
      (if role.isQuote then
          .ok (.named (String.ofList found.literal) draft.waiting draft.each)
        else
          (tokenizeAt dialect (position + 1) found.raw).bind fun inner =>
            Draft.containerToken role inner draft.waiting draft.each position).bind fun token =>
      scan dialect found.next found.rest (draft.hold token) := by
  rw [scan.eq_def]
  simp only [if_neg hescape, if_neg hwildcard, hrole]
  cases Enclosed.contents c closer role position rest <;> rfl

/-- **Compile a path expression.** -/
def tokenize (dialect : Dialect) (path : String) : Except SyntaxError TokenSet :=
  tokenizeAt dialect 0 path.toList

end PathExpr.Path
