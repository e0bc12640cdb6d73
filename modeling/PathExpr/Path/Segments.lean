import PathExpr.Error

/-!
# Splitting a run of names

A path expression without special characters but one separator is a run of names.  It is cut at
every separator, and no piece may be empty — except that the empty expression has no names at all.
-/

namespace PathExpr.Segments

/-- The pieces between separators: always one more than there are separators. -/
def pieces (separator : Char) : List Char → List (List Char)
  | [] => [[]]
  | c :: rest =>
      if c = separator then [] :: pieces separator rest
      else match pieces separator rest with
        | [] => [[c]]
        | first :: others => (c :: first) :: others

@[simp] theorem pieces_nil (separator : Char) : pieces separator [] = [[]] := rfl

theorem pieces_ne_nil (separator : Char) (s : List Char) : pieces separator s ≠ [] := by
  induction s with
  | nil => simp
  | cons c rest ih =>
      rw [pieces]
      split
      · simp
      · split <;> simp

/-- The names that pieces are, from a position on; an empty piece is an error at its position. -/
def names (position : Nat) : List (List Char) → Except SyntaxError (List String)
  | [] => .ok []
  | piece :: rest =>
      if piece.isEmpty then .error (.emptySegment position)
      else (names (position + piece.length + 1) rest).map (String.ofList piece :: ·)

/-- **Split a run of names** that starts at a position of the whole expression. -/
def split (separator : Char) (position : Nat) (path : List Char) :
    Except SyntaxError (List String) :=
  if path.isEmpty then .ok [] else names position (pieces separator path)

end PathExpr.Segments
