import PathExpr.Error
import PathExpr.Token.Basic

/-!
# Patterns with one wildcard

A glob is what stands before and behind a wildcard; it matches the names that begin with the one and
end with the other, without the two overlapping.  The wildcard of a word is the character whose place
the word notes, so any other one in its name is literal.  A pattern that comes from an argument notes
no place, and may hold one wildcard only.
-/

namespace PathExpr.Resolve

/-- A pattern: any text between two fixed ones. -/
structure Glob where
  before : List Char
  after : List Char
  deriving Repr, DecidableEq, Inhabited

namespace Glob

/-- Split a text at a number of bytes, if that is between two characters. -/
def splitAtByte : Nat → List Char → Option (List Char × List Char)
  | 0, text => some ([], text)
  | _ + 1, [] => none
  | offset + 1, c :: rest =>
      if c.utf8Size ≤ offset + 1 then
        (splitAtByte (offset + 1 - c.utf8Size) rest).map fun (before, after) => (c :: before, after)
      else none

/-- **The glob of a pattern** that notes no place of its wildcard. Without any, the pattern is what
names begin with. -/
def ofPattern (pattern : String) : Except PathError Glob :=
  match pattern.toList.span (· != wildcardMark) with
  | (before, []) => .ok ⟨before, []⟩
  | (before, _ :: after) =>
      if after.contains wildcardMark then .error (.invalid (.multipleWildcards pattern))
      else .ok ⟨before, after⟩

/-- **The glob of a pattern** whose wildcard is at a number of bytes; a place without one is no
place. -/
def ofPlace (pattern : String) (offset : Nat) : Except PathError Glob :=
  match splitAtByte offset pattern.toList with
  | some (before, c :: after) =>
      if c = wildcardMark then .ok ⟨before, after⟩ else ofPattern pattern
  | _ => ofPattern pattern

/-- A text is split behind what comes first in it. -/
theorem splitAtByte_append (before rest : List Char) :
    splitAtByte (String.ofList before).utf8ByteSize (before ++ rest) = some (before, rest) := by
  induction before with
  | nil => rw [String.ofList_nil, String.utf8ByteSize_empty, List.nil_append, splitAtByte]
  | cons c before ih =>
      have hsize : (String.ofList (c :: before)).utf8ByteSize =
          c.utf8Size + (String.ofList before).utf8ByteSize := by
        simp [String.ofList_cons, String.utf8ByteSize_append]
      have hpos : 0 < c.utf8Size := Char.utf8Size_pos c
      obtain ⟨offset, hoffset⟩ : ∃ offset, c.utf8Size + (String.ofList before).utf8ByteSize =
          offset + 1 := ⟨_, (Nat.succ_pred_eq_of_pos (by omega)).symm⟩
      have hrest : offset + 1 - c.utf8Size = (String.ofList before).utf8ByteSize := by omega
      rw [hsize, hoffset, List.cons_append, splitAtByte, if_pos (by omega), hrest, ih]
      rfl

/-- **The glob of a pattern whose wildcard is where it notes it.** -/
theorem ofPlace_append (before after : List Char) :
    ofPlace (String.ofList (before ++ wildcardMark :: after)) (String.ofList before).utf8ByteSize =
      .ok ⟨before, after⟩ := by
  rw [ofPlace, String.toList_ofList, splitAtByte_append]
  exact if_pos rfl

/-- **Does a name match?** -/
def matchesName (glob : Glob) (name : String) : Bool :=
  let text := name.toList
  decide (glob.before.length + glob.after.length ≤ text.length) &&
    glob.before.isPrefixOf text && glob.after.isSuffixOf text

/-- **A name matches** exactly if it is the two fixed texts with some text between them. -/
theorem matchesName_iff (glob : Glob) (name : String) :
    glob.matchesName name = true ↔
      ∃ middle, name.toList = glob.before ++ middle ++ glob.after := by
  simp only [matchesName, Bool.and_eq_true, decide_eq_true_eq, List.isPrefixOf_iff_prefix,
    List.isSuffixOf_iff_suffix]
  constructor
  · rintro ⟨⟨hlength, rest, hrest⟩, hafter⟩
    have hsuffix : glob.after <:+ rest := by
      refine List.suffix_of_suffix_length_le hafter ⟨glob.before, hrest⟩ ?_
      have := congrArg List.length hrest
      simp only [List.length_append] at this
      omega
    obtain ⟨middle, hmiddle⟩ := hsuffix
    exact ⟨middle, by rw [← hrest, ← hmiddle, List.append_assoc]⟩
  · rintro ⟨middle, hname⟩
    rw [hname]
    refine ⟨⟨?_, middle ++ glob.after, by rw [List.append_assoc]⟩, glob.before ++ middle, rfl⟩
    simp only [List.length_append]
    omega

/-- The glob of a word whose name is known: of an argument's text, every wildcard counts. -/
def ofWord? (w : Word) (name : String) : Except PathError (Option Glob) :=
  if w.modifiers.placeholder then
    if name.toList.contains wildcardMark then (ofPattern name).map some else .ok none
  else
    match w.wildcard with
    | some offset => (ofPlace name offset).map some
    | none => .ok none

end Glob

end PathExpr.Resolve
