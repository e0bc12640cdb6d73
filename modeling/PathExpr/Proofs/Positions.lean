import PathExpr.Proofs.Scanning

/-!
# Where a path expression goes wrong

A fault names a character and where it stands, or a place where something is missing.  Three facts make
these positions right at every depth, although what a container encloses is cut out and compiled by
itself.

* The text of a container is cut out as it stands, escapes included, so it has as many characters as it
  had in the whole expression (`Enclosed.exists_of_length`).  A fault in it lies in the whole expression at
  the same position (`SyntaxError.LiesIn.prepend`, `SyntaxError.LiesIn.append`).
* No closer is found in the middle of an escape.  So the text of a container does not end in an escape
  with nothing behind it (`Enclosed.dangles`), and a fault of this kind is one of the whole expression.
* A draft finds fault with the character or the place that it is given (`Draft.letter_eq_error`,
  `Draft.FaultAt`), and the scanner gives it the one that it is at.

`Path.syntax_error_points_into_path` puts them together.
-/

namespace PathExpr

/-! ### Escapes with nothing behind them -/

namespace Enclosed

/-- **Does a text end in an escape** that has nothing to escape? -/
def dangles : List Char → Bool
  | [] => false
  | c :: rest =>
      if c = escapeMark then
        match rest with
        | [] => true
        | _ :: rest => dangles rest
      else dangles rest

theorem dangles_escape (c : Char) (rest : List Char) :
    dangles (escapeMark :: c :: rest) = dangles rest := by
  rw [dangles, if_pos rfl]

theorem dangles_cons_of_ne {c : Char} (h : c ≠ escapeMark) (rest : List Char) :
    dangles (c :: rest) = dangles rest := by
  rw [dangles.eq_def]
  simp only [if_neg h]

/-- A character that is no escape does not end a text in one. -/
theorem dangles_singleton {c : Char} (h : c ≠ escapeMark) : dangles [c] = false :=
  dangles_cons_of_ne h []

/-- Behind a text that does not end in an escape, another one begins anew. -/
theorem dangles_append {before : List Char} (h : dangles before = false) (after : List Char) :
    dangles (before ++ after) = dangles after := by
  induction before using dangles.induct with
  | case1 => rfl
  | case2 => cases h
  | case3 c rest ih =>
      rw [dangles_escape] at h
      rw [List.cons_append, List.cons_append, dangles_escape, ih h]
  | case4 c rest hne ih =>
      rw [dangles_cons_of_ne hne] at h
      rw [List.cons_append, dangles_cons_of_ne hne, ih h]

/-- What ends in an escape has it as its last character. -/
theorem exists_of_dangles {text : List Char} (h : dangles text = true) :
    ∃ before, text = before ++ [escapeMark] := by
  induction text using dangles.induct with
  | case1 => cases h
  | case2 => exact ⟨[], rfl⟩
  | case3 c rest ih =>
      rw [dangles_escape] at h
      obtain ⟨before, rfl⟩ := ih h
      exact ⟨escapeMark :: c :: before, rfl⟩
  | case4 c rest hne ih =>
      rw [dangles_cons_of_ne hne] at h
      obtain ⟨before, rfl⟩ := ih h
      exact ⟨c :: before, rfl⟩

/-- **A closer stands behind some characters** that do not end in an escape. -/
def ClosesBehind (closer : Char) (text : List Char) (count : Nat) : Prop :=
  ∃ inside after, text = inside ++ closer :: after ∧ inside.length = count ∧ dangles inside = false

/-- A closer behind a text is one behind what is in front of the text, too. -/
theorem ClosesBehind.prepend {closer : Char} {before text : List Char} {count : Nat}
    (hbefore : dangles before = false) (h : ClosesBehind closer text count) :
    ClosesBehind closer (before ++ text) (count + before.length) := by
  obtain ⟨inside, after, rfl, rfl, hinside⟩ := h
  refine ⟨before ++ inside, after, (List.append_assoc _ _ _).symm, ?_, ?_⟩
  · rw [List.length_append, Nat.add_comm]
  · rw [dangles_append hbefore, hinside]

/-- **The fault of a text that ends before a container is closed**: of its last escape if there is nothing
behind that one, and else of the container. -/
def unfinished (unclosed : SyntaxError) (position : Nat) (text : List Char) : SyntaxError :=
  if dangles text then .trailingEscape (position + text.length - 1) else unclosed

/-- What stands in front of the text does not change its fault. -/
theorem unfinished_append {before : List Char} (h : dangles before = false) (unclosed : SyntaxError)
    (position : Nat) (text : List Char) :
    unfinished unclosed position (before ++ text) =
      unfinished unclosed (position + before.length) text := by
  rw [unfinished, unfinished, dangles_append h, List.length_append, Nat.add_assoc]

section Length

variable {opener closer : Char} {nests : Bool} {unclosed fault : SyntaxError}
variable {depth position count : Nat} {text : List Char}

/-- **The closer that is found** stands behind as many characters as are counted. -/
theorem closesBehind_of_length
    (h : length opener closer nests unclosed depth position text = .ok count) :
    ClosesBehind closer text count := by
  fun_induction length opener closer nests unclosed depth position text generalizing count with
  | case1 | case2 => cases h
  | case3 depth position c rest ih =>
      obtain ⟨less, hless, rfl⟩ := exists_of_map_eq_ok h
      exact (ih hless).prepend (dangles_escape c [])
  | case4 position rest hescape =>
      cases h
      exact ⟨[], rest, rfl, rfl, rfl⟩
  | case5 position rest depth hescape ih =>
      obtain ⟨less, hless, rfl⟩ := exists_of_map_eq_ok h
      exact (ih hless).prepend (dangles_singleton hescape)
  | case6 depth position c rest hescape hcloser hopens ih
  | case7 depth position c rest hescape hcloser hopens ih =>
      obtain ⟨less, hless, rfl⟩ := exists_of_map_eq_ok h
      exact (ih hless).prepend (dangles_singleton hescape)

/-- **A container that is not closed** fails at the end of the text or as a whole. -/
theorem eq_unfinished_of_length
    (h : length opener closer nests unclosed depth position text = .error fault) :
    fault = unfinished unclosed position text := by
  fun_induction length opener closer nests unclosed depth position text with
  | case1 | case2 =>
      cases h
      rfl
  | case3 depth position c rest ih =>
      rw [ih (eq_error_of_map h)]
      exact (unfinished_append (dangles_escape c []) unclosed position rest).symm
  | case4 position rest hescape => cases h
  | case5 position rest depth hescape ih =>
      rw [ih (eq_error_of_map h)]
      exact (unfinished_append (dangles_singleton hescape) unclosed position rest).symm
  | case6 depth position c rest hescape hcloser hopens ih
  | case7 depth position c rest hescape hcloser hopens ih =>
      rw [ih (eq_error_of_map h)]
      exact (unfinished_append (dangles_singleton hescape) unclosed position rest).symm

end Length

section Contents

variable {opener closer : Char} {role : ContainerRole} {position : Nat} {text : List Char}

/-- **What a container encloses** stands in front of a closer, and has no escape at its end that would take
the closer for itself. -/
theorem eq_append_of_contents {found : Contents}
    (h : contents opener closer role position text = .ok found) :
    text = found.raw ++ closer :: found.rest ∧ found.next = position + found.raw.length + 2 ∧
      dangles found.raw = false := by
  obtain ⟨count, hlength, -⟩ := exists_of_map_eq_ok h
  obtain ⟨inside, after, rfl, rfl, hinside⟩ := closesBehind_of_length hlength
  rw [contents_of_length hlength] at h
  cases h
  exact ⟨rfl, rfl, hinside⟩

/-- A container that cannot be taken apart is not closed. -/
theorem eq_unfinished_of_contents {fault : SyntaxError}
    (h : contents opener closer role position text = .error fault) :
    fault = unfinished (.unclosedContainer opener position) (position + 1) text :=
  eq_unfinished_of_length (eq_error_of_map h)

end Contents

end Enclosed

/-! ### Faults in a text -/

open Enclosed (dangles dangles_append)

namespace SyntaxError

/-- **A fault lies in a text** that begins at a position: the character that it names stands where it says,
an escape with nothing behind it ends the text, and what is missing is missing in the text or at its
end. -/
def LiesIn (text : List Char) (position : Nat) : SyntaxError → Prop
  | .unclosedContainer c place | .unexpectedCloser c place | .unexpectedCharacter c place =>
      ∃ index, place = position + index ∧ text[index]? = some c
  | .trailingEscape place => dangles text = true ∧ place + 1 = position + text.length
  | .emptySegment place | .danglingModifier place =>
      position ≤ place ∧ place ≤ position + text.length
  | .multipleWildcards _ => True

variable {fault : SyntaxError} {position : Nat} {text : List Char}

/-- A fault in the rest of a text lies in the text. -/
theorem LiesIn.prepend {before : List Char} (hbefore : dangles before = false)
    (h : fault.LiesIn text (position + before.length)) : fault.LiesIn (before ++ text) position := by
  cases fault with
  | unclosedContainer c place | unexpectedCloser c place | unexpectedCharacter c place =>
      obtain ⟨index, rfl, hindex⟩ := h
      refine ⟨before.length + index, Nat.add_assoc _ _ _, ?_⟩
      rw [List.getElem?_append_right (Nat.le_add_right _ _), Nat.add_sub_cancel_left, hindex]
  | trailingEscape place =>
      obtain ⟨hdangles, hplace⟩ := h
      refine ⟨by rw [dangles_append hbefore, hdangles], ?_⟩
      rw [hplace, List.length_append, Nat.add_assoc]
  | emptySegment place | danglingModifier place =>
      obtain ⟨hfrom, hto⟩ := h
      simp only [LiesIn, List.length_append]
      omega
  | multipleWildcards word => trivial

/-- A fault in a text that does not end in an escape lies in every longer one. -/
theorem LiesIn.append (hwhole : dangles text = false) (h : fault.LiesIn text position)
    (after : List Char) : fault.LiesIn (text ++ after) position := by
  cases fault with
  | unclosedContainer c place | unexpectedCloser c place | unexpectedCharacter c place =>
      obtain ⟨index, rfl, hindex⟩ := h
      refine ⟨index, rfl, ?_⟩
      rw [List.getElem?_append_left (List.getElem?_eq_some_iff.mp hindex).1, hindex]
  | trailingEscape place =>
      have hdangles : dangles text = true := h.1
      rw [hwhole] at hdangles
      cases hdangles
  | emptySegment place | danglingModifier place =>
      obtain ⟨hfrom, hto⟩ := h
      simp only [LiesIn, List.length_append]
      omega
  | multipleWildcards word => trivial

/-- A container that is not closed is found at fault behind its opener. -/
theorem liesIn_unfinished {c : Char} (h : c ≠ escapeMark) (rest : List Char) :
    (Enclosed.unfinished (.unclosedContainer c position) (position + 1) rest).LiesIn (c :: rest)
      position := by
  unfold Enclosed.unfinished
  split
  · next hdangles =>
      refine ⟨by rw [Enclosed.dangles_cons_of_ne h, hdangles], ?_⟩
      rw [List.length_cons]
      omega
  · exact ⟨0, rfl, rfl⟩

/-- **A fault points into a text** that is a whole path expression. -/
def PointsInto (text : List Char) : SyntaxError → Prop
  | .unclosedContainer c place | .unexpectedCloser c place | .unexpectedCharacter c place =>
      place < text.length ∧ text[place]? = some c
  | .trailingEscape place => place + 1 = text.length ∧ text[place]? = some escapeMark
  | .emptySegment place | .danglingModifier place => place ≤ text.length
  | .multipleWildcards _ => True

/-- What lies in a whole expression points into it. -/
theorem LiesIn.pointsInto (h : fault.LiesIn text 0) : fault.PointsInto text := by
  cases fault with
  | unclosedContainer c place | unexpectedCloser c place | unexpectedCharacter c place =>
      obtain ⟨index, rfl, hindex⟩ := h
      rw [PointsInto, Nat.zero_add]
      exact ⟨(List.getElem?_eq_some_iff.mp hindex).1, hindex⟩
  | trailingEscape place =>
      obtain ⟨hdangles, hplace⟩ := h
      obtain ⟨before, rfl⟩ := Enclosed.exists_of_dangles hdangles
      have hbefore : place = before.length := by simpa using hplace
      subst hbefore
      exact ⟨by simp, by simp⟩
  | emptySegment place | danglingModifier place => simpa [PointsInto] using h.2
  | multipleWildcards word => trivial

end SyntaxError

/-! ### Faults of a draft -/

namespace Draft

/-- **A fault for which a draft has only the place**: something is missing there, or a word has too many
wildcards. -/
inductive FaultAt (place : Nat) : SyntaxError → Prop where
  | emptySegment : FaultAt place (.emptySegment place)
  | danglingModifier : FaultAt place (.danglingModifier place)
  | multipleWildcards (word : String) : FaultAt place (.multipleWildcards word)

/-- Such a fault lies in every text that reaches to the place. -/
theorem FaultAt.liesIn {place position : Nat} {fault : SyntaxError} {text : List Char}
    (h : FaultAt place fault) (hfrom : position ≤ place) (hto : place ≤ position + text.length) :
    fault.LiesIn text position := by
  cases h with
  | emptySegment => exact ⟨hfrom, hto⟩
  | danglingModifier => exact ⟨hfrom, hto⟩
  | multipleWildcards word => trivial

variable {draft : Draft} {position : Nat} {fault : SyntaxError}

theorem letter_eq_error {c : Char} (h : draft.letter c position = .error fault) :
    fault = .unexpectedCharacter c position := by
  unfold letter at h
  split at h <;> cases h
  rfl

theorem star_eq_error (h : draft.star position = .error fault) :
    fault = .unexpectedCharacter wildcardMark position := by
  unfold star at h
  split at h <;> cases h
  rfl

theorem modifier_eq_error {role : ModifierRole} {c : Char}
    (h : draft.modifier role c position = .error fault) : fault = .unexpectedCharacter c position := by
  unfold modifier at h
  split at h
  · cases h
  · exact letter_eq_error h

theorem take_eq_error (h : draft.take position = .error fault) : FaultAt position fault := by
  unfold take at h
  split at h
  · cases h
  · next modifiers text stars hword =>
      unfold wordToken at h
      split at h <;> cases h
      exact .multipleWildcards _
  · split at h
    · cases h
    · cases h
      exact .danglingModifier

theorem separateItems_eq_error (h : draft.separateItems position = .error fault) :
    FaultAt position fault := by
  unfold separateItems at h
  dsimp only at h
  split at h
  · next htake =>
      cases h
      exact take_eq_error htake
  · cases h
  · cases h
    exact .emptySegment

theorem separateSegments_eq_error {each : Bool}
    (h : draft.separateSegments each position = .error fault) : FaultAt position fault := by
  unfold separateSegments at h
  split at h
  · next htake =>
      cases h
      exact take_eq_error htake
  · cases h
  · split at h <;> cases h
    exact .emptySegment

theorem separate_eq_error {role : SeparatorRole} (h : draft.separate role position = .error fault) :
    FaultAt position fault := by
  cases role with
  | collection => exact separateItems_eq_error h
  | property => exact separateSegments_eq_error h
  | each => exact separateSegments_eq_error h

theorem flush_eq_error (h : draft.flush position = .error fault) : FaultAt position fault := by
  unfold flush at h
  split at h
  · cases h
  · split at h
    · next htake =>
        cases h
        exact take_eq_error htake
    · cases h
    · cases h

theorem finish_eq_error (h : draft.finish position = .error fault) : FaultAt position fault := by
  unfold finish at h
  split at h
  · next htake =>
      cases h
      exact take_eq_error htake
  · cases h
  · split at h <;> cases h
    exact .emptySegment

/-- A container has a fault at its opener, or right behind it where nothing is enclosed. -/
theorem containerToken_eq_error {role : ContainerRole} {inner : TokenSet} {modifiers : Modifiers}
    {each : Bool} (h : containerToken role inner modifiers each position = .error fault) :
    FaultAt position fault ∨ FaultAt (position + 1) fault := by
  cases role with
  | property =>
      simp only [containerToken, spliceProperty] at h
      split at h
      · cases h
        exact .inr .emptySegment
      · cases h
      · cases h
      all_goals
        split at h <;> cases h
        exact .inl .danglingModifier
  | evalProperty =>
      simp only [containerToken] at h
      split at h
      · cases h
        exact .inr .emptySegment
      · split at h <;> cases h
        exact .inl .danglingModifier
  | _ =>
      simp only [containerToken] at h
      split at h <;> cases h
      exact .inl .danglingModifier

end Draft

/-! ### Faults of a path expression -/

namespace Path

/-- Where a step and the rest of a scan fail, the step fails, or the rest does from where the step
leads. -/
theorem eq_error_or_exists_of_bind {α β : Type} {step : Except SyntaxError α}
    {rest : α → Except SyntaxError β} {fault : SyntaxError} (h : step.bind rest = .error fault) :
    step = .error fault ∨ ∃ next, step = .ok next ∧ rest next = .error fault := by
  cases step with
  | error other => exact .inl (by cases h; rfl)
  | ok next => exact .inr ⟨next, rfl, h⟩

variable {dialect : Dialect} {position : Nat} {text : List Char} {fault : SyntaxError}

/-- A closed container fails in what it encloses, or at its opener, or right behind it. -/
theorem liesIn_of_made {role : ContainerRole} {inside after : List Char} {c closer : Char}
    {name : String} {modifiers : Modifiers} {each : Bool} (hopener : c ≠ escapeMark)
    (hinside : dangles inside = false)
    (hinner : ∀ {fault}, tokenizeAt dialect (position + 1) inside = .error fault →
      fault.LiesIn inside (position + 1))
    (h : (if role.isQuote then .ok (.named name modifiers each)
      else (tokenizeAt dialect (position + 1) inside).bind fun inner =>
        Draft.containerToken role inner modifiers each position) = .error fault) :
    fault.LiesIn (c :: (inside ++ closer :: after)) position := by
  cases hquote : role.isQuote with
  | true =>
      rw [hquote, if_pos rfl] at h
      cases h
  | false =>
      rw [hquote, if_neg Bool.false_ne_true] at h
      rcases eq_error_or_exists_of_bind h with hfault | ⟨inner, -, hmade⟩
      · have hwhole := (hinner hfault).append hinside (closer :: after)
        exact hwhole.prepend (Enclosed.dangles_singleton hopener)
      · have hlength : 1 ≤ (c :: (inside ++ closer :: after)).length := Nat.succ_pos _
        rcases Draft.containerToken_eq_error hmade with hopens | hbehind
        · exact hopens.liesIn (Nat.le_refl _) (Nat.le_add_right _ _)
        · exact hbehind.liesIn (Nat.le_add_right _ _) (Nat.add_le_add_left hlength _)

/-- **The scanner fails in the text that it reads**, whatever draft it begins with. -/
theorem liesIn_of_scan (hconsistent : dialect.Consistent) (hsimple : dialect.simple = false)
    {draft : Draft} (h : scan dialect position text draft = .error fault) :
    fault.LiesIn text position := by
  -- The cases are those of the scanner; what a container encloses is scanned by itself.
  induction position, text, draft using scan.induct dialect generalizing fault with
  | case1 position draft =>
      rw [scan_nil] at h
      exact (Draft.finish_eq_error h).liesIn (Nat.le_refl _) (Nat.le_refl _)
  | case2 position draft =>
      rw [scan_trailingEscape] at h
      cases h
      exact ⟨rfl, rfl⟩
  | case3 position draft c rest ih =>
      rw [scan_escape] at h
      rcases eq_error_or_exists_of_bind h with hletter | ⟨next, -, hrest⟩
      · rw [Draft.letter_eq_error hletter]
        exact ⟨1, rfl, rfl⟩
      · exact (ih next hrest).prepend (Enclosed.dangles_escape c [])
  | case4 position draft rest hescape ih =>
      rw [scan_star] at h
      rcases eq_error_or_exists_of_bind h with hstar | ⟨next, -, hrest⟩
      · rw [Draft.star_eq_error hstar]
        exact ⟨0, rfl, rfl⟩
      · exact (ih next hrest).prepend (Enclosed.dangles_singleton hescape)
  | case5 position draft c rest hescape hwildcard hrole ih =>
      rw [scan_letter hescape hwildcard hrole] at h
      rcases eq_error_or_exists_of_bind h with hletter | ⟨next, -, hrest⟩
      · rw [Draft.letter_eq_error hletter]
        exact ⟨0, rfl, rfl⟩
      · exact (ih next hrest).prepend (Enclosed.dangles_singleton hescape)
  | case6 position draft c rest hescape hwildcard role hrole ih =>
      rw [scan_modifier hescape hwildcard hrole] at h
      rcases eq_error_or_exists_of_bind h with hmodifier | ⟨next, -, hrest⟩
      · rw [Draft.modifier_eq_error hmodifier]
        exact ⟨0, rfl, rfl⟩
      · exact (ih next hrest).prepend (Enclosed.dangles_singleton hescape)
  | case7 position draft c rest hescape hwildcard role hrole ih =>
      rw [scan_separator hescape hwildcard hrole] at h
      rcases eq_error_or_exists_of_bind h with hseparate | ⟨next, -, hrest⟩
      · exact (Draft.separate_eq_error hseparate).liesIn (Nat.le_refl _) (Nat.le_add_right _ _)
      · exact (ih next hrest).prepend (Enclosed.dangles_singleton hescape)
  | case8 position draft c rest hescape hwildcard role hrole =>
      rw [scan_closer hescape hwildcard hrole] at h
      cases h
      exact ⟨0, rfl, rfl⟩
  | case9 position draft c rest hescape hwildcard role closer hrole failed hcontents =>
      rw [scan_opener hescape hwildcard hrole, hcontents] at h
      cases h
      rw [Enclosed.eq_unfinished_of_contents hcontents]
      exact SyntaxError.liesIn_unfinished hescape rest
  | case10 position draft c rest hescape hwildcard role closer hrole found hcontents ihinner ihrest =>
      rw [scan_opener hescape hwildcard hrole, hcontents] at h
      change (draft.flush position).bind _ = _ at h
      obtain ⟨rfl, hnext, hinside⟩ := Enclosed.eq_append_of_contents hcontents
      rcases eq_error_or_exists_of_bind h with hflush | ⟨flushed, -, hflushed⟩
      · exact (Draft.flush_eq_error hflush).liesIn (Nat.le_refl _) (Nat.le_add_right _ _)
      · rcases eq_error_or_exists_of_bind hflushed with hmade | ⟨token, -, hrest⟩
        · refine liesIn_of_made hescape hinside (fun hinner => ?_) hmade
          rw [tokenizeAt_eq_scan hconsistent hsimple] at hinner
          exact ihinner hinner
        · have hcloser := hconsistent.closer_ne_escapeMark hrole
          have hbefore : dangles (c :: (found.raw ++ [closer])) = false := by
            rw [Enclosed.dangles_cons_of_ne hescape, dangles_append hinside,
              Enclosed.dangles_singleton hcloser]
          have hlength : (c :: (found.raw ++ [closer])).length = found.raw.length + 2 := by simp
          have hfault := ihrest flushed token hrest
          rw [hnext, Nat.add_assoc, ← hlength] at hfault
          simpa using hfault.prepend hbefore

/-- **Syntax errors point into the path expression**, at whatever depth the fault lies: to the opener of
the container that is not closed, to the closer or the character that is out of place, to the escape that
ends the expression, or to a place where something is missing. -/
theorem syntax_error_points_into_path {tables : Tables} (hdialect : Dialect.ofTables tables = .ok dialect)
    {path : String} (h : tokenize dialect path = .error fault) : fault.PointsInto path.toList := by
  obtain ⟨hconsistent, -, hsimple⟩ := Dialect.of_ofTables hdialect
  rw [tokenize, tokenizeAt_eq_scan hconsistent hsimple] at h
  exact (liesIn_of_scan hconsistent hsimple h).pointsInto

/-- A character behind a quote, which is in a container in a container with an escape in front. -/
theorem syntax_error_points_into_path_nested :
    let path := "(\\.['b'c])"
    Dialect.ofTables Dialect.standardTables = .ok Dialect.standard ∧
      tokenize Dialect.standard path = .error (.unexpectedCharacter 'c' 7) ∧
      7 < path.toList.length ∧ path.toList[7]? = some 'c' := by
  intro path
  have hscan : ∀ position text, tokenizeAt Dialect.standard position text =
      scan Dialect.standard position text .empty :=
    tokenizeAt_eq_scan Dialect.consistent_standard rfl
  have hquote : scan Dialect.standard 4 ['\x27', 'b', '\x27', 'c'] .empty =
      .error (.unexpectedCharacter 'c' 7) := by
    rw [scan_opener (by decide) (by decide) rfl]
    exact scan_letter (by decide) (by decide) rfl 7 [] _
  have hbracket : scan Dialect.standard 1
      [escapeMark, '.', '[', '\x27', 'b', '\x27', 'c', ']'] .empty =
      .error (.unexpectedCharacter 'c' 7) := by
    rw [scan_escape]
    refine (scan_opener (by decide) (by decide) rfl 3 _ _).trans ?_
    show ((tokenizeAt Dialect.standard 4 ['\x27', 'b', '\x27', 'c']).bind _).bind _ = _
    rw [hscan, hquote]
    rfl
  have hfault : tokenize Dialect.standard path = .error (.unexpectedCharacter 'c' 7) := by
    have htext : path.toList =
        ['(', escapeMark, '.', '[', '\x27', 'b', '\x27', 'c', ']', ')'] := by decide
    rw [tokenize, hscan, htext]
    refine (scan_opener (by decide) (by decide) rfl 0 _ _).trans ?_
    show ((tokenizeAt Dialect.standard 1
      [escapeMark, '.', '[', '\x27', 'b', '\x27', 'c', ']']).bind _).bind _ = _
    rw [hscan, hbracket]
    rfl
  exact ⟨Dialect.ofTables_standardTables, hfault,
    syntax_error_points_into_path Dialect.ofTables_standardTables hfault⟩

end Path

end PathExpr
