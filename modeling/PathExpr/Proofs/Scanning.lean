import PathExpr.Dialect.Quote
import PathExpr.Path.Tokenize
import PathExpr.Proofs.Roles

/-!
# What the scanner does with whole pieces of text

`Path.scan` is given by its single steps.  The lemmas here take several steps at once, over the pieces
that a path expression is made of: escaped text in a name, and a container with everything in it.

A container ends at the first closer that is not undone by an opener inside it.  A text over which the
search for the closer passes as over nothing is *neutral* (`Enclosed.Neutral`): what is escaped is, and
so is what a container of the same marks encloses together with these marks.

A run of plain names may be split or scanned, which gives the same tokens or the same error
(`Path.tokenizeAt_eq_scan`, `Path.shortcut_eq_scan`).  So everything else that is to be said of compiling a
text is said of the scanner alone.
-/

namespace PathExpr

open Dialect (escapeWhere escapeWhere_cons)

/-- A text without a character that needs an escape is left as it is. -/
theorem Dialect.escapeWhere_eq_self {needs : Char → Bool} {text : List Char}
    (h : ∀ c ∈ text, needs c = false) : escapeWhere needs text = text := by
  induction text with
  | nil => rfl
  | cons c rest ih =>
      have hc := h c List.mem_cons_self
      have hrest := ih fun d hd => h d (List.mem_cons_of_mem c hd)
      rw [escapeWhere_cons, hc, hrest]
      simp

/-- **The escaped forms of a name**: an escape in front of every special character, and in front of any
other one or not. -/
inductive Dialect.Escapes (dialect : Dialect) : List Char → List Char → Prop where
  | nil : Escapes dialect [] []
  | bare {c : Char} {name text : List Char} (hspecial : dialect.isSpecial c = false)
      (hrest : Escapes dialect name text) : Escapes dialect (c :: name) (c :: text)
  | escaped {c : Char} {name text : List Char} (hrest : Escapes dialect name text) :
      Escapes dialect (c :: name) (escapeMark :: c :: text)

/-- To escape what is special gives one of them. -/
theorem Dialect.escapes_escapeWhere (dialect : Dialect) (name : List Char) :
    dialect.Escapes name (escapeWhere dialect.isSpecial name) := by
  induction name with
  | nil => exact .nil
  | cons c rest ih =>
      rw [escapeWhere_cons]
      cases hspecial : dialect.isSpecial c with
      | true => exact .escaped ih
      | false => exact .bare hspecial ih

/-! ### Looking for a closer -/

namespace Enclosed

/-- What was escaped is unescaped again. -/
theorem unescape_escapeWhere {needs : Char → Bool} (hescape : needs escapeMark = true)
    (text : List Char) : unescape (escapeWhere needs text) = text := by
  induction text with
  | nil => rfl
  | cons c rest ih =>
      rw [escapeWhere_cons]
      split
      · rw [unescape_escape, ih]
      · next hneeds =>
          have hne : c ≠ escapeMark := by
            rintro rfl
            exact hneeds hescape
          rw [unescape_cons_of_ne hne, ih]

/-- **The search passes over a text** and comes out of it with another number of openers to be closed. -/
def Passes (opener closer : Char) (nests : Bool) (depth after : Nat) (text : List Char) : Prop :=
  ∀ unclosed position rest,
    length opener closer nests unclosed depth position (text ++ rest) =
      (length opener closer nests unclosed after (position + text.length) rest).map
        (· + text.length)

section Passes

variable {opener closer : Char} {nests : Bool}

theorem passes_nil (depth : Nat) : Passes opener closer nests depth depth [] := by
  intro unclosed position rest
  simp only [List.nil_append, List.length_nil, Nat.add_zero]
  cases length opener closer nests unclosed depth position rest <;> rfl

/-- Texts are passed over one after the other. -/
theorem Passes.append {before between after : Nat} {first second : List Char}
    (hfirst : Passes opener closer nests before between first)
    (hsecond : Passes opener closer nests between after second) :
    Passes opener closer nests before after (first ++ second) := by
  intro unclosed position rest
  rw [List.append_assoc, hfirst, hsecond, List.length_append, ← Nat.add_assoc]
  cases length opener closer nests unclosed after (position + first.length + second.length) rest with
  | error fault => rfl
  | ok count =>
      have hcount : count + second.length + first.length = count + (first.length + second.length) := by
        omega
      exact congrArg Except.ok hcount

/-- An opener is one more to be closed. -/
theorem passes_opener (hescape : opener ≠ escapeMark) (hne : opener ≠ closer) (depth : Nat) :
    Passes opener closer true depth (depth + 1) [opener] := by
  intro unclosed position rest
  rw [List.singleton_append, length.eq_def]
  simp [hescape, hne]

/-- A closer closes an opener. -/
theorem passes_closer (hescape : closer ≠ escapeMark) (depth : Nat) :
    Passes opener closer nests (depth + 1) depth [closer] := by
  intro unclosed position rest
  rw [List.singleton_append, length.eq_def]
  simp [hescape]

end Passes

/-- **A neutral text**: the search for a closer passes over it as over nothing. -/
def Neutral (opener closer : Char) (nests : Bool) (text : List Char) : Prop :=
  ∀ unclosed depth position rest,
    length opener closer nests unclosed depth position (text ++ rest) =
      (length opener closer nests unclosed depth (position + text.length) rest).map
        (· + text.length)

section Neutral

variable {opener closer : Char} {nests : Bool}

/-- A neutral text is passed over with all openers still to be closed. -/
theorem Neutral.passes {text : List Char} (h : Neutral opener closer nests text) (depth : Nat) :
    Passes opener closer nests depth depth text :=
  fun unclosed position rest => h unclosed depth position rest

theorem neutral_of_passes {text : List Char}
    (h : ∀ depth, Passes opener closer nests depth depth text) : Neutral opener closer nests text :=
  fun unclosed depth position rest => h depth unclosed position rest

theorem neutral_nil : Neutral opener closer nests [] := neutral_of_passes passes_nil

/-- Neutral texts one after the other are neutral. -/
theorem Neutral.append {first second : List Char} (hfirst : Neutral opener closer nests first)
    (hsecond : Neutral opener closer nests second) :
    Neutral opener closer nests (first ++ second) :=
  neutral_of_passes fun depth => (hfirst.passes depth).append (hsecond.passes depth)

/-- An escaped character is neutral. -/
theorem neutral_escaped (c : Char) : Neutral opener closer nests [escapeMark, c] := by
  intro unclosed depth position rest
  rw [List.cons_append, length.eq_def]
  simp only [if_true]
  rfl

/-- A character that is no mark of the container is neutral, and so is an opener that does not
count. -/
theorem neutral_singleton {c : Char} (hescape : c ≠ escapeMark) (hcloser : c ≠ closer)
    (hopener : nests = true → c ≠ opener) : Neutral opener closer nests [c] := by
  intro unclosed depth position rest
  have hnests : ¬(nests && c = opener) = true := by simpa using hopener
  rw [List.singleton_append, length.eq_def]
  simp only [if_neg hescape, if_neg hcloser, if_neg hnests]
  rfl

/-- **A text in which the marks of the container are escaped is neutral.** -/
theorem neutral_escapeWhere {needs : Char → Bool} (hescape : needs escapeMark = true)
    (hcloser : needs closer = true) (hopener : nests = true → needs opener = true)
    (text : List Char) : Neutral opener closer nests (escapeWhere needs text) := by
  induction text with
  | nil => exact neutral_nil
  | cons c rest ih =>
      rw [escapeWhere_cons]
      by_cases hneeds : needs c = true
      · rw [if_pos hneeds]
        exact (neutral_escaped c).append ih
      · rw [if_neg hneeds]
        refine (neutral_singleton ?_ ?_ ?_).append ih
        · rintro rfl
          exact hneeds hescape
        · rintro rfl
          exact hneeds hcloser
        · rintro hnests rfl
          exact hneeds (hopener hnests)

/-- **A closed container is neutral** for containers of the same marks. -/
theorem Neutral.enclosed {text : List Char} (h : Neutral opener closer true text)
    (hopener : opener ≠ escapeMark) (hcloser : closer ≠ escapeMark) (hne : opener ≠ closer) :
    Neutral opener closer true (opener :: (text ++ [closer])) :=
  neutral_of_passes fun depth => (passes_opener hopener hne depth).append
    ((h.passes (depth + 1)).append (passes_closer hcloser depth))

/-- The search ends at the closer behind a neutral text. -/
theorem Neutral.length_eq {text : List Char} (h : Neutral opener closer nests text)
    (hcloser : closer ≠ escapeMark) (unclosed : SyntaxError) (position : Nat) (rest : List Char) :
    length opener closer nests unclosed 0 position (text ++ closer :: rest) = .ok text.length := by
  rw [h, length.eq_def]
  simp only [if_neg hcloser, if_true]
  exact congrArg Except.ok (Nat.zero_add _)

end Neutral

end Enclosed

/-! ### Where a run of names begins -/

/-- The fault of a run of names, moved by the position at which the run begins.  No other fault is one of a
run. -/
def SyntaxError.moved (origin : Nat) : SyntaxError → SyntaxError
  | .emptySegment position => .emptySegment (origin + position)
  | fault => fault

namespace Segments

theorem names_eq_mapError (origin position : Nat) (pieces : List (List Char)) :
    names (origin + position) pieces = (names position pieces).mapError (.moved origin) := by
  induction pieces generalizing position with
  | nil => rfl
  | cons piece rest ih =>
      rw [names, names]
      split
      · rfl
      · rw [Nat.add_assoc origin, Nat.add_assoc origin, ih]
        cases names (position + piece.length + 1) rest <;> rfl

/-- **A run of names is split alike wherever it begins.** -/
theorem split_eq_mapError (separator : Char) (origin : Nat) (path : List Char) :
    split separator origin path = (split separator 0 path).mapError (.moved origin) := by
  unfold split
  split
  · rfl
  · exact names_eq_mapError origin 0 _

end Segments

namespace Path

variable {dialect : Dialect}

/-! ### Containers -/

/-- **A container as a whole**: the item at hand ends, and the token of what is enclosed comes to
hand. -/
theorem scan_container (hconsistent : dialect.Consistent) {opener closer : Char}
    {role : ContainerRole} (hrole : dialect.roleOf? opener = some (.opener role closer))
    {text : List Char} (hneutral : Enclosed.Neutral opener closer (!role.isQuote) text)
    (position : Nat) (rest : List Char) (draft : Draft) :
    scan dialect position (opener :: (text ++ closer :: rest)) draft =
      (draft.flush position).bind fun draft =>
        (if role.isQuote then
            .ok (.named (String.ofList (Enclosed.unescape text)) draft.waiting draft.each)
          else
            (tokenizeAt dialect (position + 1) text).bind fun inner =>
              Draft.containerToken role inner draft.waiting draft.each position).bind fun token =>
        scan dialect (position + text.length + 2) rest (draft.hold token) := by
  obtain ⟨hwildcard, hescape⟩ := hconsistent.ne_reserved hrole
  have hcloser : closer ≠ escapeMark := hconsistent.closer_ne_escapeMark hrole
  rw [scan_opener hescape hwildcard hrole,
    Enclosed.contents_of_length (hneutral.length_eq hcloser _ _ _)]
  rfl

/-- **A quoted name** comes to hand with the modifiers and the broadcast in front of it. -/
theorem scan_quoted (hconsistent : dialect.Consistent) {opener closer : Char}
    {role : ContainerRole} (hrole : dialect.roleOf? opener = some (.opener role closer))
    (hquote : role.isQuote = true) {needs : Char → Bool} (hescape : needs escapeMark = true)
    (hcloser : needs closer = true) (name : List Char) {modifiers : Modifiers} {draft : Draft}
    (hblank : draft.item = .blank modifiers) (position : Nat) (rest : List Char) :
    scan dialect position (opener :: (escapeWhere needs name ++ closer :: rest)) draft =
      scan dialect (position + (escapeWhere needs name).length + 2) rest
        (draft.hold (.named (String.ofList name) modifiers draft.each)) := by
  have hneutral : Enclosed.Neutral opener closer (!role.isQuote) (escapeWhere needs name) :=
    Enclosed.neutral_escapeWhere hescape hcloser (by simp [hquote]) name
  have hflush : draft.flush position = .ok draft := by rw [Draft.flush, hblank]
  have hwaiting : draft.waiting = modifiers := by rw [Draft.waiting, hblank]
  rw [scan_container hconsistent hrole hneutral, hflush, Enclosed.unescape_escapeWhere hescape]
  simp only [Except.bind, hquote, if_true, hwaiting]

/-! ### Names -/

/-- **Escaped text behind a word** belongs to the word. -/
theorem scan_escaped (hsimple : dialect.simple = false) {name text : List Char}
    (h : dialect.Escapes name text) {draft : Draft} {modifiers : Modifiers} {word : List Char}
    {stars : List Nat} (hitem : draft.item = .word modifiers word stars) (position : Nat)
    (rest : List Char) :
    scan dialect position (text ++ rest) draft =
      scan dialect (position + text.length) rest
        { draft with item := .word modifiers (word ++ name) stars } := by
  -- Whether it is escaped or not, a character goes to the word at hand.
  have hletter : ∀ {draft : Draft} {word : List Char}, draft.item = .word modifiers word stars →
      ∀ c position, draft.letter c position =
        .ok { draft with item := .word modifiers (word ++ [c]) stars } := by
    intro draft word hitem c position
    rw [Draft.letter, hitem]
  induction h generalizing draft word position with
  | nil =>
      have hdraft : { draft with item := .word modifiers (word ++ []) stars } = draft := by
        rw [List.append_nil, ← hitem]
      rw [hdraft]
      rfl
  | @bare c name text hspecial _ ih =>
      obtain ⟨hwildcard, hescape, hrole⟩ := (Dialect.isSpecial_eq_false_iff hsimple).mp hspecial
      rw [List.cons_append, scan_letter hescape hwildcard hrole, hletter hitem]
      refine (ih rfl (position + 1)).trans ?_
      rw [List.length_cons, Nat.add_comm text.length, ← Nat.add_assoc, List.append_assoc,
        List.singleton_append]
  | @escaped c name text _ ih =>
      rw [List.cons_append, List.cons_append, scan_escape, hletter hitem]
      refine (ih rfl (position + 2)).trans ?_
      rw [List.length_cons, List.length_cons, Nat.add_assoc text.length, Nat.add_comm text.length,
        ← Nat.add_assoc, List.append_assoc, List.singleton_append]

/-- **Escaped text where a name may begin** is a word. -/
theorem scan_escaped_of_blank (hsimple : dialect.simple = false) {name text : List Char}
    (h : dialect.Escapes name text) (hname : name ≠ []) {draft : Draft} {modifiers : Modifiers}
    (hitem : draft.item = .blank modifiers) (position : Nat) (rest : List Char) :
    scan dialect position (text ++ rest) draft =
      scan dialect (position + text.length) rest
        { draft with item := .word modifiers name [] } := by
  -- A blank item takes a character as an empty word would.
  have hletter : ∀ c position, draft.letter c position =
      Draft.letter { draft with item := .word modifiers [] [] } c position := by
    intro c position
    rw [Draft.letter, Draft.letter, hitem]
    rfl
  have hfirst : scan dialect position (text ++ rest) draft =
      scan dialect position (text ++ rest) { draft with item := .word modifiers [] [] } := by
    cases h with
    | nil => exact absurd rfl hname
    | bare hspecial _ =>
        obtain ⟨hwildcard, hescape, hrole⟩ := (Dialect.isSpecial_eq_false_iff hsimple).mp hspecial
        rw [List.cons_append, scan_letter hescape hwildcard hrole,
          scan_letter hescape hwildcard hrole, hletter]
    | escaped _ => rw [List.cons_append, List.cons_append, scan_escape, scan_escape, hletter]
  rw [hfirst, scan_escaped hsimple h rfl]
  rfl

/-- **A wildcard between escaped texts** where a name may begin is a word that notes the place of the
wildcard, in bytes. -/
theorem scan_starred (hsimple : dialect.simple = false) {before after left right : List Char}
    (hbefore : dialect.Escapes before left) (hafter : dialect.Escapes after right) {draft : Draft}
    {modifiers : Modifiers} (hitem : draft.item = .blank modifiers) (position : Nat)
    (rest : List Char) :
    scan dialect position ((left ++ wildcardMark :: right) ++ rest) draft =
      scan dialect (position + (left ++ wildcardMark :: right).length) rest
        { draft with
          item := .word modifiers (before ++ wildcardMark :: after)
            [(String.ofList before).utf8ByteSize] } := by
  -- With nothing in front of it, the wildcard is the first character of the word.
  have hstar : ∀ rest,
      scan dialect position (left ++ wildcardMark :: rest) draft =
        scan dialect (position + left.length + 1) rest
          { draft with
            item := .word modifiers (before ++ [wildcardMark])
              [(String.ofList before).utf8ByteSize] } := by
    intro rest
    by_cases hempty : before = []
    · subst hempty
      cases hbefore
      have hfirst : draft.star position =
          .ok { draft with item := .word modifiers [wildcardMark] [0] } := by
        rw [Draft.star, hitem]
      refine (scan_star dialect position rest draft).trans ?_
      rw [hfirst]
      rfl
    · rw [scan_escaped_of_blank hsimple hbefore hempty hitem, scan_star]
      rfl
  rw [List.append_assoc, List.cons_append, hstar, scan_escaped hsimple hafter rfl, List.append_assoc,
    List.singleton_append, List.length_append, List.length_cons, Nat.add_comm right.length]
  simp only [Nat.add_assoc]

/-! ### Runs of plain names -/

/-- The item at hand when some characters of a plain name are read. -/
def atHand (word : List Char) : Item :=
  if word = [] then .blank .none else .word .none word []

/-- One more character of a plain name. -/
theorem letter_atHand {draft : Draft} {word : List Char} (hitem : draft.item = atHand word) (c : Char)
    (position : Nat) : draft.letter c position = .ok { draft with item := atHand (word ++ [c]) } := by
  have hnext : atHand (word ++ [c]) = .word .none (word ++ [c]) [] := by simp [atHand]
  rw [hnext, Draft.letter, hitem]
  by_cases hword : word = []
  · simp [atHand, hword]
  · simp [atHand, hword]

/-- Nothing in front of the first piece leaves the pieces as they are. -/
theorem modifyHead_nil_append (pieces : List (List Char)) : pieces.modifyHead ([] ++ ·) = pieces :=
  List.modifyHead_id ▸ rfl

/-- The names of pieces, behind others that are known. -/
theorem map_names_cons (names : List String) (name : String)
    (others : Except SyntaxError (List String)) :
    (others.map (name :: ·)).map (fun others => TokenSet.ofNames (names ++ others)) =
      others.map fun others => TokenSet.ofNames (names ++ [name] ++ others) := by
  cases others with
  | error fault => rfl
  | ok others => simp [Except.map]

/-- **A run of plain names is scanned as it is split**: with some names behind it and the first
characters of the next one at hand, the scanner makes tokens of what the pieces of the text name, the
first of them behind these characters. -/
theorem scan_names (hconsistent : dialect.Consistent) (hsimple : dialect.simple = false)
    {text : List Char} (htext : ∀ c ∈ text, c ∉ dialect.complications) (word : List Char)
    (names : List String) (hstart : word ≠ [] ∨ names ≠ [] ∨ text ≠ []) (position : Nat) :
    scan dialect (position + word.length) text
        { tokens := names.map .plain, item := atHand word } =
      (Segments.names position
        ((Segments.pieces dialect.property text).modifyHead (word ++ ·))).map
          fun others => TokenSet.ofNames (names ++ others) := by
  induction text generalizing word names position with
  | nil =>
      rw [scan_nil, Draft.finish, Segments.pieces_nil]
      by_cases hword : word = []
      · have hnames : names ≠ [] := by simpa [hword] using hstart
        simp [hword, atHand, Draft.take, Draft.isEmpty, hnames, Segments.names, Except.map]
      · simp [hword, atHand, Draft.take, Draft.wordToken, Draft.emit, Token.named, Segments.names,
          Except.map, TokenSet.ofNames]
  | cons c rest ih =>
      have hrest : ∀ d ∈ rest, d ∉ dialect.complications :=
        fun d hd => htext d (List.mem_cons_of_mem c hd)
      by_cases hc : c = dialect.property
      · subst hc
        obtain ⟨hwildcard, hescape⟩ := hconsistent.ne_reserved hconsistent.roleOf?_property
        rw [scan_separator hescape hwildcard hconsistent.roleOf?_property, Segments.pieces,
          if_pos rfl, List.modifyHead_cons, List.append_nil, Segments.names]
        by_cases hword : word = []
        · simp [hword, atHand, Draft.separate, Draft.separateSegments, Draft.take, Except.bind,
            Except.map]
        · have hseparate : Draft.separate { tokens := names.map .plain, item := atHand word }
              .property (position + word.length) =
              .ok { tokens := (names ++ [String.ofList word]).map .plain, item := atHand [] } := by
            simp [hword, atHand, Draft.separate, Draft.separateSegments, Draft.take,
              Draft.wordToken, Draft.emit, Token.named, Except.map]
          have hnext := ih hrest [] (names ++ [String.ofList word]) (.inr (.inl (by simp)))
            (position + word.length + 1)
          rw [modifyHead_nil_append] at hnext
          rw [hseparate, if_neg (by simpa using hword), map_names_cons, ← hnext]
          rfl
      · have hspecial : dialect.isSpecial c = false := by
          cases hspecial : dialect.isSpecial c with
          | false => rfl
          | true =>
              have hmem := (hconsistent.mem_complications hsimple).mpr ⟨hspecial, hc⟩
              exact absurd hmem (htext c List.mem_cons_self)
        obtain ⟨hwildcard, hescape, hrole⟩ := (Dialect.isSpecial_eq_false_iff hsimple).mp hspecial
        have hnext := ih hrest (word ++ [c]) names (.inl (by simp)) position
        have hpieces : (Segments.pieces dialect.property (c :: rest)).modifyHead (word ++ ·) =
            (Segments.pieces dialect.property rest).modifyHead ((word ++ [c]) ++ ·) := by
          rw [Segments.pieces, if_neg hc]
          cases hpieces : Segments.pieces dialect.property rest with
          | nil => exact absurd hpieces (Segments.pieces_ne_nil dialect.property rest)
          | cons first others => simp
        rw [scan_letter hescape hwildcard hrole, letter_atHand rfl, hpieces, ← hnext,
          List.length_append, List.length_singleton, ← Nat.add_assoc]
        rfl

/-- **A run of plain names may be split or scanned.** -/
theorem tokenizeAt_eq_scan (hconsistent : dialect.Consistent) (hsimple : dialect.simple = false)
    (position : Nat) (text : List Char) :
    tokenizeAt dialect position text = scan dialect position text .empty := by
  unfold tokenizeAt shortcut?
  by_cases hpath : dialect.isSimplePath text = true
  · rw [if_pos hpath]
    have htext : ∀ c ∈ text, c ∉ dialect.complications := by
      simpa [Dialect.isSimplePath, hsimple] using hpath
    by_cases hempty : text = []
    · subst hempty
      rw [scan_nil]
      rfl
    · have hscan := scan_names hconsistent hsimple htext [] [] (.inr (.inr hempty)) position
      rw [modifyHead_nil_append] at hscan
      rw [Segments.split, if_neg (by simpa using hempty)]
      exact hscan.symm
  · rw [if_neg hpath]

/-- **The short route is the long route**: where a text may be split, to split it and to scan it give the
same tokens or the same error, wherever the text begins.  Both are what the text gives by itself, with the
position of the error moved to where the text begins. -/
theorem shortcut_eq_scan {tables : Tables} (hdialect : Dialect.ofTables tables = .ok dialect)
    {text : List Char} (hpath : dialect.isSimplePath text = true) (origin : Nat) :
    shortcut? dialect origin text = some (scan dialect origin text .empty) ∧
      scan dialect origin text .empty =
        ((Segments.split dialect.property 0 text).map TokenSet.ofNames).mapError (.moved origin) := by
  obtain ⟨hconsistent, -, hsimple⟩ := Dialect.of_ofTables hdialect
  have hshort : shortcut? dialect origin text =
      some ((Segments.split dialect.property origin text).map TokenSet.ofNames) := if_pos hpath
  have hscan : scan dialect origin text .empty =
      (Segments.split dialect.property origin text).map TokenSet.ofNames := by
    rw [← tokenizeAt_eq_scan hconsistent hsimple, tokenizeAt, hshort]
  refine ⟨by rw [hshort, hscan], ?_⟩
  rw [hscan, Segments.split_eq_mapError]
  cases Segments.split dialect.property 0 text <;> rfl

/-- Two separators side by side, where the text begins behind other characters. -/
theorem shortcut_eq_scan_doubled :
    let tables : Tables := ⟨[('!', .root)], [('/', .property), ('&', .each)], [('«', .doubleQuote, '»')]⟩
    let dialect : Dialect := ⟨tables, '/', false⟩
    let text := ['a', '.', '/', '/', 'b']
    Dialect.ofTables tables = .ok dialect ∧ dialect.isSimplePath text = true ∧
      shortcut? dialect 7 text = some (.error (.emptySegment 10)) ∧
      scan dialect 7 text .empty = .error (.emptySegment 10) := by
  intro tables dialect text
  have hdialect : Dialect.ofTables tables = .ok dialect := rfl
  have hpath : dialect.isSimplePath text = true := by decide
  obtain ⟨hshort, hscan⟩ := shortcut_eq_scan hdialect hpath 7
  have hfault : scan dialect 7 text .empty = .error (.emptySegment 10) := hscan
  exact ⟨hdialect, hpath, by rw [hshort, hfault], hfault⟩

end Path

end PathExpr
