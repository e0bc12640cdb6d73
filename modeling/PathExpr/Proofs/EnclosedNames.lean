import Mathlib.Data.List.Infix
import PathExpr.Proofs.Rendering
import PathExpr.Proofs.Spelling

/-!
# Quoted names in containers

Between the quotes of a quoted name, only the closing quote and the escape are escaped.  Where the quotes
stand by themselves, that is enough.  In another container it is not: the search for the closer of that
container comes first, and quotes mean nothing to it, so the marks of the container count in the name as
they do elsewhere.

How far that goes is a matter of counting.  The search passes over a text in which no front has more
closers than openers (`Enclosed.passes_escapeWhere`), and otherwise it ends at the first closer that is
one too many (`Enclosed.Overruns.exists_paired`).  So a quoted name is read back from a container if the
marks of the container pair up in the name, and only then; if not, either the quotes or the container are
left unclosed (`Path.tokenize_quote_enclosed`).
-/

namespace PathExpr

open Dialect (escapeWhere escapeWhere_cons escapeWhere_append standard)

/-! ### Marks in a text -/

namespace Enclosed

variable {opener closer : Char}

/-- **Closers overrun**: some front of the text has more closers than openers, by more than `depth`. -/
def Overruns (opener closer : Char) (depth : Nat) (text : List Char) : Prop :=
  ∃ front, front <+: text ∧ depth + front.count opener < front.count closer

instance (opener closer : Char) (depth : Nat) (text : List Char) :
    Decidable (Overruns opener closer depth text) :=
  decidable_of_iff (∃ front ∈ text.inits, depth + front.count opener < front.count closer)
    (by simp only [List.mem_inits, Overruns])

/-- **The marks of a container pair up**: no closer comes before its opener, and no opener is left. -/
structure Paired (opener closer : Char) (text : List Char) : Prop where
  opened : ¬ Overruns opener closer 0 text
  closed : text.count closer = text.count opener

theorem not_overruns_nil (depth : Nat) : ¬ Overruns opener closer depth [] := by
  rintro ⟨front, hfront, hcount⟩
  rw [List.prefix_nil.mp hfront] at hcount
  exact absurd hcount (Nat.not_lt_zero _)

/-- The front that overruns is not empty. -/
theorem overruns_cons {depth : Nat} {c : Char} {rest : List Char} :
    Overruns opener closer depth (c :: rest) ↔
      ∃ front, front <+: rest ∧ depth + (c :: front).count opener < (c :: front).count closer := by
  constructor
  · rintro ⟨front, hfront, hcount⟩
    rcases List.prefix_cons_iff.mp hfront with rfl | ⟨front, rfl, hrest⟩
    · exact absurd hcount (Nat.not_lt_zero _)
    · exact ⟨front, hrest, hcount⟩
  · rintro ⟨front, hrest, hcount⟩
    exact ⟨c :: front, List.prefix_cons_iff.mpr (.inr ⟨front, rfl, hrest⟩), hcount⟩

/-- Behind an opener, one closer more is needed. -/
theorem overruns_opener (hne : opener ≠ closer) {depth : Nat} {rest : List Char} :
    Overruns opener closer depth (opener :: rest) ↔ Overruns opener closer (depth + 1) rest := by
  rw [overruns_cons]
  refine exists_congr fun front => and_congr_right fun _ => ?_
  rw [List.count_cons_self, List.count_cons_of_ne hne]
  omega

/-- Behind a closer, one closer less is needed. -/
theorem overruns_closer (hne : opener ≠ closer) {depth : Nat} {rest : List Char} :
    Overruns opener closer (depth + 1) (closer :: rest) ↔ Overruns opener closer depth rest := by
  rw [overruns_cons]
  refine exists_congr fun front => and_congr_right fun _ => ?_
  rw [List.count_cons_self, List.count_cons_of_ne hne.symm]
  omega

/-- A closer without an opener is one too many. -/
theorem overruns_closer_zero (hne : opener ≠ closer) (rest : List Char) :
    Overruns opener closer 0 (closer :: rest) := by
  refine overruns_cons.mpr ⟨[], List.nil_prefix, ?_⟩
  rw [List.count_cons_self, List.count_cons_of_ne hne.symm]
  exact Nat.zero_lt_succ _

/-- Other characters do not count. -/
theorem overruns_other {c : Char} (hopener : c ≠ opener) (hcloser : c ≠ closer) {depth : Nat}
    {rest : List Char} :
    Overruns opener closer depth (c :: rest) ↔ Overruns opener closer depth rest := by
  rw [overruns_cons]
  refine exists_congr fun front => and_congr_right fun _ => ?_
  rw [List.count_cons_of_ne hopener, List.count_cons_of_ne hcloser]

/-- The marks pair up where there are none. -/
theorem paired_of_notMem {text : List Char} (hopener : opener ∉ text) (hcloser : closer ∉ text) :
    Paired opener closer text where
  opened := by
    rintro ⟨front, hfront, hcount⟩
    rw [List.count_eq_zero.mpr fun hmem => hcloser (hfront.subset hmem)] at hcount
    exact absurd hcount (Nat.not_lt_zero _)
  closed := by rw [List.count_eq_zero.mpr hopener, List.count_eq_zero.mpr hcloser]

/-- **Up to the first closer that is one too many**, the closers make up for all openers. -/
theorem Overruns.exists_front (hne : opener ≠ closer) {depth : Nat} {text : List Char}
    (h : Overruns opener closer depth text) :
    ∃ front back, text = front ++ closer :: back ∧ ¬ Overruns opener closer depth front ∧
      front.count closer = depth + front.count opener := by
  induction text generalizing depth with
  | nil => exact absurd h (not_overruns_nil depth)
  | cons c rest ih =>
      by_cases hcloser : c = closer
      · subst hcloser
        cases depth with
        | zero => exact ⟨[], rest, rfl, not_overruns_nil 0, rfl⟩
        | succ depth =>
            obtain ⟨front, back, rfl, hopened, hcount⟩ := ih ((overruns_closer hne).mp h)
            refine ⟨c :: front, back, rfl, fun hover => hopened ((overruns_closer hne).mp hover), ?_⟩
            rw [List.count_cons_self, List.count_cons_of_ne hne.symm]
            omega
      · by_cases hopener : c = opener
        · subst hopener
          obtain ⟨front, back, rfl, hopened, hcount⟩ := ih ((overruns_opener hne).mp h)
          refine ⟨c :: front, back, rfl, fun hover => hopened ((overruns_opener hne).mp hover), ?_⟩
          rw [List.count_cons_self, List.count_cons_of_ne hne]
          omega
        · obtain ⟨front, back, rfl, hopened, hcount⟩ := ih ((overruns_other hopener hcloser).mp h)
          refine ⟨c :: front, back, rfl,
            fun hover => hopened ((overruns_other hopener hcloser).mp hover), ?_⟩
          rw [List.count_cons_of_ne hopener, List.count_cons_of_ne hcloser]
          exact hcount

/-- **Before the first closer that is one too many**, the marks pair up. -/
theorem Overruns.exists_paired (hne : opener ≠ closer) {text : List Char}
    (h : Overruns opener closer 0 text) :
    ∃ front back, text = front ++ closer :: back ∧ Paired opener closer front := by
  obtain ⟨front, back, htext, hopened, hcount⟩ := h.exists_front hne
  exact ⟨front, back, htext, hopened, hcount.trans (Nat.zero_add _)⟩

/-! ### The search over an escaped text -/

/-- **Where its own marks are not escaped**, the search for a closer counts them. -/
theorem passes_escapeWhere {needs : Char → Bool} (hescape : needs escapeMark = true)
    (hopener : needs opener = false) (hcloser : needs closer = false) (hne : opener ≠ closer)
    {depth after : Nat} {text : List Char} (hopened : ¬ Overruns opener closer depth text)
    (hafter : after + text.count closer = depth + text.count opener) :
    Passes opener closer true depth after (escapeWhere needs text) := by
  have hbare : ∀ {c}, needs c = false → c ≠ escapeMark := by
    rintro c hneeds rfl
    exact Bool.false_ne_true (hneeds.symm.trans hescape)
  induction text generalizing depth with
  | nil =>
      obtain rfl : after = depth := hafter
      exact passes_nil after
  | cons c rest ih =>
      rw [escapeWhere_cons]
      by_cases hc : c = closer
      · subst hc
        rw [List.count_cons_self, List.count_cons_of_ne hne.symm] at hafter
        cases depth with
        | zero => exact absurd (overruns_closer_zero hne rest) hopened
        | succ depth =>
            rw [hcloser]
            exact (passes_closer (hbare hcloser) depth).append
              (ih (fun hover => hopened ((overruns_closer hne).mpr hover)) (by omega))
      · by_cases ho : c = opener
        · subst ho
          rw [List.count_cons_self, List.count_cons_of_ne hne] at hafter
          rw [hopener]
          exact (passes_opener (hbare hopener) hne depth).append
            (ih (fun hover => hopened ((overruns_opener hne).mpr hover)) (by omega))
        · rw [List.count_cons_of_ne ho, List.count_cons_of_ne hc] at hafter
          have hrest := ih (fun hover => hopened ((overruns_other ho hc).mpr hover)) hafter
          cases hneeds : needs c with
          | true => exact ((neutral_escaped c).passes depth).append hrest
          | false =>
              have hneutral : Neutral opener closer true [c] :=
                neutral_singleton (hbare hneeds) hc fun _ => ho
              exact (hneutral.passes depth).append hrest

/-- **A text in which the marks pair up is neutral.** -/
theorem Paired.neutral_escapeWhere {needs : Char → Bool} (hescape : needs escapeMark = true)
    (hopener : needs opener = false) (hcloser : needs closer = false) (hne : opener ≠ closer)
    {text : List Char} (h : Paired opener closer text) :
    Neutral opener closer true (escapeWhere needs text) := by
  refine neutral_of_passes fun depth => passes_escapeWhere hescape hopener hcloser hne ?_ ?_
  · rintro ⟨front, hfront, hcount⟩
    exact h.opened ⟨front, hfront, by omega⟩
  · rw [h.closed]

/-- Where nothing follows a text that is passed over, the container is not closed. -/
theorem Passes.length_unclosed {nests : Bool} {depth after : Nat} {text : List Char}
    (h : Passes opener closer nests depth after text) (unclosed : SyntaxError) (position : Nat) :
    length opener closer nests unclosed depth position text = .error unclosed := by
  have hlength := h unclosed position []
  rw [List.append_nil] at hlength
  rw [hlength, length]
  rfl

end Enclosed

/-! ### Quoted names in the default dialect -/

namespace Rendering

open Enclosed (Paired Neutral)

/-- What is escaped in a quoted name. -/
def escapesQuoted (c : Char) : Bool := c == '\x27' || c == escapeMark

/-- The name in a container: in the place of a property container, and else inside the container. -/
def enclosedName (role : ContainerRole) (name : String) : Token :=
  match role with
  | .property => .plain name
  | role => .container role (TokenSet.ofNames [name]) false

/-- **A name is quoted as it is or in quotes**; as it is, it has no mark of a container. -/
theorem quote_cases (name : List Char) :
    (standard.quote name = name ∧ Balanced name ∧
        ∀ role : ContainerRole, Paired (opener role) (closer role) name) ∨
      standard.quote name = enclose .singleQuote (escapeWhere escapesQuoted name) := by
  by_cases hplain : (!name.isEmpty && !name.any standard.isSpecial) = true
  · have hspecial : ∀ c ∈ name, standard.isSpecial c = false := by
      have hboth := hplain
      simp only [Bool.and_eq_true, Bool.not_eq_true', List.any_eq_false, Bool.not_eq_true] at hboth
      exact hboth.2
    have hmarks : ∀ {c}, standard.isSpecial c = true → c ∉ name := by
      intro c hc hmem
      exact Bool.false_ne_true ((hspecial c hmem).symm.trans hc)
    refine .inl ⟨?_, ?_, fun role => ?_⟩
    · rw [Dialect.quote, if_pos (by rw [hplain, Bool.or_true])]
    · rw [← Dialect.escapeWhere_eq_self hspecial]
      exact balanced_escapeWhere name
    · exact Enclosed.paired_of_notMem (hmarks (by cases role <;> rfl)) (hmarks (by cases role <;> rfl))
  · right
    rw [Dialect.quote, if_neg (by rwa [show standard.simple = false from rfl, Bool.false_or])]
    rfl

/-- The marks of containers are not escaped in quotes. -/
theorem marks_in_quotes {role : ContainerRole} (hquote : role.isQuote = false) :
    escapesQuoted (opener role) = false ∧ escapesQuoted (closer role) = false ∧
      opener role ≠ closer role := by
  cases role with
  | singleQuote => cases hquote
  | doubleQuote => cases hquote
  | _ => decide

/-- A quote is no mark of another container. -/
theorem neutral_quoteMark {role : ContainerRole} (hquote : role.isQuote = false) :
    Neutral (opener role) (closer role) true ['\x27'] := by
  have hbalanced : Balanced ['\x27'] := balanced_singleton (by decide)
  exact hbalanced role hquote

section Quoted

variable {role : ContainerRole} {name : List Char}

/-- A name in quotes is neutral up to the closing quote, if the marks of the container pair up in it. -/
theorem neutral_quotedFront (hquote : role.isQuote = false)
    (h : Paired (opener role) (closer role) name) :
    Neutral (opener role) (closer role) true ('\x27' :: escapeWhere escapesQuoted name) := by
  obtain ⟨hopener, hcloser, hne⟩ := marks_in_quotes hquote
  exact (neutral_quoteMark hquote).append (h.neutral_escapeWhere rfl hopener hcloser hne)

/-- **A quoted name is neutral** for a container if the marks of the container pair up in it. -/
theorem neutral_quote (hquote : role.isQuote = false) (h : Paired (opener role) (closer role) name) :
    Neutral (opener role) (closer role) true (standard.quote name) := by
  rcases quote_cases name with ⟨hself, hbalanced, -⟩ | hquotes
  · rw [hself]
    exact hbalanced role hquote
  · rw [hquotes]
    exact (neutral_quotedFront hquote h).append (neutral_quoteMark hquote)

/-- **A quoted name by itself** compiles to this name. -/
theorem tokenizeAt_quote (name : String) (position : Nat) :
    Path.tokenizeAt standard position (standard.quote name.toList) = .ok (TokenSet.ofNames [name]) := by
  have hspells : standard.Spells name (String.ofList (standard.quote name.toList)) := .quoted
  have hscan := Path.scan_spellings Dialect.consistent_standard rfl rfl hspells .nil [] position
  rw [Path.tokenizeAt_eq_scan Dialect.consistent_standard rfl]
  simpa [Draft.empty] using hscan

/-- **An opening quote without a closing one** is not compiled. -/
theorem tokenizeAt_quotedFront (name : List Char) (position : Nat) :
    Path.tokenizeAt standard position ('\x27' :: escapeWhere escapesQuoted name) =
      .error (.unclosedContainer '\x27' position) := by
  have hneutral : Neutral '\x27' '\x27' false (escapeWhere escapesQuoted name) :=
    Enclosed.neutral_escapeWhere rfl rfl (fun _ => rfl) name
  have hrole : standard.roleOf? '\x27' = some (.opener .singleQuote '\x27') := rfl
  rw [Path.tokenizeAt_eq_scan Dialect.consistent_standard rfl,
    Path.scan_opener (by decide) (by decide) hrole, Enclosed.contents,
    show (!ContainerRole.singleQuote.isQuote) = false from rfl, (hneutral.passes 0).length_unclosed]
  rfl

end Quoted

end Rendering

/-! ### A container behind a name -/

namespace Path

open Enclosed (Overruns Paired Passes)
open Rendering (opener closer enclose escapesQuoted enclosedName)

section Container

variable {role : ContainerRole} {name : String}

/-- An opener ends the name in front of it. -/
theorem flush_name (first : String) (position : Nat) :
    Draft.flush { item := .word .none first.toList [] } position = .ok { tokens := [.plain first] } := by
  simp [Draft.flush, Draft.take, Draft.wordToken, Draft.emit, Token.named, Except.map]

/-- **Where the marks pair up**, the container encloses the name. -/
theorem scan_quote_of_paired (hquote : role.isQuote = false)
    (h : Paired (opener role) (closer role) name.toList) (first : String) (position : Nat) :
    scan standard position (enclose role (standard.quote name.toList))
        { item := .word .none first.toList [] } =
      .ok (TokenSet.ofTokens [.plain first, enclosedName role name]) := by
  have hmade : ∀ position, Draft.containerToken role (TokenSet.ofNames [name])
      (Draft.waiting { tokens := [.plain first] }) false position = .ok (enclosedName role name) := by
    intro position
    cases role <;> rfl
  have hscan := Rendering.scan_enclose hquote (Rendering.neutral_quote hquote h)
    (Rendering.tokenizeAt_quote name) (flush_name first) hmade position []
  rw [List.append_nil, scan_nil, Rendering.finish_hold] at hscan
  exact hscan

/-- **Where closers overrun**, the container ends inside the quotes. -/
theorem scan_quote_of_overruns (hquote : role.isQuote = false)
    (h : Overruns (opener role) (closer role) 0 name.toList) (first : String) (position : Nat) :
    scan standard position (enclose role (standard.quote name.toList))
        { item := .word .none first.toList [] } =
      .error (.unclosedContainer '\x27' (position + 1)) := by
  obtain ⟨-, hcloser, hne⟩ := Rendering.marks_in_quotes hquote
  rcases Rendering.quote_cases name.toList with ⟨-, -, hpaired⟩ | hquotes
  · exact absurd h (hpaired role).opened
  · obtain ⟨front, back, hname, hpaired⟩ := h.exists_paired hne
    have hneutral : Enclosed.Neutral (opener role) (closer role) (!role.isQuote)
        ('\x27' :: escapeWhere escapesQuoted front) := by
      rw [hquote]
      exact Rendering.neutral_quotedFront hquote hpaired
    have htext : enclose role (standard.quote name.toList) =
        opener role :: (('\x27' :: escapeWhere escapesQuoted front) ++
          closer role :: (escapeWhere escapesQuoted back ++ ['\x27', closer role])) := by
      rw [hquotes, hname, escapeWhere_append, escapeWhere_cons, hcloser]
      simp [enclose, opener, closer]
    rw [htext, scan_container Dialect.consistent_standard (Rendering.roleOf?_opener role) hneutral, flush_name,
      hquote]
    simp only [Except.bind, Bool.false_eq_true, if_false, Rendering.tokenizeAt_quotedFront]

/-- **Where openers are left**, the closer of the container counts for one of them. -/
theorem scan_quote_of_left (hquote : role.isQuote = false)
    (hopened : ¬ Overruns (opener role) (closer role) 0 name.toList)
    (hleft : name.toList.count (closer role) < name.toList.count (opener role)) (first : String)
    (position : Nat) :
    scan standard position (enclose role (standard.quote name.toList))
        { item := .word .none first.toList [] } =
      .error (.unclosedContainer (opener role) position) := by
  obtain ⟨hopener, hcloser, hne⟩ := Rendering.marks_in_quotes hquote
  rcases Rendering.quote_cases name.toList with ⟨-, -, hpaired⟩ | hquotes
  · exact absurd (hpaired role).closed hleft.ne
  · obtain ⟨after, hafter⟩ : ∃ after,
        after + 1 + name.toList.count (closer role) = 0 + name.toList.count (opener role) :=
      ⟨name.toList.count (opener role) - name.toList.count (closer role) - 1, by omega⟩
    have hmark := Rendering.neutral_quoteMark hquote
    have hname : Passes (opener role) (closer role) true 0 (after + 1)
        (escapeWhere escapesQuoted name.toList) :=
      Enclosed.passes_escapeWhere rfl hopener hcloser hne hopened hafter
    obtain ⟨hwildcard, hescape⟩ := Dialect.consistent_standard.ne_reserved (Rendering.roleOf?_opener role)
    have hcloses : Passes (opener role) (closer role) true (after + 1) after [closer role] :=
      Enclosed.passes_closer (Rendering.marks_ne_escapeMark role).2 after
    have hpasses : Passes (opener role) (closer role) true 0 after
        (standard.quote name.toList ++ [closer role]) := by
      rw [hquotes]
      exact ((hmark.passes 0).append (hname.append (hmark.passes (after + 1)))).append hcloses
    rw [enclose, scan_opener hescape hwildcard (Rendering.roleOf?_opener role), Enclosed.contents, hquote,
      Bool.not_false, hpasses.length_unclosed]
    rfl

/-- An escaped name in front comes to hand. -/
theorem tokenize_escape_append {first : String} (hfirst : first ≠ "") (rest : List Char) :
    tokenize standard (String.ofList (standard.escape first.toList ++ rest)) =
      scan standard (standard.escape first.toList).length rest
        { item := .word .none first.toList [] } := by
  have hscan := scan_escaped_of_blank (show standard.simple = false from rfl)
    (standard.escapes_escapeWhere first.toList) (by simpa using hfirst)
    (show Draft.empty.item = .blank .none from rfl) 0 rest
  rw [Nat.zero_add] at hscan
  rw [tokenize, String.toList_ofList, tokenizeAt_eq_scan Dialect.consistent_standard rfl]
  exact hscan

end Container

/-- **A quoted name in a container** behind another name, in the default dialect, is read back as this
one name exactly if the marks of the container pair up in it.  Where closers overrun, the quotes are not
closed, and where openers are left, the container is not. -/
theorem tokenize_quote_enclosed {first : String} (hfirst : first ≠ "") {role : ContainerRole}
    (hquote : role.isQuote = false) (name : String) :
    let written := standard.escape first.toList
    let compiled :=
      tokenize standard (String.ofList (written ++ enclose role (standard.quote name.toList)))
    (compiled = .ok (TokenSet.ofTokens [.plain first, enclosedName role name]) ↔
        Paired (opener role) (closer role) name.toList) ∧
      (Overruns (opener role) (closer role) 0 name.toList →
        compiled = .error (.unclosedContainer '\x27' (written.length + 1))) ∧
      (¬ Overruns (opener role) (closer role) 0 name.toList →
        name.toList.count (closer role) < name.toList.count (opener role) →
        compiled = .error (.unclosedContainer (opener role) written.length)) := by
  intro written compiled
  have hcompiled : compiled = scan standard written.length
      (enclose role (standard.quote name.toList)) { item := .word .none first.toList [] } :=
    tokenize_escape_append hfirst _
  have hoverruns : Overruns (opener role) (closer role) 0 name.toList →
      compiled = .error (.unclosedContainer '\x27' (written.length + 1)) :=
    fun h => hcompiled.trans (scan_quote_of_overruns hquote h first _)
  have hleft : ¬ Overruns (opener role) (closer role) 0 name.toList →
      name.toList.count (closer role) < name.toList.count (opener role) →
      compiled = .error (.unclosedContainer (opener role) written.length) :=
    fun hopened hcount => hcompiled.trans (scan_quote_of_left hquote hopened hcount first _)
  refine ⟨⟨fun hok => ?_, fun h => hcompiled.trans (scan_quote_of_paired hquote h first _)⟩,
    hoverruns, hleft⟩
  -- The two ways not to pair up end in an error.
  by_cases hopened : Overruns (opener role) (closer role) 0 name.toList
  · cases (hoverruns hopened).symm.trans hok
  · refine ⟨hopened, ?_⟩
    have hle : name.toList.count (closer role) ≤ name.toList.count (opener role) := by
      by_contra hlt
      exact hopened ⟨name.toList, List.prefix_refl _, by omega⟩
    refine hle.antisymm (Nat.le_of_not_lt fun hlt => ?_)
    cases (hleft hopened hlt).symm.trans hok

/-- A name with brackets that pair up, a quote, and characters that are special elsewhere. -/
theorem tokenize_quote_enclosed_paired :
    "x" ≠ "" ∧ ContainerRole.property.isQuote = false ∧
      tokenize standard "x['a[b].c\\'d*']" = .ok ⟨[.plain "x", .plain "a[b].c'd*"], true⟩ := by
  have hpath : String.ofList (standard.escape "x".toList ++
      enclose .property (standard.quote "a[b].c'd*".toList)) = "x['a[b].c\\'d*']" := by decide
  have hread := (tokenize_quote_enclosed (show "x" ≠ "" by decide)
    (show ContainerRole.property.isQuote = false from rfl) "a[b].c'd*").1.mpr ⟨by decide, by decide⟩
  rw [hpath] at hread
  exact ⟨by decide, rfl, hread⟩

/-- **Not every name is read back**: a closing bracket in the name ends the container. -/
theorem quoted_closer_ends_container :
    standard.quote "]".toList = "']'".toList ∧
      tokenize standard "x[']']" = .error (.unclosedContainer '\x27' 2) ∧
      ¬ ∀ name : String,
        tokenize standard
            (String.ofList ("x".toList ++ enclose .property (standard.quote name.toList))) =
          .ok ⟨[.plain "x", .plain name], true⟩ := by
  have hpath : String.ofList (standard.escape "x".toList ++
      enclose .property (standard.quote "]".toList)) = "x[']']" := by decide
  have htokens : tokenize standard "x[']']" = .error (.unclosedContainer '\x27' 2) := by
    rw [← hpath, tokenize_escape_append (by decide)]
    exact scan_quote_of_overruns rfl (by decide) "x" 1
  refine ⟨by decide, htokens, fun hall => ?_⟩
  cases htokens.symm.trans (hall "]")

end Path

end PathExpr
