import Mathlib.Data.List.Forall2
import PathExpr.Proofs.Scanning

/-!
# Names read back as they were written

A name can be written into a path expression between quotes or with escapes (`Dialect.Spells`), and
that takes every special meaning off its characters, whatever the dialect makes special.  The scanner
leaves such a text with one plain name at hand, as a word or as a closed container
(`Path.scan_spelling`); which of the two does not show in what comes after it.

So names that are written one way or the other, with property separators between them, compile to just
these names (`Path.tokenize_spellings`).
-/

namespace PathExpr

open Dialect (escapeWhere)

namespace Dialect

/-- **The spellings of a name**: as it is quoted, and as it is escaped unless it is empty. -/
inductive Spells (dialect : Dialect) (name : String) : String → Prop where
  | quoted : Spells dialect name (String.ofList (dialect.quote name.toList))
  | escaped (h : name ≠ "") : Spells dialect name (String.ofList (dialect.escape name.toList))

/-- The quotes of a dialect are containers of it. -/
theorem Consistent.exists_quote {dialect : Dialect} (h : dialect.Consistent)
    {opener closer : Char} (hquotes : dialect.quotes? = some (opener, closer)) :
    ∃ role : ContainerRole, role.isQuote = true ∧
      dialect.roleOf? opener = some (.opener role closer) := by
  unfold quotes? at hquotes
  cases hsingle : dialect.container? .singleQuote with
  | some marks =>
      rw [hsingle] at hquotes
      cases hquotes
      exact ⟨.singleQuote, rfl, h.roleOf?_of_container? hsingle⟩
  | none =>
      rw [hsingle] at hquotes
      exact ⟨.doubleQuote, rfl, h.roleOf?_of_container? hquotes⟩

/-- **What a spelling looks like**: escaped characters, or quotes around a text in which the closer is
escaped. -/
theorem Spells.cases_of_quotes {dialect : Dialect} (hsimple : dialect.simple = false)
    {opener closer : Char} (hquotes : dialect.quotes? = some (opener, closer)) {name text : String}
    (h : dialect.Spells name text) :
    (name.toList ≠ [] ∧ text.toList = escapeWhere dialect.isSpecial name.toList) ∨
      text.toList =
        opener :: (escapeWhere (fun c => c == closer || c == escapeMark) name.toList ++ [closer]) := by
  cases h with
  | escaped hname =>
      refine .inl ⟨by simpa using hname, ?_⟩
      simp [escape, hsimple]
  | quoted =>
      rw [String.toList_ofList]
      unfold quote
      split
      · next hplain =>
          have hnot : name.toList ≠ [] ∧ ∀ c ∈ name.toList, dialect.isSpecial c = false := by
            simpa [hsimple] using hplain
          exact .inl ⟨hnot.1, (escapeWhere_eq_self hnot.2).symm⟩
      · rw [hquotes]
        exact .inr rfl

end Dialect

namespace Draft

/-- The item at hand is a plain name, by itself or out of a container. -/
def Names (draft : Draft) (name : String) : Prop :=
  draft.item = .word .none name.toList [] ∨ draft.item = .closed (.plain name)

/-- **A plain name is taken as such**, however it came to hand. -/
theorem Names.take {draft : Draft} {name : String} (h : draft.Names name) (heach : draft.each = false)
    (position : Nat) :
    draft.take position = .ok (some (.plain name), { draft with item := .blank .none }) := by
  rcases h with hword | hclosed
  · rw [Draft.take, hword]
    simp [wordToken, Token.named, heach, Except.map]
  · rw [Draft.take, hclosed]

end Draft

namespace Path

variable {dialect : Dialect}

/-- **A spelled name** where a name may begin comes to hand as a plain name. -/
theorem scan_spelling (hconsistent : dialect.Consistent) (hsimple : dialect.simple = false)
    {opener closer : Char} (hquotes : dialect.quotes? = some (opener, closer)) {name text : String}
    (hspells : dialect.Spells name text) {draft : Draft} (hblank : draft.item = .blank .none)
    (heach : draft.each = false) (position : Nat) (rest : List Char) :
    ∃ item, Draft.Names { draft with item := item } name ∧
      scan dialect position (text.toList ++ rest) draft =
        scan dialect (position + text.toList.length) rest { draft with item := item } := by
  rcases hspells.cases_of_quotes hsimple hquotes with ⟨hname, htext⟩ | htext
  · refine ⟨.word .none name.toList [], .inl rfl, ?_⟩
    rw [htext]
    exact scan_escaped_of_blank hsimple (dialect.escapes_escapeWhere _) hname hblank position rest
  · obtain ⟨role, hquote, hrole⟩ := hconsistent.exists_quote hquotes
    refine ⟨.closed (.plain name), .inr rfl, ?_⟩
    have hhold : draft.hold (.named (String.ofList name.toList) .none draft.each) =
        { draft with item := .closed (.plain name) } := by
      rw [Draft.hold, heach]
      simp [Token.named]
    rw [htext, List.cons_append, List.append_assoc, List.singleton_append,
      scan_quoted hconsistent hrole hquote (by simp) (by simp) name.toList hblank, hhold]
    congr 1
    simp only [List.length_cons, List.length_append, List.length_nil]
    omega

/-- **Spelled names between property separators** are scanned as plain names. -/
theorem scan_spellings (hconsistent : dialect.Consistent) (hsimple : dialect.simple = false)
    {opener closer : Char} (hquotes : dialect.quotes? = some (opener, closer))
    {name text : String} {names texts : List String} (hspells : dialect.Spells name text)
    (hothers : List.Forall₂ dialect.Spells names texts) (before : List String) (position : Nat) :
    scan dialect position
        (List.intercalate [dialect.property] ((text :: texts).map String.toList))
        { tokens := before.map .plain } =
      .ok (TokenSet.ofNames (before ++ name :: names)) := by
  have hspelling : ∀ (before : List String) (position : Nat) {name text : String},
      dialect.Spells name text → ∀ rest,
      ∃ item, Draft.Names { tokens := before.map .plain, item := item } name ∧
        scan dialect position (text.toList ++ rest) { tokens := before.map .plain } =
          scan dialect (position + text.toList.length) rest
            { tokens := before.map .plain, item := item } :=
    fun _ position _ _ hspells => scan_spelling hconsistent hsimple hquotes hspells rfl rfl position
  induction hothers generalizing name text before position with
  | nil =>
      obtain ⟨item, hnames, hscan⟩ := hspelling before position hspells []
      rw [List.append_nil] at hscan
      rw [List.map_singleton, List.intercalate_singleton, hscan, scan_nil, Draft.finish,
        hnames.take rfl]
      simp [Draft.emit, TokenSet.ofNames]
  | @cons next nextText names texts hnext hothers ih =>
      obtain ⟨item, hnames, hscan⟩ := hspelling before position hspells
        (dialect.property :: List.intercalate [dialect.property]
          ((nextText :: texts).map String.toList))
      obtain ⟨hwildcard, hescape⟩ := hconsistent.ne_reserved hconsistent.roleOf?_property
      rw [List.map_cons, List.map_cons, List.intercalate_cons_cons, List.append_assoc,
        List.singleton_append, ← List.map_cons, hscan,
        scan_separator hescape hwildcard hconsistent.roleOf?_property, Draft.separate,
        Draft.separateSegments, hnames.take rfl]
      have hfollow := ih hnext (before ++ [name]) (position + text.toList.length + 1)
      simpa [Draft.emit, Except.bind] using hfollow

/-- Spelled names between property separators compile to these names. -/
theorem tokenize_of_spells (hconsistent : dialect.Consistent) (hsimple : dialect.simple = false)
    (hquotes : dialect.quotes?.isSome = true) {names texts : List String}
    (hspells : List.Forall₂ dialect.Spells names texts) :
    tokenize dialect (String.intercalate (String.singleton dialect.property) texts) =
      .ok (TokenSet.ofNames names) := by
  obtain ⟨⟨opener, closer⟩, hquotes⟩ := Option.isSome_iff_exists.mp hquotes
  rw [tokenize, tokenizeAt_eq_scan hconsistent hsimple, String.toList_intercalate,
    String.toList_singleton]
  cases hspells with
  | nil => exact scan_nil dialect 0 .empty
  | cons hfirst hothers => exact scan_spellings hconsistent hsimple hquotes hfirst hothers [] 0

/-- **Escaping and quoting are undone.**  In every dialect that is not simple and has quotes, names
that are quoted or, where they are not empty, escaped, in any mixture, with property separators between
them, compile to these names. -/
theorem tokenize_spellings {tables : Tables} (hdialect : Dialect.ofTables tables = .ok dialect)
    (hquotes : dialect.quotes?.isSome = true) {names texts : List String}
    (hspells : List.Forall₂ dialect.Spells names texts) :
    tokenize dialect (String.intercalate (String.singleton dialect.property) texts) =
      .ok ⟨names.map .plain, true⟩ := by
  obtain ⟨hconsistent, -, hsimple⟩ := Dialect.of_ofTables hdialect
  have hset : TokenSet.ofNames names = ⟨names.map .plain, true⟩ := by
    rw [← TokenSet.ofNames_simple names]
    rfl
  rw [← hset]
  exact tokenize_of_spells hconsistent hsimple hquotes hspells

/-- A dialect whose quotes differ from each other, with three names that need them or an escape. -/
theorem tokenize_spellings_guillemets :
    let tables : Tables := ⟨[('!', .root)], [('/', .property)], [('«', .doubleQuote, '»')]⟩
    let dialect : Dialect := ⟨tables, '/', false⟩
    Dialect.ofTables tables = .ok dialect ∧ dialect.quotes?.isSome = true ∧
      List.Forall₂ dialect.Spells ["", "a/b", "!»*"] ["«»", "a\\/b", "«!\\»*»"] ∧
      tokenize dialect "«»/a\\/b/«!\\»*»" =
        .ok ⟨[.plain "", .plain "a/b", .plain "!»*"], true⟩ := by
  intro tables dialect
  have hspells : List.Forall₂ dialect.Spells ["", "a/b", "!»*"] ["«»", "a\\/b", "«!\\»*»"] :=
    .cons .quoted (.cons (.escaped (by decide)) (.cons .quoted .nil))
  have hdialect : Dialect.ofTables tables = .ok dialect := rfl
  exact ⟨hdialect, rfl, hspells, tokenize_spellings hdialect rfl hspells⟩

end Path

end PathExpr
