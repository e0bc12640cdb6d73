import PathExpr.Proofs.Rendering
import PathExpr.Proofs.Spelling

/-!
# A broadcast in front of a collection

The items of a collection can be written in three ways that all name the same (`Spelling`): as they are,
with escapes; in quotes; and in a container of their own.  Behind the first item it makes no difference
which one is taken (`Path.scan_items_behind`).

In front of the first item it does, if a broadcast waits there.  A bare name is taken when the separator
behind it is read, and the separator takes the broadcast for the collection before that.  Quotes and
containers make a token when they are closed, which takes the broadcast for itself.  So a broadcast is one
of the whole collection exactly if the first item is bare (`Path.broadcasts_collection_iff_bare`).
-/

namespace PathExpr

open Dialect (standard escapeWhere)

namespace Rendering

/-- **The ways to write an item** that is a name. -/
inductive Spelling where
  /-- With every special character escaped. -/
  | bare
  /-- In single quotes, where only these and escapes are escaped. -/
  | quoted
  /-- Like a bare name, in a container of its own. -/
  | bracketed
  deriving DecidableEq

/-- A name with the way in which it is written. -/
structure SpelledName where
  spelling : Spelling
  name : String

namespace SpelledName

/-- **The text of an item.** -/
def text (item : SpelledName) : List Char :=
  match item.spelling with
  | .bare => standard.escape item.name.toList
  | .quoted =>
      enclose .singleQuote (escapeWhere (fun c => c == '\x27' || c == escapeMark) item.name.toList)
  | .bracketed => enclose .property (standard.escape item.name.toList)

/-- The name as a token of its own. -/
def token (item : SpelledName) : Token := .plain item.name

end SpelledName

/-- **Items with separators between them**, behind a broadcast. -/
def broadcastItems (items : List SpelledName) : List Char :=
  '<' :: List.intercalate [','] (items.map SpelledName.text)

end Rendering

namespace Path

open Rendering (SpelledName broadcastItems enclose opener closer)

/-! ### One item -/

section Item

variable {item : SpelledName} {draft : Draft}

/-- A bare name where a name may begin is a word. -/
theorem scan_bare (hspelling : item.spelling = .bare) (hname : item.name ≠ "")
    (hblank : draft.item = .blank .none) (position : Nat) (rest : List Char) :
    scan standard position (item.text ++ rest) draft =
      scan standard (position + item.text.length) rest
        { draft with item := .word .none item.name.toList [] } := by
  have htext : item.text = escapeWhere standard.isSpecial item.name.toList := by
    rw [SpelledName.text, hspelling]
    rfl
  rw [htext]
  exact scan_escaped_of_blank rfl (standard.escapes_escapeWhere _) (by simpa using hname) hblank
    position rest

/-- **A name in quotes or brackets** comes to hand with the broadcast in front of it. -/
theorem scan_enclosed (hspelling : item.spelling ≠ .bare) (hname : item.name ≠ "")
    (hblank : draft.item = .blank .none) (position : Nat) (rest : List Char) :
    scan standard position (item.text ++ rest) draft =
      scan standard (position + item.text.length) rest
        (draft.hold (.named item.name .none draft.each)) := by
  obtain ⟨spelling, name⟩ := item
  cases spelling with
  | bare => exact absurd rfl hspelling
  | quoted =>
      have hrole : standard.roleOf? '\x27' = some (.opener .singleQuote '\x27') := rfl
      have htext : (SpelledName.mk .quoted name).text ++ rest = '\x27' ::
          (escapeWhere (fun c => c == '\x27' || c == escapeMark) name.toList ++ '\x27' :: rest) := by
        simp [SpelledName.text, enclose, opener, closer]
      have hlength : (SpelledName.mk .quoted name).text.length =
          (escapeWhere (fun c => c == '\x27' || c == escapeMark) name.toList).length + 2 := by
        simp [SpelledName.text, enclose]
      rw [htext, hlength, scan_quoted Dialect.consistent_standard hrole rfl (by simp) (by simp)
        name.toList hblank, String.ofList_toList, Nat.add_assoc]
  | bracketed =>
      have hword : name.toList ≠ [] := by simpa using hname
      have hinner : ∀ position, tokenizeAt standard position (standard.escape name.toList) =
          .ok (TokenSet.ofNames [name]) := by
        intro position
        have hscan := scan_escaped_of_blank (show standard.simple = false from rfl)
          (standard.escapes_escapeWhere name.toList) hword
          (show Draft.empty.item = .blank .none from rfl) position []
        rw [List.append_nil, scan_nil] at hscan
        rw [tokenizeAt_eq_scan Dialect.consistent_standard rfl]
        refine hscan.trans ?_
        simp [Draft.finish, Draft.take, Draft.wordToken, Draft.emit, Draft.empty, Token.named,
          Except.map, TokenSet.ofNames]
      have hwrites : Rendering.Writes (SpelledName.mk .bracketed name).text
          (.named name .none draft.each) draft.each :=
        Rendering.writes_enclose rfl (Rendering.balanced_escapeWhere name.toList) hinner fun _ => rfl
      exact hwrites.scan_append position rest draft hblank rfl

/-- Where no broadcast waits, an item is a plain name, however it is written. -/
theorem scan_item (draft : Draft) (hname : item.name ≠ "") (hblank : draft.item = .blank .none)
    (heach : draft.each = false) (position : Nat) (rest : List Char) :
    ∃ hand, Draft.Names { draft with item := hand } item.name ∧
      scan standard position (item.text ++ rest) draft =
        scan standard (position + item.text.length) rest { draft with item := hand } := by
  by_cases hspelling : item.spelling = .bare
  · exact ⟨_, .inl rfl, scan_bare hspelling hname hblank position rest⟩
  · refine ⟨.closed (.plain item.name), .inr rfl, ?_⟩
    have hhold : draft.hold (.named item.name .none draft.each) =
        { draft with item := .closed (.plain item.name) } := by
      rw [Draft.hold, heach]
      simp [Token.named]
    rw [scan_enclosed hspelling hname hblank, hhold]

end Item

/-! ### All items -/

/-- **Behind the first item** it makes no difference how the others are written: their names are added to
the open collection, which ends with the expression. -/
theorem scan_items_behind {item : SpelledName} {others : List SpelledName}
    (hnames : ∀ other ∈ item :: others, other.name ≠ "") {before : List Token} (hbefore : before ≠ [])
    (each : Bool) (position : Nat) :
    scan standard position (List.intercalate [','] ((item :: others).map SpelledName.text))
        { items := before, itemsEach := each } =
      .ok ⟨[.collection (before ++ (item :: others).map SpelledName.token) each], false⟩ := by
  induction others generalizing item before position with
  | nil =>
      obtain ⟨hand, hhand, hscan⟩ := scan_item { items := before, itemsEach := each }
        (hnames item List.mem_cons_self) rfl rfl position []
      rw [List.append_nil] at hscan
      rw [List.map_singleton, List.intercalate_singleton, hscan, scan_nil, Draft.finish,
        hhand.take rfl]
      simp [Draft.emit, TokenSet.ofTokens, Token.isPlain, SpelledName.token]
  | cons next others ih =>
      obtain ⟨hitem, hothers⟩ := List.forall_mem_cons.mp hnames
      obtain ⟨hand, hhand, hscan⟩ := scan_item { items := before, itemsEach := each } hitem rfl rfl
        position (',' :: List.intercalate [','] ((next :: others).map SpelledName.text))
      have hseparate : ∀ position,
          Draft.separate { items := before, itemsEach := each, item := hand } .collection position =
            .ok { items := before ++ [item.token], itemsEach := each } := by
        intro position
        have hopen : before.isEmpty = false := by simpa using hbefore
        have htake := hhand.take rfl position
        simp only [Draft.separate, Draft.separateItems, hopen, Bool.false_eq_true, if_false, htake]
        rfl
      have hnext := ih hothers (List.append_ne_nil_of_left_ne_nil hbefore [item.token])
        (position + item.text.length + 1)
      rw [List.append_assoc] at hnext
      rw [List.map_cons, List.map_cons, List.intercalate_cons_cons, List.append_assoc,
        List.singleton_append, ← List.map_cons, hscan, Rendering.scan_separator rfl, hseparate]
      exact hnext

/-- **A broadcast in front of a collection** goes where the separator behind the first item finds it:
with the token of the item, or still waiting. -/
theorem tokenize_broadcastItems {first second : SpelledName} {others : List SpelledName}
    (hnames : ∀ item ∈ second :: others, item.name ≠ "") {hand : Draft} {token : Token} {each : Bool}
    (hscan : ∀ position rest, scan standard position (first.text ++ rest) { each := true } =
      scan standard (position + first.text.length) rest hand)
    (hseparate : ∀ position, hand.separate .collection position =
      .ok { items := [token], itemsEach := each }) :
    tokenize standard (String.ofList (broadcastItems (first :: second :: others))) =
      .ok ⟨[.collection (token :: (second :: others).map SpelledName.token) each], false⟩ := by
  have hbroadcast : Draft.separate .empty .each 0 = .ok { each := true } := rfl
  rw [tokenize, tokenizeAt_eq_scan Dialect.consistent_standard rfl, String.toList_ofList,
    broadcastItems, Rendering.scan_separator rfl, hbroadcast, List.map_cons, List.map_cons,
    List.intercalate_cons_cons, List.append_assoc, List.singleton_append, ← List.map_cons]
  show scan standard 1 (first.text ++ _) { each := true } = _
  rw [hscan, Rendering.scan_separator rfl, hseparate]
  exact scan_items_behind hnames (List.cons_ne_nil token []) each _

section Broadcast

variable {first second : SpelledName} {others : List SpelledName}

/-- In front of a bare item a broadcast waits until the separator takes it. -/
theorem tokenize_broadcast_bare (hbare : first.spelling = .bare)
    (hnames : ∀ item ∈ first :: second :: others, item.name ≠ "") :
    tokenize standard (String.ofList (broadcastItems (first :: second :: others))) =
      .ok ⟨[.collection ((first :: second :: others).map SpelledName.token) true], false⟩ := by
  obtain ⟨hfirst, hothers⟩ := List.forall_mem_cons.mp hnames
  refine tokenize_broadcastItems hothers (scan_bare hbare hfirst rfl) fun position => ?_
  simp [Draft.separate, Draft.separateItems, Draft.take, Draft.wordToken, Token.named, Except.map,
    SpelledName.token]

/-- In front of quotes or brackets a broadcast is taken by what they enclose. -/
theorem tokenize_broadcast_enclosed (henclosed : first.spelling ≠ .bare)
    (hnames : ∀ item ∈ first :: second :: others, item.name ≠ "") :
    tokenize standard (String.ofList (broadcastItems (first :: second :: others))) =
      .ok ⟨[.collection (.word ⟨first.name, .none, none, true⟩ ::
        (second :: others).map SpelledName.token) false], false⟩ := by
  obtain ⟨hfirst, hothers⟩ := List.forall_mem_cons.mp hnames
  exact tokenize_broadcastItems hothers (scan_enclosed henclosed hfirst rfl) fun position => rfl

/-- **A broadcast is one of the whole collection exactly if the first item is bare**, however the others
are written. -/
theorem broadcasts_collection_iff_bare (hnames : ∀ item ∈ first :: second :: others, item.name ≠ "") :
    tokenize standard (String.ofList (broadcastItems (first :: second :: others))) =
        .ok ⟨[.collection ((first :: second :: others).map SpelledName.token) true], false⟩ ↔
      first.spelling = .bare := by
  constructor
  · intro hset
    by_contra henclosed
    rw [tokenize_broadcast_enclosed henclosed hnames] at hset
    cases hset
  · intro hbare
    exact tokenize_broadcast_bare hbare hnames

end Broadcast

/-- A bare first item, with a quoted one and one in brackets behind it. -/
theorem broadcasts_collection_mixed :
    let items : List SpelledName := [⟨.bare, "a*"⟩, ⟨.quoted, "b,[c'"⟩, ⟨.bracketed, "d.]"⟩]
    (∀ item ∈ items, item.name ≠ "") ∧
      String.ofList (broadcastItems items) = "<a\\*,'b,[c\\'',[d\\.\\]]" ∧
      tokenize standard (String.ofList (broadcastItems items)) =
        .ok ⟨[.collection [.plain "a*", .plain "b,[c'", .plain "d.]"] true], false⟩ := by
  intro items
  have hnames : ∀ item ∈ items, item.name ≠ "" := by decide
  exact ⟨hnames, by decide, (broadcasts_collection_iff_bare hnames).mpr rfl⟩

/-- **A quoted first item takes the broadcast for itself**, where a bare one would leave it to the
collection. -/
theorem broadcast_lost_to_quoted_item :
    let items : List SpelledName := [⟨.quoted, "a"⟩, ⟨.bare, "b"⟩]
    (2 ≤ items.length ∧ ∀ item ∈ items, item.name ≠ "") ∧
      String.ofList (broadcastItems items) = "<'a',b" ∧
      tokenize standard (String.ofList (broadcastItems items)) ≠
        .ok ⟨[.collection (items.map SpelledName.token) true], false⟩ := by
  intro items
  have hnames : ∀ item ∈ items, item.name ≠ "" := by decide
  refine ⟨⟨Nat.le_refl 2, hnames⟩, by decide, fun hset => ?_⟩
  rw [tokenize_broadcast_enclosed (by decide) hnames] at hset
  cases hset

end Path

end PathExpr
