import PathExpr.Proofs.Drafts
import PathExpr.Proofs.Reach
import PathExpr.Proofs.Scanning

/-!
# Path expressions for tokens

Every well formed token can be written in the default dialect (`Rendering.text`).  Names are quoted, what
has an inside is enclosed, and so is what would not end by itself: a word with a wildcard, and a
broadcast, whose mark has to come first in an expression.

What is written so is read back wherever an item may begin (`Rendering.Writes`).  That needs two things
of the text.  The scanner, having read it, holds the token; and the text is balanced, so that a container
around it ends behind it.  Both are kept by the ways in which texts are put together, of which to
enclose a text is the main one (`Rendering.writes_enclose`): what is enclosed is compiled by itself, and
then made one token.
-/

namespace PathExpr.Rendering

open Dialect (standard escapeWhere)

/-! ### Writing -/

/-- The modifiers one by one. -/
def roles (m : Modifiers) : List ModifierRole :=
  List.replicate m.parent .parent ++ (if m.root then [.root] else []) ++
    (if m.placeholder then [.placeholder] else []) ++ (if m.context then [.context] else [])

/-- The character of a modifier. -/
def mark : ModifierRole → Char
  | .parent => '^'
  | .root => '~'
  | .placeholder => '%'
  | .context => '@'

/-- The character that a container opens with. -/
def opener : ContainerRole → Char
  | .property => '['
  | .singleQuote => '\x27'
  | .doubleQuote => '\x22'
  | .call => '('
  | .evalProperty => '\x7b'

/-- The character that a container closes with. -/
def closer : ContainerRole → Char
  | .property => ']'
  | .singleQuote => '\x27'
  | .doubleQuote => '\x22'
  | .call => ')'
  | .evalProperty => '\x7d'

/-- A text in a container. -/
def enclose (role : ContainerRole) (inside : List Char) : List Char :=
  opener role :: (inside ++ [closer role])

/-- A name in quotes, with every special character escaped. -/
def quoted (name : String) : List Char :=
  enclose .singleQuote (escapeWhere standard.isSpecial name.toList)

/-- Modifiers in front of a text. -/
def modified (m : Modifiers) (text : List Char) : List Char := (roles m).map mark ++ text

/-- A name with its wildcard, given by its place in bytes, and everything else escaped. -/
def starred : Nat → List Char → List Char
  | _, [] => []
  | 0, c :: rest => c :: escapeWhere standard.isSpecial rest
  | offset + 1, c :: rest =>
      escapeWhere standard.isSpecial [c] ++ starred (offset + 1 - c.utf8Size) rest

/-- A text with a broadcast in front of it, if there is one. -/
def broadcast (each : Bool) (text : List Char) : List Char :=
  if each then enclose .property ('<' :: text) else text

mutual

/-- **A token without its broadcast.** -/
def body : Token → List Char
  | .plain name => quoted name
  | .word w =>
      match w.wildcard with
      | none => modified w.modifiers (quoted w.name)
      | some offset => enclose .property (modified w.modifiers (starred offset w.name.toList))
  | .collection items _ => enclose .property (joined ',' items)
  | .container role inner _ => enclose role (joined '.' inner.tokens)

/-- **Tokens with a separator between them.** -/
def joined (separator : Char) : List Token → List Char
  | [] => []
  | [token] => broadcast token.each (body token)
  | token :: next :: rest =>
      broadcast token.each (body token) ++ separator :: joined separator (next :: rest)

end

/-- **A token as it is written.** -/
def text (token : Token) : List Char := broadcast token.each (body token)

@[simp] theorem joined_singleton (separator : Char) (token : Token) :
    joined separator [token] = text token := rfl

theorem joined_cons_cons (separator : Char) (token next : Token) (rest : List Token) :
    joined separator (token :: next :: rest) =
      text token ++ separator :: joined separator (next :: rest) := rfl

/-! ### Balanced texts -/

/-- The marks of a container have its role in the default dialect. -/
theorem roleOf?_opener (role : ContainerRole) :
    standard.roleOf? (opener role) = some (.opener role (closer role)) := by
  cases role <;> rfl

/-- Different containers have different marks. -/
theorem marks_ne {role other : ContainerRole} (h : role ≠ other) :
    (opener role ≠ opener other ∧ opener role ≠ closer other) ∧
      closer role ≠ opener other ∧ closer role ≠ closer other := by
  revert h
  cases role <;> cases other <;> decide

/-- No mark of a container is an escape. -/
theorem marks_ne_escapeMark (role : ContainerRole) :
    opener role ≠ escapeMark ∧ closer role ≠ escapeMark := by
  cases role <;> decide

/-- **A balanced text**: the search for the closer of a container passes over it. -/
def Balanced (text : List Char) : Prop :=
  ∀ role : ContainerRole, role.isQuote = false →
    Enclosed.Neutral (opener role) (closer role) true text

theorem balanced_nil : Balanced [] := fun _ _ => Enclosed.neutral_nil

theorem Balanced.append {first second : List Char} (hfirst : Balanced first)
    (hsecond : Balanced second) : Balanced (first ++ second) :=
  fun role hquote => (hfirst role hquote).append (hsecond role hquote)

/-- The characters that count where the closer of a container is searched. -/
def counted : List Char := [escapeMark, '[', ']', '(', ')', '\x7b', '\x7d']

/-- Any other character is balanced. -/
theorem balanced_singleton {c : Char} (h : c ∉ counted) : Balanced [c] := by
  intro role hquote
  have hne : ∀ other ∈ counted, c ≠ other := fun other hother heq => h (heq ▸ hother)
  have hmarks : opener role ∈ counted ∧ closer role ∈ counted := by
    cases role with
    | singleQuote => cases hquote
    | doubleQuote => cases hquote
    | _ => decide
  exact Enclosed.neutral_singleton (hne _ (by decide)) (hne _ hmarks.2) fun _ => hne _ hmarks.1

/-- **An escaped name is balanced**: what counts is special, and so it is escaped. -/
theorem balanced_of_escapes {name text : List Char} (h : standard.Escapes name text) :
    Balanced text := by
  have hcounted : counted.all standard.isSpecial = true := rfl
  induction h with
  | nil => exact balanced_nil
  | @bare c name text hspecial _ ih =>
      have hc : c ∉ counted := by
        intro hmem
        rw [List.all_eq_true.mp hcounted c hmem] at hspecial
        cases hspecial
      exact (balanced_singleton hc).append ih
  | @escaped c name text _ ih =>
      have hc : Balanced [escapeMark, c] := fun role _ => Enclosed.neutral_escaped c
      exact hc.append ih

theorem balanced_escapeWhere (text : List Char) :
    Balanced (escapeWhere standard.isSpecial text) :=
  balanced_of_escapes (standard.escapes_escapeWhere text)

/-- A wildcard between escaped names is balanced. -/
theorem balanced_starred {before after left right : List Char} (hbefore : standard.Escapes before left)
    (hafter : standard.Escapes after right) : Balanced (left ++ wildcardMark :: right) := by
  have hstar : Balanced [wildcardMark] := balanced_singleton (by decide)
  exact (balanced_of_escapes hbefore).append (hstar.append (balanced_of_escapes hafter))

/-- **A container around a balanced text is balanced.** -/
theorem Balanced.enclose {inside : List Char} (h : Balanced inside) (role : ContainerRole) :
    Balanced (enclose role inside) := by
  intro other hother
  obtain ⟨hopener, hcloser⟩ := marks_ne_escapeMark role
  by_cases heq : role = other
  · subst heq
    refine (h role hother).enclosed hopener hcloser ?_
    cases role with
    | singleQuote => cases hother
    | doubleQuote => cases hother
    | _ => decide
  · -- The marks of another container are characters like others.
    obtain ⟨⟨hopens, hopensCloser⟩, hclosesOpener, hcloses⟩ := marks_ne heq
    have hopens : Enclosed.Neutral (opener other) (closer other) true [opener role] :=
      Enclosed.neutral_singleton hopener hopensCloser fun _ => hopens
    have hcloses : Enclosed.Neutral (opener other) (closer other) true [closer role] :=
      Enclosed.neutral_singleton hcloser hcloses fun _ => hclosesOpener
    exact hopens.append ((h other hother).append hcloses)

theorem balanced_quoted (name : String) : Balanced (quoted name) :=
  (balanced_escapeWhere name.toList).enclose .singleQuote

/-- The characters of modifiers are balanced. -/
theorem balanced_marks (roles : List ModifierRole) : Balanced (roles.map mark) := by
  induction roles with
  | nil => exact balanced_nil
  | cons role rest ih =>
      have hmark : Balanced [mark role] := balanced_singleton (by cases role <;> decide)
      exact hmark.append ih

theorem Balanced.modified {text : List Char} (h : Balanced text) (m : Modifiers) :
    Balanced (modified m text) :=
  (balanced_marks _).append h

/-! ### Reading back -/

/-- The modifiers add up to what they are of. -/
theorem foldl_add_roles (m : Modifiers) : (roles m).foldl Modifiers.add .none = m := by
  obtain ⟨parent, root, placeholder, context⟩ := m
  have hparent : ∀ (count : Nat) (m : Modifiers),
      (List.replicate count ModifierRole.parent).foldl Modifiers.add m =
        { m with parent := m.parent + count } := by
    intro count
    induction count with
    | zero => exact fun m => rfl
    | succ count ih =>
        intro m
        have hcount : m.parent + 1 + count = m.parent + (count + 1) := by omega
        rw [List.replicate_succ, List.foldl_cons, ih, Modifiers.add, hcount]
  simp only [roles, List.foldl_append, hparent]
  cases root <;> cases placeholder <;> cases context <;>
    simp [Modifiers.add, Modifiers.none]

/-- Modifiers come to a blank item one after the other. -/
theorem scan_marks (roles : List ModifierRole) {draft : Draft} {m : Modifiers}
    (hblank : draft.item = .blank m) (position : Nat) (rest : List Char) :
    Path.scan standard position (roles.map mark ++ rest) draft =
      Path.scan standard (position + roles.length) rest
        { draft with item := .blank (roles.foldl Modifiers.add m) } := by
  induction roles generalizing draft m position with
  | nil =>
      rw [List.foldl_nil, ← hblank]
      rfl
  | cons role others ih =>
      have hrole : standard.roleOf? (mark role) = some (.modifier role) := by
        cases role <;> rfl
      obtain ⟨hwildcard, hescape⟩ := Dialect.consistent_standard.ne_reserved hrole
      have hstep : draft.modifier role (mark role) position =
          .ok { draft with item := .blank (m.add role) } := by
        rw [Draft.modifier, hblank]
      rw [List.map_cons, List.cons_append, Path.scan_modifier hescape hwildcard hrole, hstep,
        List.foldl_cons, List.length_cons, Nat.add_comm others.length, ← Nat.add_assoc]
      exact ih rfl (position + 1)

/-- **Modifiers in front of a text** are at hand where the text begins. -/
theorem scan_modified (m : Modifiers) (text : List Char) {draft : Draft}
    (hblank : draft.item = .blank .none) (position : Nat) (rest : List Char) :
    Path.scan standard position (modified m text ++ rest) draft =
      Path.scan standard (position + (roles m).length) (text ++ rest)
        { draft with item := .blank m } := by
  rw [modified, List.append_assoc, scan_marks _ hblank, foldl_add_roles]

/-- **A text writes a token**, given whether a broadcast waits for it: where an item may begin, the
scanner reads the text and holds the token. -/
structure Writes (text : List Char) (token : Token) (each : Bool) : Prop where
  balanced : Balanced text
  scan_append : ∀ (position : Nat) (rest : List Char) (draft : Draft), draft.item = .blank .none →
    draft.each = each → Path.scan standard position (text ++ rest) draft =
      Path.scan standard (position + text.length) rest (draft.hold token)

/-- **A quoted name** behind modifiers writes what they are in front of. -/
theorem writes_quoted (m : Modifiers) (name : String) (each : Bool) :
    Writes (modified m (quoted name)) (.named name m each) each where
  balanced := (balanced_quoted name).modified m
  scan_append position rest draft hblank heach := by
    have hrole := roleOf?_opener .singleQuote
    have hlength : (modified m (quoted name)).length =
        (roles m).length + (escapeWhere standard.isSpecial name.toList).length + 2 := by
      simp [modified, quoted, enclose, Nat.add_assoc]
    have hquoted : quoted name ++ rest = opener .singleQuote ::
        (escapeWhere standard.isSpecial name.toList ++ closer .singleQuote :: rest) := by
      simp [quoted, enclose]
    rw [scan_modified m _ hblank, hquoted, Path.scan_quoted Dialect.consistent_standard hrole rfl
      (by decide) (by decide) name.toList rfl, hlength, heach, String.ofList_toList]
    simp only [Nat.add_assoc]
    rfl

/-- **A container around a neutral text** comes to hand as the token that is made of what the text
compiles to, with the modifiers that wait for a name once the item at hand has ended. -/
theorem scan_enclose {role : ContainerRole} (hquote : role.isQuote = false) {inside : List Char}
    {inner : TokenSet} {token : Token}
    (hneutral : Enclosed.Neutral (opener role) (closer role) true inside)
    (hinner : ∀ position, Path.tokenizeAt standard position inside = .ok inner)
    {draft next : Draft} (hflush : ∀ position, draft.flush position = .ok next)
    (hmade : ∀ position, Draft.containerToken role inner next.waiting next.each position = .ok token)
    (position : Nat) (rest : List Char) :
    Path.scan standard position (enclose role inside ++ rest) draft =
      Path.scan standard (position + (enclose role inside).length) rest (next.hold token) := by
  have hpassed : Enclosed.Neutral (opener role) (closer role) (!role.isQuote) inside := by
    rw [hquote]
    exact hneutral
  have henclose : enclose role inside ++ rest = opener role :: (inside ++ closer role :: rest) := by
    simp [enclose]
  have hlength : (enclose role inside).length = inside.length + 2 := by simp [enclose]
  rw [henclose, Path.scan_container Dialect.consistent_standard (roleOf?_opener role) hpassed, hflush,
    hquote, hlength, ← Nat.add_assoc]
  simp only [Except.bind, Bool.false_eq_true, if_false, hinner, hmade]

/-- **A container writes the token that is made of what it encloses.** -/
theorem writes_enclose {role : ContainerRole} (hquote : role.isQuote = false) {inside : List Char}
    {inner : TokenSet} {token : Token} {each : Bool} (hbalanced : Balanced inside)
    (hinner : ∀ position, Path.tokenizeAt standard position inside = .ok inner)
    (hmade : ∀ position, Draft.containerToken role inner .none each position = .ok token) :
    Writes (enclose role inside) token each where
  balanced := hbalanced.enclose role
  scan_append position rest draft hblank heach := by
    have hflush : ∀ position, draft.flush position = .ok draft := by
      intro position
      rw [Draft.flush, hblank]
    have hwaiting : draft.waiting = .none := by rw [Draft.waiting, hblank]
    refine scan_enclose hquote (hbalanced role hquote) hinner hflush (fun position => ?_) position rest
    rw [hwaiting, heach]
    exact hmade position

/-! ### Tokens in sequence -/

/-- A separator of the default dialect. -/
theorem scan_separator {c : Char} {role : SeparatorRole}
    (hrole : standard.roleOf? c = some (.separator role)) (position : Nat) (rest : List Char)
    (draft : Draft) :
    Path.scan standard position (c :: rest) draft =
      (draft.separate role position).bind fun draft =>
        Path.scan standard (position + 1) rest draft := by
  obtain ⟨hwildcard, hescape⟩ := Dialect.consistent_standard.ne_reserved hrole
  exact Path.scan_separator hescape hwildcard hrole position rest draft

/-- To end with a token at hand is to add it. -/
theorem finish_hold (draft : Draft) (token : Token) (position : Nat) :
    (draft.hold token).finish position = .ok (TokenSet.ofTokens (draft.emit token).tokens) := by
  unfold Draft.emit
  cases hitems : draft.items <;> simp [Draft.finish, Draft.hold, Draft.take, Draft.emit, hitems]

/-- A single token is put in the place of its container as it is. -/
theorem spliceProperty_singleton (token : Token) (position : Nat) :
    Draft.spliceProperty [token] .none false position = .ok token := by
  cases token <;> simp [Draft.spliceProperty, Token.named]

/-- Two tokens or more stay together. -/
theorem spliceProperty_of_two_le {tokens : List Token} (h : 2 ≤ tokens.length) (each : Bool)
    (position : Nat) :
    Draft.spliceProperty tokens .none each position =
      .ok (.container .property (TokenSet.ofTokens tokens) each) := by
  match tokens with
  | first :: second :: rest => simp [Draft.spliceProperty]

/-- **A token is written with its broadcast** if it is written where the broadcast waits for it. -/
theorem writes_text {token : Token} (h : Writes (body token) token token.each) :
    Writes (text token) token false := by
  unfold text broadcast
  cases heach : token.each with
  | false =>
      rw [heach] at h
      simpa using h
  | true =>
      rw [heach] at h
      have hbalanced : Balanced ['<'] := balanced_singleton (by decide)
      have hmade : ∀ position, Draft.containerToken .property (TokenSet.ofTokens [token]) .none false
          position = .ok token := spliceProperty_singleton token
      refine writes_enclose rfl (hbalanced.append h.balanced) (fun position => ?_) hmade
      have hscan := h.scan_append (position + 1) [] { each := true } rfl rfl
      rw [List.append_nil, Path.scan_nil, finish_hold] at hscan
      rw [Path.tokenizeAt_eq_scan Dialect.consistent_standard rfl]
      refine (scan_separator (c := '<') rfl position (body token) .empty).trans ?_
      exact hscan

/-- Texts with a separator between them are balanced if they are. -/
theorem balanced_joined {separator : Char} (hseparator : Balanced [separator]) {tokens : List Token}
    (h : ∀ token ∈ tokens, Balanced (text token)) : Balanced (joined separator tokens) := by
  induction tokens with
  | nil => exact balanced_nil
  | cons token rest ih =>
      obtain ⟨htoken, hrest⟩ := List.forall_mem_cons.mp h
      cases rest with
      | nil => exact htoken
      | cons next rest =>
          rw [joined_cons_cons]
          exact htoken.append (hseparator.append (ih hrest))

/-- **Tokens between property separators** are added to those that are there. -/
theorem scan_segments {token : Token} {rest : List Token}
    (h : ∀ other ∈ token :: rest, Writes (text other) other false) (before : List Token)
    (position : Nat) :
    Path.scan standard position (joined '.' (token :: rest)) { tokens := before } =
      .ok (TokenSet.ofTokens (before ++ token :: rest)) := by
  induction rest generalizing token before position with
  | nil =>
      have htoken := (h token List.mem_cons_self).scan_append position [] { tokens := before } rfl rfl
      rw [List.append_nil, Path.scan_nil, finish_hold] at htoken
      exact htoken
  | cons next rest ih =>
      obtain ⟨htoken, hrest⟩ := List.forall_mem_cons.mp h
      rw [joined_cons_cons, htoken.scan_append position _ { tokens := before } rfl rfl,
        scan_separator rfl]
      have hnext := ih hrest (before ++ [token]) (position + (text token).length + 1)
      rw [List.append_assoc] at hnext
      exact hnext

/-- **Items between collection separators** are added to those of the open collection. -/
theorem scan_items {item : Token} {rest : List Token}
    (h : ∀ other ∈ item :: rest, Writes (text other) other false) (before : List Token)
    (hmany : before ≠ [] ∨ rest ≠ []) (position : Nat) :
    Path.scan standard position (joined ',' (item :: rest)) { items := before } =
      .ok (TokenSet.ofTokens [.collection (before ++ item :: rest) false]) := by
  induction rest generalizing item before position with
  | nil =>
      have hitem := (h item List.mem_cons_self).scan_append position [] { items := before } rfl rfl
      have hbefore : before ≠ [] := by simpa using hmany
      rw [List.append_nil, Path.scan_nil, finish_hold] at hitem
      simpa [Draft.emit, hbefore] using hitem
  | cons next rest ih =>
      obtain ⟨hitem, hrest⟩ := List.forall_mem_cons.mp h
      have hseparate : ∀ position, Draft.separate (Draft.hold { items := before } item) .collection
          position = .ok { items := before ++ [item] } := by
        intro position
        cases before <;> rfl
      rw [joined_cons_cons, hitem.scan_append position _ { items := before } rfl rfl,
        scan_separator rfl, hseparate]
      have hnext := ih hrest (before ++ [item]) (.inl (by simp))
        (position + (text item).length + 1)
      rw [List.append_assoc] at hnext
      exact hnext

/-! ### What is enclosed -/

/-- Tokens between property separators compile to these tokens. -/
theorem tokenizeAt_segments {tokens : List Token}
    (h : ∀ token ∈ tokens, Writes (text token) token false) (position : Nat) :
    Path.tokenizeAt standard position (joined '.' tokens) = .ok (TokenSet.ofTokens tokens) := by
  rw [Path.tokenizeAt_eq_scan Dialect.consistent_standard rfl]
  cases tokens with
  | nil => exact Path.scan_nil standard position .empty
  | cons token rest => exact scan_segments h [] position

/-- Two items or more between collection separators compile to a collection. -/
theorem tokenizeAt_items {items : List Token}
    (h : ∀ item ∈ items, Writes (text item) item false) (hmany : 2 ≤ items.length)
    (position : Nat) :
    Path.tokenizeAt standard position (joined ',' items) =
      .ok (TokenSet.ofTokens [.collection items false]) := by
  rw [Path.tokenizeAt_eq_scan Dialect.consistent_standard rfl]
  match items with
  | first :: second :: rest => exact scan_items h [] (.inr (List.cons_ne_nil second rest)) position

/-- The place of a wildcard is behind the text in front of it, whose characters are escaped. -/
theorem starred_append (before after : List Char) :
    starred (String.ofList before).utf8ByteSize (before ++ wildcardMark :: after) =
      escapeWhere standard.isSpecial before ++
        wildcardMark :: escapeWhere standard.isSpecial after := by
  induction before with
  | nil => rfl
  | cons c rest ih =>
      have hsize : (String.ofList (c :: rest)).utf8ByteSize =
          c.utf8Size + (String.ofList rest).utf8ByteSize := by
        simp [String.ofList_cons, String.utf8ByteSize_append]
      have hpos : 0 < c.utf8Size := Char.utf8Size_pos c
      obtain ⟨offset, hoffset⟩ : ∃ offset, c.utf8Size + (String.ofList rest).utf8ByteSize =
          offset + 1 := ⟨_, (Nat.succ_pred_eq_of_pos (by omega)).symm⟩
      have hrest : offset + 1 - c.utf8Size = (String.ofList rest).utf8ByteSize := by omega
      rw [hsize, hoffset, List.cons_append, starred, hrest, ih]
      exact (List.append_assoc _ _ _).symm.trans
        (congrArg (· ++ _) (Dialect.escapeWhere_append standard.isSpecial [c] rest).symm)

/-- **A wildcard between escaped texts** makes a word that says where it is. -/
theorem scan_starred (m : Modifiers) (before after : List Char) (position : Nat) :
    Path.scan standard position (escapeWhere standard.isSpecial before ++
        wildcardMark :: escapeWhere standard.isSpecial after) { item := .blank m } =
      .ok (TokenSet.ofTokens [.word
        { name := String.ofList (before ++ wildcardMark :: after)
          modifiers := m
          wildcard := some (String.ofList before).utf8ByteSize }]) := by
  have hsimple : standard.simple = false := rfl
  have hblank : Draft.item { item := .blank m } = .blank m := rfl
  have hscan := Path.scan_starred hsimple (standard.escapes_escapeWhere before)
    (standard.escapes_escapeWhere after) hblank position []
  rw [List.append_nil, Path.scan_nil] at hscan
  rw [hscan]
  simp [Draft.finish, Draft.take, Draft.wordToken, Draft.emit, Except.map]

/-- A word with a wildcard compiles to itself. -/
theorem tokenizeAt_starred (m : Modifiers) (before after : List Char) (position : Nat) :
    Path.tokenizeAt standard position (modified m (escapeWhere standard.isSpecial before ++
        wildcardMark :: escapeWhere standard.isSpecial after)) =
      .ok (TokenSet.ofTokens [.word
        { name := String.ofList (before ++ wildcardMark :: after)
          modifiers := m
          wildcard := some (String.ofList before).utf8ByteSize }]) := by
  have hmodified := fun text => scan_modified m text (show Draft.empty.item = .blank .none from rfl)
    position []
  simp only [List.append_nil] at hmodified
  rw [Path.tokenizeAt_eq_scan Dialect.consistent_standard rfl, hmodified]
  exact scan_starred m before after _

/-! ### Tokens and sets -/

/-- **A word is written by its text**: with a wildcard in a container of its own, and else quoted. -/
theorem writes_word {w : Word} (h : w.WellFormed) : Writes (body (.word w)) (.word w) w.each := by
  obtain ⟨name, m, wildcard, each⟩ := w
  obtain ⟨hcontent, hplace⟩ := h
  cases wildcard with
  | none =>
      have hnamed : Token.named name m each = .word ⟨name, m, none, each⟩ := by
        unfold Token.named
        rw [if_neg]
        rintro ⟨hm, heach⟩
        rcases hcontent with hmodifiers | hwildcard | htrue
        · exact hmodifiers hm
        · exact hwildcard rfl
        · rw [heach] at htrue
          cases htrue
      have hquoted := writes_quoted m name each
      rw [hnamed] at hquoted
      exact hquoted
  | some offset =>
      obtain ⟨before, after, hname, hsize⟩ := hplace offset rfl
      subst hname hsize
      have hbody : body (.word ⟨String.ofList (before ++ wildcardMark :: after), m,
          some (String.ofList before).utf8ByteSize, each⟩) =
          enclose .property (modified m (escapeWhere standard.isSpecial before ++
            wildcardMark :: escapeWhere standard.isSpecial after)) := by
        show enclose .property (modified m (starred _ (String.ofList _).toList)) = _
        rw [String.toList_ofList, starred_append]
      rw [hbody]
      have hbalanced := balanced_starred (standard.escapes_escapeWhere before)
        (standard.escapes_escapeWhere after)
      refine writes_enclose rfl (hbalanced.modified m) (tokenizeAt_starred m before after)
        fun position => ?_
      simp [Draft.containerToken, Draft.spliceProperty]

/-- **Every well formed token is written by its text.** -/
theorem writes_body {token : Token} (h : token.WellFormed) :
    Writes (body token) token token.each := by
  induction token with
  | plain name => exact writes_quoted .none name false
  | word w => exact writes_word h
  | collection items each ih =>
      obtain ⟨hmany, hitems⟩ := h
      have hwrites : ∀ item ∈ items, Writes (text item) item false := fun item hitem =>
        writes_text (ih item hitem (Token.allWellFormed_iff.mp hitems item hitem))
      have hseparator : Balanced [','] := balanced_singleton (by decide)
      refine writes_enclose rfl (balanced_joined hseparator fun item hitem => (hwrites item hitem).balanced)
        (tokenizeAt_items hwrites hmany) fun position => ?_
      simp [Draft.containerToken, Draft.spliceProperty, Token.each]
  | container role inner each ih =>
      obtain ⟨hrole, hsimple, hinner⟩ := h
      have hwrites : ∀ token ∈ inner.tokens, Writes (text token) token false := fun token htoken =>
        writes_text (ih token htoken (Token.allWellFormed_iff.mp hinner token htoken))
      have hseparator : Balanced ['.'] := balanced_singleton (by decide)
      have hbalanced := balanced_joined hseparator fun token htoken => (hwrites token htoken).balanced
      have hset : TokenSet.ofTokens inner.tokens = inner := by rw [TokenSet.ofTokens, ← hsimple]
      have hinner := tokenizeAt_segments hwrites
      rw [hset] at hinner
      cases role with
      | property =>
          refine writes_enclose rfl hbalanced hinner fun position => ?_
          have hsplice := spliceProperty_of_two_le hrole each position
          rw [hset] at hsplice
          exact hsplice
      | evalProperty =>
          refine writes_enclose rfl hbalanced hinner fun position => ?_
          have hsome : inner.tokens ≠ [] := List.length_pos_iff.mp hrole
          simp [Draft.containerToken, hsome, Token.each]
      | call => exact writes_enclose rfl hbalanced hinner fun position => rfl
      | _ => exact hrole.elim

/-- **Every well formed token set is written by the texts of its tokens.** -/
theorem tokenize_joined {set : TokenSet} (h : set.WellFormed) :
    Path.tokenize standard (String.ofList (joined '.' set.tokens)) = .ok set := by
  obtain ⟨hsimple, htokens⟩ := h
  have hwrites : ∀ token ∈ set.tokens, Writes (text token) token false := fun token htoken =>
    writes_text (writes_body (Token.allWellFormed_iff.mp htokens token htoken))
  have hset : TokenSet.ofTokens set.tokens = set := by rw [TokenSet.ofTokens, ← hsimple]
  rw [Path.tokenize, String.toList_ofList, tokenizeAt_segments hwrites, hset]

/-- A name that needs its quotes, a broadcast of a word with a wildcard, and items of which one is empty. -/
example : String.ofList (joined '.' [.plain "a.b", .word ⟨"x*", { parent := 1 }, some 1, true⟩,
    .collection [.plain "", .plain "*"] false]) = "'a\\.b'.[<[^x*]].['','\\*']" := by decide

end PathExpr.Rendering

namespace PathExpr.Path

/-- **What path expressions compile to** in the default dialect: the well formed token sets, all of
them and nothing else. -/
theorem exists_tokenize_iff_wellFormed (set : TokenSet) :
    (∃ path, tokenize Dialect.standard path = .ok set) ↔ set.WellFormed := by
  constructor
  · rintro ⟨path, hpath⟩
    exact wellFormed_of_tokenize hpath
  · intro hset
    exact ⟨_, Rendering.tokenize_joined hset⟩

end PathExpr.Path
