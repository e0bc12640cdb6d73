import Mathlib.Data.List.Induction
import Mathlib.Data.List.Perm.Basic
import PathExpr.Proofs.Rendering

/-!
# Brackets around a segment

A segment of a path expression is a run of modifiers and a body, a name in which at most one character is a
wildcard.  Brackets may be put around the body, with any of the modifiers in front of them and the others
inside, and a separator of properties may be left out in front of a bracket (`Bracketing.Rewrites`).  None
of this shows in the tokens (`Bracketing.tokenize_of_rewrites`).

A bare segment and a bracketed one come to hand in two ways: the one as a word, which is made a token when
it ends, the other as the token of a closed container, into which the modifiers and the broadcast in front
of the bracket were merged.  What counts is that the same token is taken from either
(`Draft.Holds`): all that ends an item, be it a separator, a bracket or the end of the text, takes it first.
-/

namespace PathExpr

namespace Modifiers

/-- Modifiers given one by one. -/
def ofRoles (roles : List ModifierRole) : Modifiers := roles.foldl add none

/-- Their order does not matter. -/
theorem ofRoles_eq_of_perm {roles others : List ModifierRole} (h : roles.Perm others) :
    ofRoles roles = ofRoles others :=
  have : RightCommutative add := ⟨add_right_comm⟩
  h.foldl_eq none

/-- To merge modifiers is to give the ones behind the others. -/
theorem merge_ofRoles (roles others : List ModifierRole) :
    (ofRoles roles).merge (ofRoles others) = ofRoles (roles ++ others) := by
  have hadd : ∀ (m n : Modifiers) (role : ModifierRole), m.merge (n.add role) = (m.merge n).add role := by
    intro m n role
    cases role <;> simp [merge, add, Nat.add_assoc]
  induction others using List.reverseRecOn with
  | nil => simp [ofRoles]
  | append_singleton others role ih =>
      have hlast : ∀ roles, ofRoles (roles ++ [role]) = (ofRoles roles).add role := by
        intro roles
        simp [ofRoles]
      rw [← List.append_assoc, hlast, hlast, hadd, ih]

end Modifiers

namespace Draft

/-- **A token is at hand**, behind others and nothing else: it is taken by whatever ends it. -/
def Holds (draft : Draft) (before : List Token) (token : Token) : Prop :=
  ∀ position, draft.take position = .ok (some token, { tokens := before })

namespace Holds

variable {draft : Draft} {before : List Token} {token : Token} (h : draft.Holds before token)

include h

/-- The end of the text ends it. -/
theorem finish (position : Nat) :
    draft.finish position = .ok (TokenSet.ofTokens (before ++ [token])) := by
  rw [Draft.finish, h]
  rfl

/-- A separator of segments ends it. -/
theorem separateSegments (each : Bool) (position : Nat) :
    draft.separateSegments each position = .ok { tokens := before ++ [token], each := each } := by
  rw [Draft.separateSegments, h]
  simp [emit]

/-- A bracket ends it. -/
theorem flush (position : Nat) : draft.flush position = .ok { tokens := before ++ [token] } := by
  have hitem : ∀ m, draft.item ≠ .blank m := by
    intro m hblank
    have htake := h position
    rw [Draft.take, hblank] at htake
    by_cases hm : m = .none <;> simp [hm] at htake
  unfold Draft.flush
  split
  · next m hblank => exact absurd hblank (hitem m)
  · rw [h]
    rfl

end Holds

end Draft

namespace Bracketing

open Dialect (standard)
open Rendering (mark enclose Balanced)

/-! ### Segments and their texts -/

/-- **A body**: the text of a name that is not empty, with special characters escaped, and the name; or
that of two names and a wildcard between them, and the place of the wildcard. -/
inductive Body : List Char → List Char → Option Nat → Prop where
  | name {name text : List Char} (h : standard.Escapes name text) (hne : name ≠ []) : Body text name none
  | pattern {before after left right : List Char} (hbefore : standard.Escapes before left)
      (hafter : standard.Escapes after right) :
      Body (left ++ wildcardMark :: right) (before ++ wildcardMark :: after)
        (some (String.ofList before).utf8ByteSize)

/-- **A segment**: whether a broadcast is in front of it, its modifiers, and its body. -/
structure Segment where
  each : Bool
  roles : List ModifierRole
  text : List Char
  name : List Char
  wildcard : Option Nat
  body : Body text name wildcard

/-- The token of a name. -/
def tokenOf (name : List Char) (wildcard : Option Nat) (m : Modifiers) (each : Bool) : Token :=
  match wildcard with
  | none => .named (String.ofList name) m each
  | some offset => .word ⟨String.ofList name, m, some offset, each⟩

/-- **The token of a segment.** -/
def Segment.token (segment : Segment) : Token :=
  tokenOf segment.name segment.wildcard (.ofRoles segment.roles) segment.each

/-- A segment as it is written without brackets. -/
def Segment.plain (segment : Segment) : List Char := segment.roles.map mark ++ segment.text

/-- The character in front of a segment. -/
def separator (each : Bool) : Char := if each then '<' else '.'

/-- **Segments as they are written without brackets.** Only a broadcast is in front of the first. -/
def plain : List Segment → List Char
  | [] => []
  | first :: others =>
      (if first.each then ['<'] else []) ++ (first.plain ++
        others.flatMap fun segment => separator segment.each :: segment.plain)

/-- **A segment may be written** with its modifiers in any order, and with brackets around its body and
some of them. -/
inductive Segment.Written (segment : Segment) : List Char → Prop where
  | bare {roles : List ModifierRole} (h : roles.Perm segment.roles) :
      Written segment (roles.map mark ++ segment.text)
  | bracketed {outer inner : List ModifierRole} (h : (outer ++ inner).Perm segment.roles) :
      Written segment (outer.map mark ++ enclose .property (inner.map mark ++ segment.text))

/-- **Segments behind another one**: each behind its separator, or, if that is no broadcast, right behind
what comes before if it begins with a bracket. -/
inductive Follows : List Segment → List Char → Prop where
  | nil : Follows [] []
  | separated {segment : Segment} {others : List Segment} {text rest : List Char}
      (hwritten : segment.Written text) (hrest : Follows others rest) :
      Follows (segment :: others) (separator segment.each :: (text ++ rest))
  | adjacent {segment : Segment} {others : List Segment} {inner : List ModifierRole}
      {rest : List Char} (heach : segment.each = false) (h : inner.Perm segment.roles)
      (hrest : Follows others rest) :
      Follows (segment :: others) (enclose .property (inner.map mark ++ segment.text) ++ rest)

/-- **The texts that segments may be written as.** -/
inductive Rewrites : List Segment → List Char → Prop where
  | intro {first : Segment} {others : List Segment} {text rest : List Char}
      (hwritten : first.Written text) (hrest : Follows others rest) :
      Rewrites (first :: others) ((if first.each then ['<'] else []) ++ (text ++ rest))

/-- Without brackets is one of the ways. -/
theorem rewrites_plain (first : Segment) (others : List Segment) :
    Rewrites (first :: others) (plain (first :: others)) := by
  refine .intro (.bare (List.Perm.refl _)) ?_
  induction others with
  | nil => exact .nil
  | cons segment rest ih => exact .separated (.bare (List.Perm.refl _)) ih

/-! ### Bodies -/

section Body

variable {text name : List Char} {wildcard : Option Nat} (h : Body text name wildcard)

include h

/-- **A body where a name may begin** is a word. -/
theorem scan_body {draft : Draft} {m : Modifiers} (hblank : draft.item = .blank m) (position : Nat)
    (rest : List Char) :
    Path.scan standard position (text ++ rest) draft =
      Path.scan standard (position + text.length) rest
        { draft with item := .word m name wildcard.toList } := by
  cases h with
  | name hescapes hne => exact Path.scan_escaped_of_blank rfl hescapes hne hblank position rest
  | pattern hbefore hafter => exact Path.scan_starred rfl hbefore hafter hblank position rest

/-- A body is balanced. -/
theorem balanced_body : Balanced text := by
  cases h with
  | name h _ => exact Rendering.balanced_of_escapes h
  | pattern hbefore hafter => exact Rendering.balanced_starred hbefore hafter

end Body

/-- The token of a word at hand. -/
theorem wordToken_toList (name : List Char) (wildcard : Option Nat) (m : Modifiers) (each : Bool) :
    Draft.wordToken m name wildcard.toList each = .ok (tokenOf name wildcard m each) := by
  cases wildcard <;> rfl

/-- **Modifiers and a broadcast in front of a bracket** are merged into the name that it encloses. -/
theorem spliceProperty_tokenOf (name : List Char) (wildcard : Option Nat) (m outer : Modifiers)
    (each : Bool) (position : Nat) :
    Draft.spliceProperty [tokenOf name wildcard m false] outer each position =
      .ok (tokenOf name wildcard (m.merge outer) each) := by
  cases wildcard with
  | some offset => simp [tokenOf, Draft.spliceProperty]
  | none =>
      unfold tokenOf Token.named
      by_cases hm : m = .none
      · rw [hm, Modifiers.none_merge]
        rfl
      · have hmerge : m.merge outer ≠ .none := fun h => hm (Modifiers.eq_none_of_merge h)
        simp [Draft.spliceProperty, hm, hmerge]

/-! ### One segment -/

section Segment

variable (segment : Segment) (before : List Token) (position : Nat) (rest : List Char)

/-- A word at hand that has the modifiers of a segment, and its name, is held as its token. -/
theorem holds_word {roles : List ModifierRole} (h : roles.Perm segment.roles) :
    Draft.Holds
      { tokens := before
        item := .word (.ofRoles roles) segment.name segment.wildcard.toList
        each := segment.each } before segment.token := by
  intro position
  simp only [Draft.take, wordToken_toList, Modifiers.ofRoles_eq_of_perm h]
  rfl

/-- **What is in brackets** compiles to the token of the name with the modifiers in front of it. -/
theorem tokenizeAt_inside (inner : List ModifierRole) :
    Path.tokenizeAt standard position (inner.map mark ++ segment.text) =
      .ok (TokenSet.ofTokens [tokenOf segment.name segment.wildcard (.ofRoles inner) false]) := by
  have hblank : Draft.empty.item = .blank .none := rfl
  have hmarks := Rendering.scan_marks inner hblank position segment.text
  have hinner : Draft.item { item := .blank (.ofRoles inner) } = .blank (.ofRoles inner) := rfl
  have hbody := scan_body segment.body hinner (position + inner.length) []
  rw [List.append_nil, Path.scan_nil] at hbody
  rw [Path.tokenizeAt_eq_scan Dialect.consistent_standard rfl]
  refine (hmarks.trans hbody).trans ?_
  simp only [Draft.finish, Draft.take, wordToken_toList]
  rfl

/-- **A bracket around a body** comes to hand, once the item at hand has ended, as the token of the name with
the modifiers in front of the bracket and the ones inside. -/
theorem scan_bracket {outer inner : List ModifierRole} (h : (outer ++ inner).Perm segment.roles)
    {draft : Draft}
    (hflush : ∀ position, draft.flush position =
      .ok { tokens := before, item := .blank (.ofRoles outer), each := segment.each }) :
    Path.scan standard position
        (enclose .property (inner.map mark ++ segment.text) ++ rest) draft =
      Path.scan standard
        (position + (enclose .property (inner.map mark ++ segment.text)).length) rest
        { tokens := before, item := .closed segment.token } := by
  have hroles : (Modifiers.ofRoles inner).merge (.ofRoles outer) = .ofRoles segment.roles := by
    rw [Modifiers.merge_ofRoles]
    exact Modifiers.ofRoles_eq_of_perm (List.perm_append_comm.trans h)
  have hbalanced := (Rendering.balanced_marks inner).append (balanced_body segment.body)
  refine Rendering.scan_enclose rfl (hbalanced .property rfl)
    (fun position => tokenizeAt_inside segment position inner) hflush (fun position => ?_) position rest
  show Draft.spliceProperty [_] (.ofRoles outer) segment.each position = .ok segment.token
  rw [spliceProperty_tokenOf, hroles]
  rfl

/-- **However a segment is written**, its token is at hand behind it. -/
theorem scan_written {text : List Char} (h : segment.Written text) :
    ∃ next draft, Path.scan standard position (text ++ rest)
        { tokens := before, each := segment.each } = Path.scan standard next rest draft ∧
      draft.Holds before segment.token := by
  cases h with
  | @bare roles hperm =>
      refine ⟨position + roles.length + segment.text.length, _, ?_, holds_word segment before hperm⟩
      rw [List.append_assoc, Rendering.scan_marks roles rfl, scan_body segment.body rfl]
      rfl
  | @bracketed outer inner hperm =>
      have hflush : ∀ position, Draft.flush
          { tokens := before, item := .blank (.ofRoles outer), each := segment.each } position =
            .ok { tokens := before, item := .blank (.ofRoles outer), each := segment.each } :=
        fun _ => rfl
      have hbracket := scan_bracket segment before (position + outer.length) rest hperm hflush
      refine ⟨_, _, Eq.trans ?_ hbracket, fun _ => rfl⟩
      rw [List.append_assoc, Rendering.scan_marks outer rfl]
      rfl

/-- **A bracket right behind a segment** begins the next one, as if a separator of properties were between
them. -/
theorem scan_adjacent {inner : List ModifierRole} (heach : segment.each = false)
    (h : inner.Perm segment.roles) {draft : Draft} {token : Token} (hheld : draft.Holds before token) :
    ∃ next draft', Path.scan standard position
        (enclose .property (inner.map mark ++ segment.text) ++ rest) draft =
          Path.scan standard next rest draft' ∧
      draft'.Holds (before ++ [token]) segment.token := by
  have hperm : ([] ++ inner).Perm segment.roles := h
  refine ⟨_, _, scan_bracket segment (before ++ [token]) position rest hperm ?_, fun _ => rfl⟩
  intro position
  rw [hheld.flush, heach]
  rfl

end Segment

/-! ### All segments -/

/-- A separator of segments. -/
theorem scan_separator (each : Bool) (position : Nat) (rest : List Char) (draft : Draft) :
    Path.scan standard position (separator each :: rest) draft =
      (draft.separateSegments each position).bind fun draft =>
        Path.scan standard (position + 1) rest draft := by
  cases each with
  | false =>
      have hrole : standard.roleOf? '.' = some (.separator .property) := rfl
      exact Rendering.scan_separator hrole position rest draft
  | true =>
      have hrole : standard.roleOf? '<' = some (.separator .each) := rfl
      exact Rendering.scan_separator hrole position rest draft

/-- **Segments behind one that is at hand** are read as their tokens, in order. -/
theorem scan_follows {segments : List Segment} {text : List Char} (h : Follows segments text)
    {draft : Draft} {before : List Token} {token : Token} (hheld : draft.Holds before token)
    (position : Nat) :
    Path.scan standard position text draft =
      .ok (TokenSet.ofTokens (before ++ token :: segments.map Segment.token)) := by
  induction h generalizing draft before token position with
  | nil => rw [Path.scan_nil, hheld.finish, List.map_nil]
  | @separated segment others text rest hwritten _ ih =>
      obtain ⟨next, draft', hscan, hnext⟩ :=
        scan_written segment (before ++ [token]) (position + 1) rest hwritten
      rw [scan_separator, hheld.separateSegments]
      refine (hscan.trans (ih hnext next)).trans ?_
      rw [List.append_assoc, List.singleton_append, List.map_cons]
  | @adjacent segment others inner rest heach hperm _ ih =>
      obtain ⟨next, draft', hscan, hnext⟩ :=
        scan_adjacent segment before position rest heach hperm hheld
      rw [hscan, ih hnext next, List.append_assoc, List.singleton_append, List.map_cons]

/-- **Segments compile to their tokens**, however they are written. -/
theorem tokenize_of_rewrites {segments : List Segment} {text : List Char}
    (h : Rewrites segments text) :
    Path.tokenize standard (String.ofList text) =
      .ok (TokenSet.ofTokens (segments.map Segment.token)) := by
  cases h with
  | @intro first others text rest hwritten hrest =>
      have hfirst : ∀ position, Path.scan standard position (text ++ rest)
          { each := first.each } = .ok (TokenSet.ofTokens ((first :: others).map Segment.token)) := by
        intro position
        obtain ⟨next, draft, hscan, hheld⟩ := scan_written first [] position rest hwritten
        exact hscan.trans (scan_follows hrest hheld next)
      rw [Path.tokenize, String.toList_ofList,
        Path.tokenizeAt_eq_scan Dialect.consistent_standard rfl]
      cases heach : first.each with
      | false =>
          rw [heach] at hfirst
          exact hfirst 0
      | true =>
          rw [heach] at hfirst
          exact (scan_separator true 0 (text ++ rest) .empty).trans (hfirst 1)

end Bracketing

/-- **Brackets around segments do not show in the tokens.**  A path expression of segments compiles to one
token for each of them; and so does every text that the segments may be written as: with brackets around the
bodies of any of them, with any of its modifiers in front of the bracket and the others inside, in any order,
and with or without a separator of properties in front of a bracket. -/
theorem Path.tokenize_bracketed (first : Bracketing.Segment) (others : List Bracketing.Segment) :
    tokenize Dialect.standard (String.ofList (Bracketing.plain (first :: others))) =
        .ok (TokenSet.ofTokens ((first :: others).map Bracketing.Segment.token)) ∧
      ∀ text, Bracketing.Rewrites (first :: others) text →
        tokenize Dialect.standard (String.ofList text) =
          .ok (TokenSet.ofTokens ((first :: others).map Bracketing.Segment.token)) :=
  ⟨Bracketing.tokenize_of_rewrites (Bracketing.rewrites_plain first others),
    fun _ h => Bracketing.tokenize_of_rewrites h⟩

/-- A broadcast of a pattern with an escaped separator, whose modifiers change places around the bracket,
and a name in a bracket right behind it. -/
theorem Path.tokenize_bracketed_adjacent :
    ∃ first others text, String.ofList (Bracketing.plain (first :: others)) = "<^~a\\.b*.x" ∧
      String.ofList text = "<~[^a\\.b*][x]" ∧ Bracketing.Rewrites (first :: others) text ∧
      (first :: others).map Bracketing.Segment.token =
        [.word ⟨"a.b*", { parent := 1, root := true }, some 3, true⟩, .plain "x"] ∧
      tokenize Dialect.standard (String.ofList (Bracketing.plain (first :: others))) =
        .ok (TokenSet.ofTokens ((first :: others).map Bracketing.Segment.token)) ∧
      tokenize Dialect.standard (String.ofList text) =
        .ok (TokenSet.ofTokens ((first :: others).map Bracketing.Segment.token)) := by
  have hbefore : Dialect.standard.Escapes ['a', '.', 'b'] ['a', '\\', '.', 'b'] :=
    .bare rfl (.escaped (.bare rfl .nil))
  have hname : Dialect.standard.Escapes ['x'] ['x'] := .bare rfl .nil
  let first : Bracketing.Segment := ⟨true, [.parent, .root], _, _, _, .pattern hbefore .nil⟩
  let second : Bracketing.Segment := ⟨false, [], _, _, _, .name hname (List.cons_ne_nil 'x' [])⟩
  have hroles : ([ModifierRole.root] ++ [ModifierRole.parent]).Perm first.roles :=
    List.Perm.swap _ _ []
  have hsecond : Bracketing.Follows [second] _ := .adjacent rfl (List.Perm.refl second.roles) .nil
  have hrewrites := Bracketing.Rewrites.intro (.bracketed hroles) hsecond
  obtain ⟨hplain, hbracketed⟩ := tokenize_bracketed first [second]
  exact ⟨first, [second], _, rfl, rfl, hrewrites, rfl, hplain, hbracketed _ hrewrites⟩

end PathExpr
