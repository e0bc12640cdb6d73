import PathExpr.Path.Tokenize

/-!
# What compiles is well formed

The compiler never makes a token that says nothing, or a container that could have been resolved on the
spot, and it never breaks the promise of a flag.  The invariant that carries this is one of the draft
(`Draft.WellFormed`): its tokens are well formed, those of its open collection as well, the token of a
closed container that is at hand too, and the wildcards of a word at hand stand where they are said to.
Every operation of a draft keeps it, so the scanner does, whatever the dialect
(`Path.wellFormed_of_scan`).

What a container encloses is compiled first, to a set that is well formed by induction on the length of
the text; `Draft.containerToken` makes a well formed token of it.
-/

namespace PathExpr

/-! ### Tokens -/

namespace Token

theorem allWellFormed_iff {tokens : List Token} :
    AllWellFormed tokens ↔ ∀ token ∈ tokens, token.WellFormed := by
  induction tokens with
  | nil => simp [AllWellFormed]
  | cons token rest ih => rw [AllWellFormed, ih, List.forall_mem_cons]

/-- A name with what stands in front of it is well formed. -/
theorem wellFormed_named (name : String) (modifiers : Modifiers) (each : Bool) :
    (named name modifiers each).WellFormed := by
  unfold named
  split
  · trivial
  · next h =>
      refine ⟨?_, fun offset hoffset => nomatch hoffset⟩
      by_cases hmodifiers : modifiers = .none
      · have heach : each = true := by simpa [hmodifiers] using h
        exact .inr (.inr heach)
      · exact .inl hmodifiers

/-- More modifiers and a broadcast in front of it leave a word well formed. -/
theorem wellFormed_word_add {w : Word} (h : w.WellFormed) (modifiers : Modifiers) (each : Bool) :
    (word { w with modifiers := w.modifiers.merge modifiers, each := w.each || each }).WellFormed := by
  obtain ⟨hcontent, hwildcard⟩ := h
  refine ⟨?_, hwildcard⟩
  rcases hcontent with hmodifiers | hstar | heach
  · exact .inl fun hnone => hmodifiers (Modifiers.eq_none_of_merge hnone)
  · exact .inr (.inl hstar)
  · exact .inr (.inr (by simp [heach]))

end Token

/-- Well formed tokens make a well formed set. -/
theorem TokenSet.wellFormed_ofTokens {tokens : List Token}
    (h : ∀ token ∈ tokens, token.WellFormed) : (ofTokens tokens).WellFormed :=
  ⟨rfl, Token.allWellFormed_iff.mpr h⟩

/-! ### Drafts -/

/-- **A wildcard in place**: the text has the wildcard character there, behind whole characters. -/
def StarAt (text : List Char) (offset : Nat) : Prop :=
  ∃ before after : List Char, text = before ++ wildcardMark :: after ∧
    (String.ofList before).utf8ByteSize = offset

/-- Text behind it leaves a wildcard in place. -/
theorem StarAt.append {text : List Char} {offset : Nat} (h : StarAt text offset)
    (more : List Char) : StarAt (text ++ more) offset := by
  obtain ⟨before, after, rfl, hsize⟩ := h
  exact ⟨before, after ++ more, by simp, hsize⟩

/-- **The invariant of an item at hand.** -/
def Item.WellFormed : Item → Prop
  | .blank _ => True
  | .word _ text stars => ∀ offset ∈ stars, StarAt text offset
  | .closed token => token.WellFormed

namespace Draft

/-- **The invariant of a draft.** -/
structure WellFormed (draft : Draft) : Prop where
  tokens : ∀ token ∈ draft.tokens, token.WellFormed
  items : ∀ token ∈ draft.items, token.WellFormed
  item : draft.item.WellFormed

theorem wellFormed_empty : WellFormed .empty where
  tokens _ h := nomatch h
  items _ h := nomatch h
  item := trivial

namespace WellFormed

variable {draft next : Draft} {token : Token} {position : Nat}

theorem letter (h : draft.WellFormed) {c : Char} (hnext : draft.letter c position = .ok next) :
    next.WellFormed := by
  have hitem := h.item
  unfold Draft.letter at hnext
  split at hnext
  · cases hnext
    exact ⟨h.tokens, h.items, fun _ hoffset => nomatch hoffset⟩
  · next modifiers text stars hword =>
      cases hnext
      rw [hword] at hitem
      exact ⟨h.tokens, h.items, fun offset hoffset => (hitem offset hoffset).append [c]⟩
  · cases hnext

theorem star (h : draft.WellFormed) (hnext : draft.star position = .ok next) : next.WellFormed := by
  have hitem := h.item
  unfold Draft.star at hnext
  split at hnext
  · cases hnext
    refine ⟨h.tokens, h.items, fun offset hoffset => ?_⟩
    rw [List.mem_singleton.mp hoffset]
    exact ⟨[], [], rfl, rfl⟩
  · next modifiers text stars hword =>
      cases hnext
      rw [hword] at hitem
      refine ⟨h.tokens, h.items, fun offset hoffset => ?_⟩
      rcases List.mem_append.mp hoffset with hold | hnew
      · exact (hitem offset hold).append [wildcardMark]
      · rw [List.mem_singleton.mp hnew]
        exact ⟨text, [], rfl, rfl⟩
  · cases hnext

theorem modifier (h : draft.WellFormed) {role : ModifierRole} {c : Char}
    (hnext : draft.modifier role c position = .ok next) : next.WellFormed := by
  unfold Draft.modifier at hnext
  split at hnext
  · cases hnext
    exact ⟨h.tokens, h.items, trivial⟩
  · exact h.letter hnext

/-- Every finished word is well formed. -/
theorem of_wordToken {modifiers : Modifiers} {text : List Char} {stars : List Nat} {each : Bool}
    (hstars : ∀ offset ∈ stars, StarAt text offset)
    (h : wordToken modifiers text stars each = .ok token) : token.WellFormed := by
  unfold wordToken at h
  split at h
  · cases h
    exact Token.wellFormed_named _ _ _
  · next offset =>
      cases h
      refine ⟨.inr (.inl (Option.some_ne_none offset)), fun other hother => ?_⟩
      cases hother
      obtain ⟨before, after, rfl, hsize⟩ := hstars offset List.mem_cons_self
      exact ⟨before, after, rfl, hsize⟩
  · cases h

/-- **What is taken is well formed**, and so is what stays. -/
theorem take (h : draft.WellFormed) {taken : Option Token}
    (hnext : draft.take position = .ok (taken, next)) :
    next.WellFormed ∧ ∀ token ∈ taken, token.WellFormed := by
  have hitem := h.item
  unfold Draft.take at hnext
  split at hnext
  · next token hclosed =>
      cases hnext
      rw [hclosed] at hitem
      refine ⟨⟨h.tokens, h.items, trivial⟩, fun other hother => ?_⟩
      cases hother
      exact hitem
  · next modifiers text stars hword =>
      rw [hword] at hitem
      cases hmade : wordToken modifiers text stars draft.each with
      | error fault =>
          rw [hmade] at hnext
          cases hnext
      | ok token =>
          rw [hmade] at hnext
          cases hnext
          refine ⟨⟨h.tokens, h.items, trivial⟩, fun other hother => ?_⟩
          cases hother
          exact of_wordToken hitem hmade
  · split at hnext
    · cases hnext
      exact ⟨h, fun other hother => nomatch hother⟩
    · cases hnext

/-- A finished item completes the open collection, which then has two items at least. -/
theorem emit (h : draft.WellFormed) (htoken : token.WellFormed) : (draft.emit token).WellFormed := by
  have hlast : ∀ other ∈ [token], other.WellFormed := List.forall_mem_singleton.mpr htoken
  unfold Draft.emit
  split
  · exact ⟨List.forall_mem_append.mpr ⟨h.tokens, hlast⟩, h.items, h.item⟩
  · next hne =>
      have hlength := List.length_pos_iff.mpr hne
      have hitems := List.forall_mem_append.mpr ⟨h.items, hlast⟩
      have hcollection :
          (Token.collection (draft.items ++ [token]) draft.itemsEach).WellFormed := by
        refine ⟨?_, Token.allWellFormed_iff.mpr hitems⟩
        rw [List.length_append, List.length_singleton]
        omega
      refine ⟨?_, fun other hother => (nomatch hother), h.item⟩
      exact List.forall_mem_append.mpr ⟨h.tokens, List.forall_mem_singleton.mpr hcollection⟩

theorem separateItems (h : draft.WellFormed) (hnext : draft.separateItems position = .ok next) :
    next.WellFormed := by
  have hopened : WellFormed (if draft.items.isEmpty then
      { draft with itemsEach := draft.each, each := false } else draft) := by
    split
    · exact ⟨h.tokens, h.items, h.item⟩
    · exact h
  unfold Draft.separateItems at hnext
  dsimp only at hnext
  generalize (if draft.items.isEmpty then
    { draft with itemsEach := draft.each, each := false } else draft) = opened at hopened hnext
  split at hnext
  · cases hnext
  · next token rest htake =>
      cases hnext
      obtain ⟨hrest, htoken⟩ := hopened.take htake
      have hlast : ∀ other ∈ [token], other.WellFormed :=
        List.forall_mem_singleton.mpr (htoken token rfl)
      exact ⟨hrest.tokens, List.forall_mem_append.mpr ⟨hrest.items, hlast⟩, hrest.item⟩
  · cases hnext

theorem separateSegments (h : draft.WellFormed) {each : Bool}
    (hnext : draft.separateSegments each position = .ok next) : next.WellFormed := by
  unfold Draft.separateSegments at hnext
  split at hnext
  · cases hnext
  · next token rest htake =>
      cases hnext
      obtain ⟨hrest, htoken⟩ := h.take htake
      have hemit := hrest.emit (htoken token rfl)
      exact ⟨hemit.tokens, hemit.items, hemit.item⟩
  · next rest htake =>
      have hrest := (h.take htake).1
      split at hnext
      · cases hnext
        exact ⟨hrest.tokens, hrest.items, hrest.item⟩
      · cases hnext

theorem separate (h : draft.WellFormed) {role : SeparatorRole}
    (hnext : draft.separate role position = .ok next) : next.WellFormed := by
  cases role with
  | collection => exact h.separateItems hnext
  | property => exact h.separateSegments hnext
  | each => exact h.separateSegments hnext

theorem flush (h : draft.WellFormed) (hnext : draft.flush position = .ok next) :
    next.WellFormed := by
  unfold Draft.flush at hnext
  split at hnext
  · cases hnext
    exact h
  · split at hnext
    · cases hnext
    · next token rest htake =>
        cases hnext
        obtain ⟨hrest, htoken⟩ := h.take htake
        exact hrest.emit (htoken token rfl)
    · next rest htake =>
        cases hnext
        exact (h.take htake).1

theorem hold (h : draft.WellFormed) (htoken : token.WellFormed) : (draft.hold token).WellFormed :=
  ⟨h.tokens, h.items, htoken⟩

theorem finish (h : draft.WellFormed) {set : TokenSet} (hset : draft.finish position = .ok set) :
    set.WellFormed := by
  unfold Draft.finish at hset
  split at hset
  · cases hset
  · next token rest htake =>
      cases hset
      obtain ⟨hrest, htoken⟩ := h.take htake
      exact TokenSet.wellFormed_ofTokens (hrest.emit (htoken token rfl)).tokens
  · split at hset
    · cases hset
      exact TokenSet.wellFormed_ofTokens fun _ hmem => nomatch hmem
    · cases hset

end WellFormed

/-! ### Containers -/

section Containers

variable {modifiers : Modifiers} {each : Bool} {position : Nat} {token : Token}

/-- **What is spliced in for a property container is well formed**: of one token what it was, with more
in front, and else a container of two tokens at least. -/
theorem wellFormed_spliceProperty {inner : List Token} (hinner : ∀ token ∈ inner, token.WellFormed)
    (h : spliceProperty inner modifiers each position = .ok token) : token.WellFormed := by
  unfold spliceProperty at h
  split at h
  · cases h
  · cases h
    exact Token.wellFormed_named _ _ _
  · next w =>
      cases h
      have hword : (Token.word w).WellFormed := hinner _ List.mem_cons_self
      exact Token.wellFormed_word_add hword modifiers each
  · next items itemsEach =>
      split at h
      · cases h
        exact hinner (.collection items itemsEach) List.mem_cons_self
      · cases h
  · next role set innerEach =>
      split at h
      · cases h
        exact hinner (.container role set innerEach) List.mem_cons_self
      · cases h
  · next hnil hplain hword hcollection hcontainer =>
      split at h
      · cases h
        refine ⟨?_, rfl, Token.allWellFormed_iff.mpr hinner⟩
        match inner with
        | [] => exact absurd rfl hnil
        | [token] =>
            cases token with
            | plain name => exact absurd rfl (hplain name)
            | word w => exact absurd rfl (hword w)
            | collection items itemsEach => exact absurd rfl (hcollection items itemsEach)
            | container role set innerEach => exact absurd rfl (hcontainer role set innerEach)
        | _ :: _ :: _ => simp
      · cases h

/-- **A container of a well formed set is well formed.** -/
theorem wellFormed_containerToken {role : ContainerRole} (hquote : role.isQuote = false)
    {inner : TokenSet} (hinner : inner.WellFormed)
    (h : containerToken role inner modifiers each position = .ok token) : token.WellFormed := by
  have htokens := Token.allWellFormed_iff.mp hinner.2
  cases role with
  | property => exact wellFormed_spliceProperty htokens h
  | evalProperty =>
      simp only [containerToken] at h
      split at h
      · cases h
      · next hempty =>
          split at h
          · cases h
            exact ⟨List.length_pos_iff.mpr (by simpa using hempty), hinner⟩
          · cases h
  | call =>
      simp only [containerToken] at h
      split at h
      · cases h
        exact ⟨trivial, hinner⟩
      · cases h
  | _ => cases hquote

end Containers

end Draft

namespace Path

/-- What a step and the rest of a scan give, the rest gives from where the step leads. -/
theorem exists_of_bind_eq_ok {α β : Type} {step : Except SyntaxError α}
    {rest : α → Except SyntaxError β} {result : β} (h : step.bind rest = .ok result) :
    ∃ next, step = .ok next ∧ rest next = .ok result := by
  cases step with
  | error fault => cases h
  | ok next => exact ⟨next, rfl, h⟩

/-- A run of names is well formed, so both routes make well formed sets if the long one does. -/
theorem wellFormed_of_tokenizeAt {dialect : Dialect} {position : Nat} {text : List Char}
    (hscan : ∀ {set}, scan dialect position text .empty = .ok set → set.WellFormed) {set : TokenSet}
    (h : tokenizeAt dialect position text = .ok set) : set.WellFormed := by
  unfold tokenizeAt shortcut? at h
  by_cases hsimple : dialect.isSimplePath text = true
  · rw [if_pos hsimple] at h
    cases hsplit : Segments.split dialect.property position text with
    | error fault =>
        rw [hsplit] at h
        cases h
    | ok names =>
        rw [hsplit] at h
        cases h
        refine TokenSet.wellFormed_ofTokens fun token hmem => ?_
        obtain ⟨name, -, rfl⟩ := List.mem_map.mp hmem
        trivial
  · rw [if_neg hsimple] at h
    exact hscan h

/-- **The scanner makes well formed sets**, if it starts with a well formed draft. -/
theorem wellFormed_of_scan {dialect : Dialect} {position : Nat} {text : List Char} {draft : Draft}
    (hdraft : draft.WellFormed) {set : TokenSet} (h : scan dialect position text draft = .ok set) :
    set.WellFormed := by
  -- The cases are those of the scanner; what a container encloses is scanned by itself.
  induction position, text, draft using scan.induct dialect generalizing set with
  | case1 position draft =>
      rw [scan_nil] at h
      exact hdraft.finish h
  | case2 position draft =>
      rw [scan_trailingEscape] at h
      cases h
  | case3 position draft c rest ih =>
      rw [scan_escape] at h
      obtain ⟨next, hnext, hrest⟩ := exists_of_bind_eq_ok h
      exact ih next (hdraft.letter hnext) hrest
  | case4 position draft rest hescape ih =>
      rw [scan_star] at h
      obtain ⟨next, hnext, hrest⟩ := exists_of_bind_eq_ok h
      exact ih next (hdraft.star hnext) hrest
  | case5 position draft c rest hescape hwildcard hrole ih =>
      rw [scan_letter hescape hwildcard hrole] at h
      obtain ⟨next, hnext, hrest⟩ := exists_of_bind_eq_ok h
      exact ih next (hdraft.letter hnext) hrest
  | case6 position draft c rest hescape hwildcard role hrole ih =>
      rw [scan_modifier hescape hwildcard hrole] at h
      obtain ⟨next, hnext, hrest⟩ := exists_of_bind_eq_ok h
      exact ih next (hdraft.modifier hnext) hrest
  | case7 position draft c rest hescape hwildcard role hrole ih =>
      rw [scan_separator hescape hwildcard hrole] at h
      obtain ⟨next, hnext, hrest⟩ := exists_of_bind_eq_ok h
      exact ih next (hdraft.separate hnext) hrest
  | case8 position draft c rest hescape hwildcard role hrole =>
      rw [scan_closer hescape hwildcard hrole] at h
      cases h
  | case9 position draft c rest hescape hwildcard role closer hrole failed hcontents =>
      rw [scan_opener hescape hwildcard hrole, hcontents] at h
      cases h
  | case10 position draft c rest hescape hwildcard role closer hrole found hcontents ihinner ihrest =>
      rw [scan_opener hescape hwildcard hrole, hcontents] at h
      change (draft.flush position).bind _ = _ at h
      obtain ⟨flushed, hflush, hflushed⟩ := exists_of_bind_eq_ok h
      obtain ⟨token, hmade, hrest⟩ := exists_of_bind_eq_ok hflushed
      refine ihrest flushed token ((hdraft.flush hflush).hold ?_) hrest
      cases hquote : role.isQuote with
      | true =>
          rw [hquote, if_pos rfl] at hmade
          cases hmade
          exact Token.wellFormed_named _ _ _
      | false =>
          rw [hquote, if_neg Bool.false_ne_true] at hmade
          obtain ⟨inner, hinner, hcontainer⟩ := exists_of_bind_eq_ok hmade
          refine Draft.wellFormed_containerToken hquote ?_ hcontainer
          exact wellFormed_of_tokenizeAt (ihinner Draft.wellFormed_empty) hinner

/-- **What compiles is well formed**, in every dialect. -/
theorem wellFormed_of_tokenize {dialect : Dialect} {path : String} {set : TokenSet}
    (h : tokenize dialect path = .ok set) : set.WellFormed :=
  wellFormed_of_tokenizeAt (wellFormed_of_scan Draft.wellFormed_empty) h

end Path

end PathExpr
