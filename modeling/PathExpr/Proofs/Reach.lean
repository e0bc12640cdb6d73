import PathExpr.Token.Basic

/-!
# How far tokens look and go on the trail

A resolution keeps a trail of the contexts that it has come through.  Most tokens only add to it.  Three
look at it or change it: a parent modifier takes a context from below the current one, a call takes its
receiver from there, and a root modifier drops everything but the document.  What is said here of
tokens is said of their text alone, before any document is known.

* `Token.occurs` — is there a token of some sort, at any depth?
* `Token.rewinds` — may the token drop contexts that were there before it?
* `Token.looksBelow` — may the token see contexts below some number of them on top?

That number is a static count, which goes along the tokens and not along a trail.  Each token of a sequence
adds one context, its result.  A name that goes back to the document leaves one, the document.  Behind any
other token with a root modifier inside, at whatever depth, the count starts anew: some of the contexts that
were counted may still be on the trail, but it does not say which.  A call counts as looking one down.  So a
token that is said to look below need not do so in every document, and one that is not never does.
-/

namespace PathExpr

/-! ### Tokens as trees -/

/-- **Induction on tokens**: what holds of a collection if it holds of its items, and of a container if
it holds of the tokens it encloses, holds of every token. -/
@[induction_eliminator]
theorem Token.induction {motive : Token → Prop} (plain : ∀ name, motive (.plain name))
    (word : ∀ w, motive (.word w))
    (collection : ∀ items each, (∀ item ∈ items, motive item) → motive (.collection items each))
    (container : ∀ role inner each, (∀ token ∈ inner.tokens, motive token) →
      motive (.container role inner each)) (token : Token) : motive token :=
  Token.rec (motive_1 := motive) (motive_2 := fun tokens => ∀ token ∈ tokens, motive token)
    (motive_3 := fun inner => ∀ token ∈ inner.tokens, motive token)
    plain word collection container (fun _ h => nomatch h)
    (fun _ _ hfirst hrest _ h => (List.mem_cons.mp h).elim (fun heq => heq ▸ hfirst) (hrest _))
    (fun _ _ h => h) token

mutual

/-- **Is there a token of some sort**, at any depth? -/
def Token.occurs (sort : Token → Bool) : Token → Bool
  | .plain name => sort (.plain name)
  | .word w => sort (.word w)
  | .collection items each => sort (.collection items each) || Token.occursAmong sort items
  | .container role inner each =>
      sort (.container role inner each) || Token.occursAmong sort inner.tokens

/-- Is there a token of some sort in any of these, at any depth? -/
def Token.occursAmong (sort : Token → Bool) : List Token → Bool
  | [] => false
  | token :: rest => token.occurs sort || Token.occursAmong sort rest

end

namespace Token

/-- What occurs in none of several tokens does not occur among them. -/
theorem occursAmong_eq_false {sort : Token → Bool} {tokens : List Token} :
    occursAmong sort tokens = false ↔ ∀ token ∈ tokens, token.occurs sort = false := by
  induction tokens with
  | nil => simp [occursAmong]
  | cons token rest ih => rw [occursAmong, Bool.or_eq_false_iff, ih, List.forall_mem_cons]

/-! ### Broadcasts -/

/-- Is the token applied to every element of its context? -/
def each : Token → Bool
  | .plain _ => false
  | .word w => w.each
  | .collection _ each => each
  | .container _ _ each => each

/-- **The token without its broadcast**: what is applied to every element. -/
def single : Token → Token
  | .plain name => .plain name
  | .word w => .word { w with each := false }
  | .collection items _ => .collection items false
  | .container role inner _ => .container role inner false

/-- A token without a broadcast stays as it is without. -/
theorem single_of_not_each {token : Token} (h : token.each = false) : token.single = token := by
  cases token with
  | plain name => rfl
  | word w =>
      cases w
      cases h
      rfl
  | collection items each =>
      cases h
      rfl
  | container role inner each =>
      cases h
      rfl

/-! ### Going back to the document -/

/-- Is the token a name with a root modifier? -/
def isRooted : Token → Bool
  | .word w => w.modifiers.root
  | _ => false

/-- **Is there a root modifier**, at any depth? -/
def rewinds (token : Token) : Bool := token.occurs isRooted

/-- Is there a root modifier in any of these tokens, at any depth? -/
def anyRewinds (tokens : List Token) : Bool := occursAmong isRooted tokens

theorem rewinds_word (w : Word) : (Token.word w).rewinds = w.modifiers.root := rfl

theorem rewinds_collection (items : List Token) (each : Bool) :
    (collection items each).rewinds = anyRewinds items := Bool.false_or _

theorem rewinds_container (role : ContainerRole) (inner : TokenSet) (each : Bool) :
    (container role inner each).rewinds = anyRewinds inner.tokens := Bool.false_or _

theorem rewinds_single (token : Token) : token.single.rewinds = token.rewinds := by
  cases token <;> rfl

theorem anyRewinds_eq_false {tokens : List Token} :
    anyRewinds tokens = false ↔ ∀ token ∈ tokens, token.rewinds = false := occursAmong_eq_false

theorem anyRewinds_of_mem {tokens : List Token} {token : Token} (hmem : token ∈ tokens)
    (h : token.rewinds = true) : anyRewinds tokens = true := by
  cases hany : anyRewinds tokens with
  | true => rfl
  | false =>
      rw [anyRewinds_eq_false.mp hany token hmem] at h
      cases h

/-! ### Looking down the trail -/

/-- Of the contexts known on top, how many still are when a token is done with: all of them, unless
contexts may have been dropped. -/
def kept (token : Token) (own : Nat) : Nat := if token.rewinds then 0 else own

theorem kept_le (token : Token) (own : Nat) : token.kept own ≤ own := by
  unfold kept
  split <;> omega

/-- Either no contexts are known any more, or none have been dropped. -/
theorem kept_eq_zero_or (token : Token) (own : Nat) :
    token.kept own = 0 ∨ token.rewinds = false := by
  cases h : token.rewinds with
  | true => exact .inl (if_pos h)
  | false => exact .inr rfl

/-- How many contexts are known on top where the token is applied: on top of an element, if it is
applied to each element. -/
def within (token : Token) (own : Nat) : Nat := if token.each then token.kept own + 1 else own

/-- How many contexts are known on top where the result of a token is put. A name that starts at the
document leaves the document, and nothing is unknown below that; behind any other token with a root
modifier, at any depth, none is. -/
def known (token : Token) (own : Nat) : Nat :=
  match token with
  | .word w => if w.modifiers.root && !w.each then 1 else token.kept own
  | _ => token.kept own

end Token

mutual

/-- **May the token see contexts below those on top** of which `own` are counted?  A parent modifier sees
the context as many levels down as it counts, the current one being the first on top; a call sees the
one below what is called, so it looks one down. -/
def Token.looksBelow : Token → Nat → Bool
  | .plain _, _ => false
  | .word w, own =>
      decide (0 < w.modifiers.parent) && decide ((Token.word w).within own ≤ w.modifiers.parent)
  | .collection items each, own =>
      Token.itemsLookBelow items ((Token.collection items each).within own)
  | .container role inner each, own =>
      decide (role = .call ∧ (Token.container role inner each).within own < 2) ||
        Token.sequenceLooksBelow inner.tokens ((Token.container role inner each).within own)

/-- **May tokens in sequence see contexts below?** Each of them adds a context for the next, to those that
it leaves known. -/
def Token.sequenceLooksBelow : List Token → Nat → Bool
  | [], _ => false
  | token :: rest, own =>
      token.looksBelow own || Token.sequenceLooksBelow rest (token.known own + 1)

/-- May items side by side see contexts below? None of them adds a context for the next. -/
def Token.itemsLookBelow : List Token → Nat → Bool
  | [], _ => false
  | item :: rest, own => item.looksBelow own || Token.itemsLookBelow rest (item.kept own)

end

/-- A broadcast looks down the trail from where it is applied. -/
theorem Token.looksBelow_single (token : Token) (own : Nat) :
    token.single.looksBelow (token.within own) = token.looksBelow own := by
  cases token <;> rfl

/-! ### Tokens that do not look down the trail at all -/

namespace Token

/-- Does the token itself look down the trail? Names with a parent modifier do, and calls. -/
def looksDown : Token → Bool
  | .word w => decide (0 < w.modifiers.parent)
  | .container .call _ _ => true
  | _ => false

/-- Does the token itself look at anything but its context: down the trail, or at the document? -/
def looksAway (token : Token) : Bool := token.looksDown || token.isRooted

/-- If none of several tokens sees contexts below any number of them, neither do they in sequence. -/
theorem sequenceLooksBelow_of_forall {tokens : List Token}
    (h : ∀ token ∈ tokens, ∀ own, token.looksBelow own = false) (own : Nat) :
    sequenceLooksBelow tokens own = false := by
  induction tokens generalizing own with
  | nil => rfl
  | cons token rest ih =>
      obtain ⟨htoken, hrest⟩ := List.forall_mem_cons.mp h
      rw [sequenceLooksBelow, htoken own, Bool.false_or]
      exact ih hrest _

/-- If none of several items sees contexts below any number of them, neither do they side by side. -/
theorem itemsLookBelow_of_forall {items : List Token}
    (h : ∀ item ∈ items, ∀ own, item.looksBelow own = false) (own : Nat) :
    itemsLookBelow items own = false := by
  induction items generalizing own with
  | nil => rfl
  | cons item rest ih =>
      obtain ⟨hitem, hrest⟩ := List.forall_mem_cons.mp h
      rw [itemsLookBelow, hitem own, Bool.false_or]
      exact ih hrest _

/-- **Without a parent modifier and a call**, at any depth, a token does not see the trail. -/
theorem looksBelow_of_occurs {token : Token} (h : token.occurs looksDown = false) (own : Nat) :
    token.looksBelow own = false := by
  induction token generalizing own with
  | plain name => rfl
  | word w =>
      have hparent : decide (0 < w.modifiers.parent) = false := h
      rw [looksBelow, hparent, Bool.false_and]
  | collection items each ih =>
      rw [occurs, Bool.or_eq_false_iff] at h
      obtain ⟨-, hitems⟩ := h
      exact itemsLookBelow_of_forall
        (fun item hitem => ih item hitem (occursAmong_eq_false.mp hitems item hitem)) _
  | container role inner each ih =>
      rw [occurs, Bool.or_eq_false_iff] at h
      obtain ⟨hself, hinner⟩ := h
      have hcall : role ≠ .call := by
        rintro rfl
        cases hself
      rw [looksBelow, decide_eq_false fun hboth => hcall hboth.1, Bool.false_or]
      exact sequenceLooksBelow_of_forall
        (fun token htoken => ih token htoken (occursAmong_eq_false.mp hinner token htoken)) _

/-- Tokens in sequence do not see the trail without a parent modifier and a call. -/
theorem sequenceLooksBelow_of_occursAmong {tokens : List Token}
    (h : occursAmong looksDown tokens = false) (own : Nat) :
    sequenceLooksBelow tokens own = false :=
  sequenceLooksBelow_of_forall
    (fun token htoken => looksBelow_of_occurs (occursAmong_eq_false.mp h token htoken)) own

end Token

end PathExpr
