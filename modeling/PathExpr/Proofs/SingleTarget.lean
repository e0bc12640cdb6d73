import PathExpr.Proofs.Pointwise

/-!
# Failed writes with one target

A write that may not make objects changes the document in one place of the interpreter only, where the
last token assigns.  Everything before that reads: the tokens that lead there, the tokens of a computed
name, and those that brackets hold in front of their last.  So if the last token has one target, at most
one assignment is made, and nothing comes after it that could fail.

`Token.SingleTarget` says which tokens these are.  A walk is *atomic* if it leaves the document as it was
whenever it fails (`Walk.Atomic`).  An assignment is, and so is a walk that reads first and then is
atomic (`Walk.Reads.bind_atomic`); this goes down the brackets by induction (`step_write_atomic`).
-/

namespace PathExpr

open Resolve

/-! ### Tokens with one target -/

/-- **The word names one member**: it is not applied to elements, and there is no wildcard in it, nor in
the argument that it may take its name from. -/
structure Word.SingleTarget (env : Env) (w : Word) : Prop where
  not_each : w.each = false
  no_wildcard : w.wildcard = none
  no_mark : w.modifiers.placeholder = true →
    ∀ key, env.placeholder w.name = .ok key → wildcardMark ∉ key.toList

/-- **Tokens that write to one target at most.** Of tokens in brackets the last one decides. -/
inductive Token.SingleTarget (env : Env) : Token → Prop where
  | plain (name : String) : SingleTarget env (.plain name)
  | word {w : Word} (h : w.SingleTarget env) : SingleTarget env (.word w)
  | call (inner : TokenSet) : SingleTarget env (.container .call inner false)
  | computed (inner : TokenSet) : SingleTarget env (.container .evalProperty inner false)
  | empty {inner : TokenSet} (h : inner.tokens = []) :
      SingleTarget env (.container .property inner false)
  | brackets {inner : TokenSet} {first : List Token} {last : Token}
      (h : inner.tokens = first ++ [last]) (hlast : last.SingleTarget env) :
      SingleTarget env (.container .property inner false)

namespace Resolve

/-- A word that names one member is no pattern. -/
theorem ofWord?_of_singleTarget {env : Env} {w : Word} (h : w.SingleTarget env) {name : String}
    (hname : env.wordName w = .ok name) : Glob.ofWord? w name = .ok none := by
  unfold Glob.ofWord?
  unfold Env.wordName at hname
  split at hname
  · next hplaceholder =>
      have hmark := h.no_mark hplaceholder name hname
      rw [if_pos hplaceholder, if_neg (by simpa using hmark)]
  · next hplaceholder => rw [if_neg hplaceholder, h.no_wildcard]

/-! ### Walks that fail without a trace -/

/-- **A walk that fails leaves the document** of the reads before it. -/
def Walk.Atomic {α : Type} (document : Value) (walk : Walk α) : Prop :=
  ∀ s, s.Sound document → ∀ fault, (walk s).1 = .error fault → (walk s).2.document = document

namespace Walk

variable {α β : Type} {document : Value} {post : α → Prop}

/-- What is read before a walk does not count. -/
theorem Reads.bind_atomic {walk : Walk α} {next : α → Walk β} (hwalk : walk.Reads document post)
    (hnext : ∀ a, post a → (next a).Atomic document) : (walk >>= next).Atomic document := by
  intro s hs fault hfault
  obtain ⟨hsound, hpost⟩ := hwalk s hs
  rcases h : walk s with ⟨early | a, t⟩ <;> rw [h] at hsound hpost
  · rw [bind_of_error h]
    exact hsound.document_eq
  · rw [bind_of_ok h] at hfault ⊢
    exact hnext a (hpost a rfl) t hsound fault hfault

/-- What cannot fail may come after a walk. -/
theorem Atomic.bind_of_ok {walk : Walk α} {next : α → Walk β} (hwalk : walk.Atomic document)
    (hnext : ∀ a s, ∃ b, (next a s).1 = .ok b) : (walk >>= next).Atomic document := by
  intro s hs fault hfault
  rcases h : walk s with ⟨early | a, t⟩
  · rw [bind_of_error h]
    have hdocument := hwalk s hs early (congrArg Prod.fst h)
    rwa [h] at hdocument
  · obtain ⟨b, hb⟩ := hnext a t
    rw [Walk.bind_of_ok h, hb] at hfault
    cases hfault

theorem Atomic.enclosed {walk : Walk α} (h : walk.Atomic document) :
    (enclosed walk).Atomic document := h

theorem atomic_pure (a : α) : (pure a : Walk α).Atomic document := fun _ _ _ h => nomatch h

theorem atomic_fail (fault : PathError) : (fail fault : Walk α).Atomic document :=
  fun _ hs _ _ => hs.document_eq

/-- **An assignment that is refused has changed nothing.** -/
theorem atomic_assign (focus : Focus) (name : String) (value : Value) :
    (assign focus name value).Atomic document := by
  intro s hs fault hfault
  cases focus with
  | place path =>
      simp only [assign] at hfault ⊢
      cases hset : s.document.setChildAt path name value with
      | ok changed =>
          rw [hset] at hfault
          cases hfault
      | error refused => exact hs.document_eq
  | _ => exact hs.document_eq

end Walk

/-! ### Writes -/

section Writes

variable {env : Env} {document value : Value} {focus : Focus}

/-- To write under a name that is no pattern is to assign once. -/
theorem word_write_atomic {w : Word} (h : w.SingleTarget env) (hfocus : focus.Standing document)
    (create : Bool) : (word env w (.write value) create focus).Atomic document := by
  refine (origin_reads hfocus w.modifiers).bind_atomic fun found hfound => ?_
  cases w.modifiers.context with
  | true => exact Walk.atomic_fail _
  | false =>
      refine (Walk.reads_ofExcept fun name hname => hname).bind_atomic fun name hname => ?_
      rw [ofWord?_of_singleTarget h hname]
      exact Walk.atomic_assign found name value

/-- **Tokens in sequence are atomic if the last one is**, as long as no objects are made on the way. -/
theorem advance_write_atomic (hforce : env.force = false) (first : List Token) {last : Token}
    (hlast : ∀ {focus : Focus}, focus.Standing document →
      (step env last (.write value) false focus).Atomic document)
    (hfocus : focus.Standing document) :
    (advance env (first ++ [last]) (.write value) false focus).Atomic document := by
  rw [advance_append env first (List.cons_ne_nil last []), hforce]
  refine (advance_reads env first hfocus).bind_atomic fun found hfound => ?_
  rw [advance_singleton]
  exact (hlast hfound).bind_of_ok fun result s => ⟨result, rfl⟩

/-- **To write through a token with one target is atomic**, as long as no objects are made. -/
theorem step_write_atomic (hforce : env.force = false) {token : Token} (h : token.SingleTarget env)
    (hfocus : focus.Standing document) :
    (step env token (.write value) false focus).Atomic document := by
  induction h generalizing focus with
  | plain name => exact Walk.atomic_assign focus name value
  | @word w h =>
      rw [step_word, h.not_each]
      exact word_write_atomic h hfocus false
  | call inner => exact Walk.atomic_fail _
  | computed inner =>
      refine (advance_reads env inner.tokens hfocus).enclosed.bind_atomic fun found _ => ?_
      refine (computedName_reads found).bind_atomic fun name _ => ?_
      exact Walk.atomic_assign focus name value
  | @empty inner h =>
      have hstep : step env (.container .property inner false) (.write value) false focus =
          Walk.enclosed (advance env inner.tokens (.write value) false focus) := rfl
      rw [hstep, h]
      exact (Walk.atomic_pure focus).enclosed
  | @brackets inner first last h _ ih =>
      have hstep : step env (.container .property inner false) (.write value) false focus =
          Walk.enclosed (advance env inner.tokens (.write value) false focus) := rfl
      rw [hstep, h]
      exact (advance_write_atomic hforce first ih hfocus).enclosed

end Writes

/-- **A write with one target that fails leaves the document as it was**, if it may not make objects on
its way. -/
theorem failed_single_write_leaves_document {env : Env} (hforce : env.force = false)
    (first : List Token) {last : Token} (hlast : last.SingleTarget env) {value document : Value}
    {fault : PathError}
    (h : (write env (first ++ [last]) value document).outcome = .error fault) :
    (write env (first ++ [last]) value document).document = document := by
  rw [write_eq_advance env (by simp)] at h ⊢
  have hatomic : (advance env (first ++ [last]) (.write value) false .root).Atomic document :=
    advance_write_atomic hforce first (fun hfocus => step_write_atomic hforce hlast hfocus)
      (Focus.standing_root document)
  refine hatomic _ (State.sound_start document) fault ?_
  cases hresult : (advance env (first ++ [last]) (.write value) false .root (.start document)).1 with
  | error early =>
      rw [hresult] at h
      cases h
      rfl
  | ok found =>
      rw [hresult] at h
      cases h

/-- One of all members, and behind it, in brackets, a number, in which a computed name is assigned. -/
theorem failed_single_write_crossroads :
    let first : List Token := [.word ⟨"*", {}, some 0, false⟩, .plain "0"]
    let last : Token := .container .property
      (TokenSet.ofTokens [.plain "y", .container .evalProperty detour false]) false
    Env.bare.force = false ∧ last.SingleTarget .bare ∧
      (write .bare (first ++ [last]) .null crossroads).outcome =
        .error (.assignment (.member "n" .integer)) ∧
      (write .bare (first ++ [last]) .null crossroads).document = crossroads := by
  intro first last
  have hlast : last.SingleTarget .bare :=
    @Token.SingleTarget.brackets .bare _ [.plain "y"] _ rfl (.computed detour)
  have hfault : (write .bare (first ++ [last]) .null crossroads).outcome =
      .error (.assignment (.member "n" .integer)) := rfl
  exact ⟨rfl, hlast, hfault, failed_single_write_leaves_document rfl first hlast hfault⟩

end Resolve

end PathExpr
