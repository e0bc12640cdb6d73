import Mathlib.Data.List.Induction
import PathExpr.Proofs.Acceptance
import PathExpr.Proofs.Transparency

/-!
# The way back from a simple dialect

A session that enters a simple dialect keeps the one before it, and returns to that one when it leaves.
It may enter a simple dialect again from a simple one, and any other change leaves a simple dialect
without a return; what is kept then is stale, and stays so until the next entry.

What one request can do to the dialect in use and the one kept is said once (`Session.Follows`): no simple
dialect is in use afterwards, or one is entered and the dialect before it is kept, or one is in use before
and after and what is kept stays.  The third case is where the history matters, and the invariant
that carries it is that a session with a simple dialect keeps one that is not simple
(`Session.Returns`), so that leaving never stays behind in a simple dialect.

By induction over the history from its end, what is kept with a simple dialect is the dialect before
the most recent entry (`Workspace.saved_eq_of_lastEntry`), and leaving returns to it
(`Workspace.leaving_restores_dialect`).
-/

namespace PathExpr

/-! ### One operation -/

namespace Session

/-- **A session can return** from a simple dialect: it keeps one that is not simple. -/
def Returns (session : Session) : Prop :=
  session.dialect.simple = true → ∃ dialect, session.saved = some dialect ∧ dialect.simple = false

/-- **What an operation does** to the dialect in use and the one kept. -/
inductive Follows (session next : Session) : Prop where
  /-- No simple dialect is in use afterwards. -/
  | plain (h : next.dialect.simple = false)
  /-- A simple dialect is entered. -/
  | enter (h : session.dialect.simple = false) (hsaved : next.saved = some session.dialect)
  /-- A simple dialect is in use before, and what is kept stays. -/
  | stay (h : session.dialect.simple = true) (hsaved : next.saved = session.saved)

variable {session next : Session}

/-- A new session has no simple dialect. -/
theorem returns_start (options : Options) : (start options).Returns := fun h => nomatch h

/-- An operation keeps the way back. -/
theorem Follows.returns (h : session.Follows next) (hreturns : session.Returns) : next.Returns := by
  intro hnext
  cases h with
  | plain hplain => exact absurd hnext (ne_true_of_eq_false hplain)
  | enter hplain hsaved => exact ⟨_, hsaved, hplain⟩
  | stay hsimple hsaved =>
      rw [hsaved]
      exact hreturns hsimple

/-- An operation that leaves the dialect in use and the one kept alone. -/
theorem follows_of_eq (hdialect : next.dialect = session.dialect)
    (hsaved : next.saved = session.saved) : session.Follows next := by
  cases hsimple : session.dialect.simple with
  | true => exact .stay hsimple hsaved
  | false => exact .plain (by rw [hdialect, hsimple])

/-- What does the same without a cache leaves the dialects alone. -/
theorem follows_of_bare (h : next.bare = session.bare) : session.Follows next := by
  have hdialect : next.bare.dialect = session.bare.dialect := by rw [h]
  have hsaved : next.bare.saved = session.bare.saved := by rw [h]
  exact follows_of_eq hdialect hsaved

/-- **What an accepted change does.** -/
theorem follows_of_change {change : Change} (hreturns : session.Returns)
    (h : session.change change = .ok next) : session.Follows next := by
  -- Every change but one into a simple dialect leaves it.
  have huse : (∀ separator, change ≠ .simple (some separator)) →
      (session.dialect.change change).map session.useDialect = .ok next → session.Follows next := by
    intro hchange huse
    cases hdialect : session.dialect.change change with
    | error fault =>
        rw [hdialect] at huse
        cases huse
    | ok dialect =>
        rw [hdialect] at huse
        cases huse
        rcases Dialect.change_cases hdialect with ⟨tables, htables⟩ | ⟨separator, hsimple, -⟩
        · exact .plain (Dialect.of_ofTables htables).2.2
        · exact absurd hsimple (hchange separator)
  cases change with
  | simple separator =>
      cases separator with
      | some separator =>
          rw [change_simple_some] at h
          cases hdialect : Dialect.ofSeparator separator with
          | error fault =>
              rw [hdialect] at h
              cases h
          | ok dialect =>
              rw [hdialect] at h
              cases h
              cases hsimple : session.dialect.simple with
              | true => exact .stay hsimple rfl
              | false => exact .enter hsimple rfl
      | none =>
          rw [change_simple_none] at h
          cases hsimple : session.dialect.simple with
          | true =>
              obtain ⟨dialect, hsaved, hplain⟩ := hreturns hsimple
              rw [if_pos hsimple, hsaved] at h
              cases h
              exact .plain hplain
          | false =>
              rw [if_neg (ne_true_of_eq_false hsimple)] at h
              cases h
              exact .plain hsimple
  | reset =>
      cases h
      exact .plain rfl
  | _ => exact huse (fun _ heq => nomatch heq) h

end Session

namespace Workspace

/-- **What one request does.** -/
theorem follows_perform {workspace : Workspace} (h : workspace.session.Returns)
    (functions : Resolve.Functions) (request : Request) :
    workspace.session.Follows (workspace.perform functions request).2.session := by
  cases request with
  | compile path => exact Session.follows_of_bare (Session.bare_compile _ path)
  | isValid path => exact Session.follows_of_bare (Session.bare_compile _ path)
  | get route arguments => exact Session.follows_of_bare (Session.bare_get functions _ route arguments _)
  | get? route arguments => exact Session.follows_of_bare (Session.bare_get functions _ route arguments _)
  | set route value arguments =>
      exact Session.follows_of_bare (Session.bare_set functions _ route value arguments _)
  | set? route value arguments =>
      exact Session.follows_of_bare (Session.bare_set functions _ route value arguments _)
  | setCaching caching => cases caching <;> exact Session.follows_of_eq rfl rfl
  | change change =>
      unfold perform
      cases hchange : workspace.session.change change with
      | error fault =>
          simp only [hchange]
          exact Session.follows_of_eq rfl rfl
      | ok next =>
          simp only [hchange]
          exact Session.follows_of_change h hchange
  | _ => exact Session.follows_of_eq rfl rfl

/-! ### Histories -/

section Histories

variable (answers : Resolve.Functions) (options : Options) (first : Value)

/-- Every session that requests lead to can return. -/
theorem returns_after (history : List Request) :
    (after answers options first history).session.Returns := by
  induction history using List.reverseRecOn with
  | nil => exact Session.returns_start options
  | append_singleton history request ih =>
      rw [after_concat]
      exact (follows_perform ih answers request).returns ih

/-- What one request more does. -/
theorem follows_after (history : List Request) (request : Request) :
    (after answers options first history).session.Follows
      (after answers options first (history ++ [request])).session := by
  rw [after_concat]
  exact follows_perform (returns_after answers options first history) answers request

/-- The dialect in use after a history. -/
def dialectAfter (history : List Request) : Dialect :=
  (after answers options first history).session.dialect

/-- **An entry**: after the history, the request takes a dialect that is not simple to one that is. -/
def Enters (history : List Request) (request : Request) : Prop :=
  (dialectAfter answers options first history).simple = false ∧
    (dialectAfter answers options first (history ++ [request])).simple = true

/-- **The most recent entry** of a history comes right after some first requests of it, and none comes
later. -/
def LastEntry (history before : List Request) : Prop :=
  ∃ request rest, history = before ++ request :: rest ∧ Enters answers options first before request ∧
    ∀ steps next, steps ++ [next] <+: rest →
      ¬ Enters answers options first (before ++ request :: steps) next

variable {answers options first} {history before : List Request} {request : Request}

/-- With one request more, the most recent entry is this one, or the one before. -/
theorem lastEntry_concat_iff :
    LastEntry answers options first (history ++ [request]) before ↔
      (Enters answers options first history request ∧ before = history) ∨
        (¬ Enters answers options first history request ∧
          LastEntry answers options first history before) := by
  constructor
  · rintro ⟨entry, rest, hsplit, hentry, hlast⟩
    rcases List.eq_nil_or_concat rest with rfl | ⟨rest, final, rfl⟩
    · obtain ⟨rfl, hrequest⟩ := List.append_inj' hsplit rfl
      cases hrequest
      exact .inl ⟨hentry, rfl⟩
    · rw [List.concat_eq_append, ← List.cons_append, ← List.append_assoc] at hsplit
      obtain ⟨rfl, hrequest⟩ := List.append_inj' hsplit rfl
      cases hrequest
      rw [List.concat_eq_append] at hlast
      refine .inr ⟨hlast rest request List.prefix_rfl, entry, rest, rfl, hentry, ?_⟩
      intro steps next hsteps
      exact hlast steps next (hsteps.trans (List.prefix_append rest [request]))
  · rintro (⟨hentry, rfl⟩ | ⟨hno, entry, rest, rfl, hentry, hlast⟩)
    · refine ⟨request, [], rfl, hentry, fun steps next hsteps => ?_⟩
      simp at hsteps
    · refine ⟨entry, rest ++ [request], by simp, hentry, fun steps next hsteps => ?_⟩
      rcases List.prefix_concat_iff.mp hsteps with heq | hsteps
      · obtain ⟨rfl, hnext⟩ := List.append_inj' heq rfl
        cases hnext
        exact hno
      · exact hlast steps next hsteps

/-- A session with a simple dialect has entered one. -/
theorem exists_lastEntry (h : (dialectAfter answers options first history).simple = true) :
    ∃ before, LastEntry answers options first history before := by
  induction history using List.reverseRecOn with
  | nil => cases h
  | append_singleton history request ih =>
      cases hbefore : (dialectAfter answers options first history).simple with
      | false => exact ⟨history, lastEntry_concat_iff.mpr (.inl ⟨⟨hbefore, h⟩, rfl⟩)⟩
      | true =>
          obtain ⟨before, hlast⟩ := ih hbefore
          refine ⟨before, lastEntry_concat_iff.mpr (.inr ⟨fun hentry => ?_, hlast⟩)⟩
          exact absurd hbefore (ne_true_of_eq_false hentry.1)

/-- **What is kept with a simple dialect** is the dialect before the most recent entry. -/
theorem saved_eq_of_lastEntry (h : (dialectAfter answers options first history).simple = true)
    (hlast : LastEntry answers options first history before) :
    (after answers options first history).session.saved =
      some (dialectAfter answers options first before) := by
  induction history using List.reverseRecOn with
  | nil => cases h
  | append_singleton history request ih =>
      cases follows_after answers options first history request with
      | plain hplain => exact absurd h (ne_true_of_eq_false hplain)
      | enter hbefore hsaved =>
          rcases lastEntry_concat_iff.mp hlast with ⟨-, rfl⟩ | ⟨hno, -⟩
          · exact hsaved
          · exact absurd ⟨hbefore, h⟩ hno
      | stay hbefore hsaved =>
          rcases lastEntry_concat_iff.mp hlast with ⟨hentry, -⟩ | ⟨-, hlast⟩
          · exact absurd hbefore (ne_true_of_eq_false hentry.1)
          · rw [hsaved]
            exact ih hbefore hlast

end Histories

/-- **Leaving a simple dialect restores what was there.**  After any history, a session with a simple
dialect keeps the dialect that was in use before the most recent entry, and to leave puts that one in
use.  Where the dialect is not simple, to leave changes nothing but what is kept. -/
theorem leaving_restores_dialect (answers : Resolve.Functions) (options : Options) (first : Value)
    (history : List Request) :
    let session := (after answers options first history).session
    (session.dialect.simple = true →
      (∃ before, LastEntry answers options first history before) ∧
        ∀ before, LastEntry answers options first history before →
          session.saved = some (dialectAfter answers options first before) ∧
            session.change (.simple none) = .ok ({ session with saved := none }.useDialect
              (dialectAfter answers options first before))) ∧
      (session.dialect.simple = false →
        session.change (.simple none) = .ok { session with saved := none }) := by
  intro session
  constructor
  · intro hsimple
    refine ⟨exists_lastEntry hsimple, fun before hlast => ?_⟩
    have hsaved : session.saved = some (dialectAfter answers options first before) :=
      saved_eq_of_lastEntry hsimple hlast
    refine ⟨hsaved, ?_⟩
    rw [Session.change_simple_none, if_pos hsimple, hsaved, Option.getD_some]
  · intro hplain
    rw [Session.change_simple_none, if_neg (ne_true_of_eq_false hplain)]

/-- A simple dialect is left by a change of its tables, entered once more and then replaced by another
one.  What is kept is no longer the dialect before the first entry. -/
theorem leaving_restores_changed_tables :
    let answers : Resolve.Functions := fun _ _ _ => none
    let before : List Request := [.change (.separator .property '/'), .change (.simple (some ':')),
      .change (.modifiers [('^', .parent)])]
    let history := before ++ [.change (.simple (some '|')), .change (.simple (some ';'))]
    let session := (after answers {} .null history).session
    let restored := dialectAfter answers {} .null before
    session.dialect.simple = true ∧ LastEntry answers {} .null history before ∧
      session.saved = some restored ∧
      session.change (.simple none) = .ok ({ session with saved := none }.useDialect restored) ∧
      restored.property = ':' ∧ restored.simple = false := by
  intro answers before history session restored
  have hsimple : session.dialect.simple = true := rfl
  have hentry : Enters answers {} .null before (.change (.simple (some '|'))) := ⟨rfl, rfl⟩
  have hlast : LastEntry answers {} .null history before := by
    have hagain : ¬ Enters answers {} .null (before ++ [.change (.simple (some '|'))])
        (.change (.simple (some ';'))) := fun h => nomatch h.1
    exact lastEntry_concat_iff.mpr (.inr ⟨hagain, lastEntry_concat_iff.mpr (.inl ⟨hentry, rfl⟩)⟩)
  obtain ⟨hsaved, hchange⟩ :=
    ((leaving_restores_dialect answers {} .null history).1 hsimple).2 before hlast
  exact ⟨hsimple, hlast, hsaved, hchange, rfl, rfl⟩

end Workspace

end PathExpr
