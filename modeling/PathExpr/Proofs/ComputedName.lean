import PathExpr.Proofs.Pointwise

/-!
# A computed name is only its text

The tokens of a computed name are resolved on the trail of those around it, and that trail is cut back
when they are done.  What is left of them is the text, which is then looked up where the computed name
stands, like a plain name (`step_computed_apply`).  So a plain name can take its place if the tokens
behind it cannot tell the trails apart (`readFrom_plain_cons_eq`).  They cannot if the computed name
has no root modifier at any depth, or if they do not look below by the static count of
`Token.sequenceLooksBelow`, which is one behind the computed name, for its result.  The count starts anew
behind a token in which there is a root modifier, and a call counts as looking one down.

A computed name that does go back leaves its own contexts on the trail, in the place of those that were
there, and a cut does not bring those back.
-/

namespace PathExpr.Resolve

variable (env : Env)

/-- **The text of a computed name** is that of what its tokens read. What is left besides is what the
same tokens leave in brackets. -/
theorem computedName_apply {inner : TokenSet} {focus : Focus} {s : State} {value : Value}
    {name : String} (hread : (readFrom env inner.tokens focus s).1 = .ok value)
    (hname : value.key? = some name) :
    (Walk.enclosed (advance env inner.tokens .read false focus) >>= computedName) s =
      (.ok name, (step env (.container .property inner false) .read false focus s).2) := by
  have hinner : step env (.container .property inner false) .read false focus s =
      Walk.enclosed (advance env inner.tokens .read false focus) s := rfl
  rw [hinner, Walk.enclosed_apply, Walk.bind_apply, Walk.enclosed_apply]
  unfold readFrom at hread
  rcases h : advance env inner.tokens .read false focus s with ⟨fault | found, t⟩
  · rw [Walk.bind_of_error h] at hread
    cases hread
  · rw [Walk.bind_of_ok h] at hread
    have hvalue : found.value t.document = .ok value := hread
    simp only [computedName, Walk.read, Walk.asking, Walk.bind_apply, hvalue, hname]
    rfl

/-- A computed name is looked up like a plain one, on what its tokens have left of the trail. -/
theorem step_computed_apply {inner : TokenSet} {focus : Focus} {s : State} {value : Value}
    {name : String} (hread : (readFrom env inner.tokens focus s).1 = .ok value)
    (hname : value.key? = some name) :
    step env (.container .evalProperty inner false) .read false focus s =
      step env (.plain name) .read false focus
        (step env (.container .property inner false) .read false focus s).2 := by
  have hcomputed := computedName_apply env hread hname
  rw [step_computed]
  show (Walk.enclosed (advance env inner.tokens .read false focus) >>= fun found =>
    computedName found >>= fun name => access focus name .read false) s = _
  rw [← bind_assoc, Walk.bind_of_ok hcomputed, step_plain]

/-- **What is read behind a plain name** is the same on two trails, if they are the same or if the tokens
do not look below, counted from the result of that name on. -/
theorem readFrom_plain_cons_eq {name : String} {rest : List Token} {focus : Focus} {s t : State}
    {document : Value} (hs : s.Reading document) (ht : t.Reading document)
    (h : s.trail = t.trail ∨ Token.sequenceLooksBelow rest 1 = false) :
    (readFrom env (.plain name :: rest) focus s).1 =
      (readFrom env (.plain name :: rest) focus t).1 := by
  have hdocument := hs.document_eq ht
  rcases h with htrail | hblind
  · rw [State.ext hdocument htrail]
  · have hsees : (readFrom env (.plain name :: rest) focus).Sees 0 0 := by
      rw [readFrom_cons, step_plain]
      exact (sees_access focus name .read false).bind fun found =>
        (Walk.sees_push found).bind fun _ => readFrom_sees env hblind found
    exact (hsees s t (.of_rooted hdocument hs.rooted ht.rooted)).1

/-- **A computed name is only its text**: where its tokens read a value with a text, it can be replaced
by the plain name of that text, if it stands at the beginning, if its tokens have no root modifier at any
depth, or if the tokens behind it do not look below by the static count of `Token.sequenceLooksBelow`.
The count is one behind the computed name, for its result, goes up by one with each token of a sequence,
and starts anew behind a token with a root modifier inside; a name looks below with as many parent
modifiers as are counted or more, and a call where fewer than two are, since it looks one down.  Tokens
with neither parent modifiers nor calls do not look below (`Token.sequenceLooksBelow_of_occursAmong`). -/
theorem read_computed_eq_read_plain (first : List Token) (inner : TokenSet) (rest : List Token)
    {document value : Value} {name : String}
    (hread : read env (first ++ inner.tokens) document = .ok value)
    (hname : value.key? = some name)
    (h : first = [] ∨ Token.anyRewinds inner.tokens = false ∨
      Token.sequenceLooksBelow rest 1 = false) :
    read env (first ++ [.container .evalProperty inner false] ++ rest) document =
      read env (first ++ [.plain name] ++ rest) document := by
  rcases read_append_cases env first document with
    ⟨fault, hfail⟩ | ⟨focus, s, hs, hfocus, halone, hfrom⟩
  · rw [hfail] at hread
    cases hread
  · rw [hfrom] at hread
    rw [List.append_assoc, List.append_assoc, hfrom, hfrom, List.singleton_append,
      List.singleton_append]
    -- What the computed name leaves of the trail is what its tokens leave in brackets.
    have hcut := step_reading env hs (.container .property inner false) hfocus
    have hsame : (step env (.container .property inner false) .read false focus s).2.trail =
        s.trail ∨ Token.sequenceLooksBelow rest 1 = false := by
      rcases h with hempty | hsteady | hblind
      · exact .inl ((step_trail_of_alone env .read false focus s _ (halone hempty)).trans
          (halone hempty).symm)
      · exact .inl (step_trail env .read false focus s
          ((Token.rewinds_container .property inner false).trans hsteady))
      · exact .inr hblind
    calc (readFrom env (.container .evalProperty inner false :: rest) focus s).1
        = (readFrom env (.plain name :: rest) focus
            (step env (.container .property inner false) .read false focus s).2).1 := by
          rw [readFrom_cons, readFrom_cons, Walk.bind_apply, Walk.bind_apply,
            step_computed_apply env hread hname]
      _ = (readFrom env (.plain name :: rest) focus s).1 :=
          readFrom_plain_cons_eq env hcut hs hsame

/-- Behind a computed name that goes back to the document, tokens may look as far as its result. -/
theorem read_computed_crossroads :
    read .bare ([.plain "p", .plain "q"] ++ [.container .evalProperty detour false] ++
        [.plain "z", .word ⟨"z", { parent := 1 }, none, false⟩]) crossroads =
      .ok (.integer 4) :=
  (read_computed_eq_read_plain .bare [.plain "p", .plain "q"] detour
    [.plain "z", .word ⟨"z", { parent := 1 }, none, false⟩]
    (show read .bare ([.plain "p", .plain "q"] ++ detour.tokens) crossroads = .ok (.string "n")
      from rfl)
    (show (Value.string "n").key? = some "n" from rfl) (.inr (.inr (by decide)))).trans rfl

/-- **Further down, they may not**: they find what is beside the way of the computed name. -/
theorem read_computed_leaks :
    read .bare ([.plain "p", .plain "q"] ++ detour.tokens) crossroads = .ok (.string "n") ∧
      read .bare ([.plain "p", .plain "q"] ++ [.container .evalProperty detour false] ++
          [beside 2]) crossroads ≠
        read .bare ([.plain "p", .plain "q"] ++ [.plain "n"] ++ [beside 2]) crossroads := by
  have hcomputed : read .bare ([.plain "p", .plain "q"] ++
      [.container .evalProperty detour false] ++ [beside 2]) crossroads = .ok (.integer 2) := rfl
  have hplain : read .bare ([.plain "p", .plain "q"] ++ [.plain "n"] ++ [beside 2]) crossroads =
      .ok (.integer 3) := rfl
  refine ⟨rfl, ?_⟩
  rw [hcomputed, hplain]
  intro h
  simp at h

end PathExpr.Resolve
