import PathExpr.Proofs.Pointwise

/-!
# Brackets only group

Tokens in brackets are resolved on the context that the brackets stand on, and when they are done the
trail is cut back and their last result is put on it.  Without the brackets all their results are on it.
So with or without brackets the tokens come to the same result and leave the same document, on trails
of which only the bottom is known to be the same (`advance_brackets`).  That is enough for what follows
unless it looks down the trail: to go back to the document it need not (`Walk.Parallel.bind`).

Brackets hand on what the resolution is for and whether missing objects are made, and treat the last
token that they hold as the sequence around them would if it ended there.  So the same holds of reads and
of writes, wherever the brackets stand (`brackets_only_group`).  What is in the brackets may look down
the trail as it likes, because it finds the same trail either way.
-/

namespace PathExpr.Resolve

/-! ### Walks that go the same way -/

/-- **Two walks go the same way**: from every state with the document at the bottom of the trail they
have the same outcome and leave the same document, at the bottom of the trail again. -/
def Walk.Parallel {α : Type} (walk other : Walk α) : Prop :=
  ∀ s, s.Rooted → (walk s).1 = (other s).1 ∧ (walk s).2.Agree 0 (other s).2

namespace Walk

variable {α β : Type}

/-- What does not see the trail goes the same way behind walks that do. -/
theorem Parallel.bind {walk other : Walk α} {next : α → Walk β} (h : walk.Parallel other)
    (hnext : ∀ a, (next a).Sees 0 0) : (walk >>= next).Parallel (other >>= next) := by
  intro s hs
  obtain ⟨hresult, hafter⟩ := h s hs
  rcases hwalk : walk s with ⟨fault | a, t⟩ <;> rcases hother : other s with ⟨fault' | b, u⟩ <;>
    rw [hwalk, hother] at hresult hafter <;> cases hresult
  · rw [bind_of_error hwalk, bind_of_error hother]
    exact ⟨rfl, hafter⟩
  · rw [bind_of_ok hwalk, bind_of_ok hother]
    obtain ⟨hsame, hlast, -⟩ := hnext a t u hafter
    exact ⟨hsame, hlast⟩

/-- Walks that go the same way do so behind any walk that leaves the document at the bottom. -/
theorem Parallel.after {walk : Walk α} {next other : α → Walk β}
    (hrooted : ∀ s, s.Rooted → (walk s).2.Rooted) (h : ∀ a, (next a).Parallel (other a)) :
    (walk >>= next).Parallel (walk >>= other) := by
  intro s hs
  have hroot := hrooted s hs
  rcases hwalk : walk s with ⟨fault | a, t⟩ <;> rw [hwalk] at hroot
  · rw [bind_of_error hwalk, bind_of_error hwalk]
    exact ⟨rfl, .of_rooted rfl hroot hroot⟩
  · rw [bind_of_ok hwalk, bind_of_ok hwalk]
    exact h a t hroot

end Walk

/-! ### Brackets -/

section Brackets

variable (env : Env) (inner : TokenSet) (intent : Intent) (create : Bool) (focus : Focus)

/-- **Brackets alone** go the way of the tokens in them. -/
theorem advance_brackets :
    (advance env [.container .property inner false] intent create focus).Parallel
      (advance env inner.tokens intent create focus) := by
  intro s hs
  have hleft := advance_rooted env intent create focus s [.container .property inner false] hs
  have hright := advance_rooted env intent create focus s inner.tokens hs
  have hstep : step env (.container .property inner false) intent create focus s =
      Walk.enclosed (advance env inner.tokens intent create focus) s := rfl
  -- The cut is of the trail alone.
  obtain ⟨hresult, hdocument⟩ :
      (advance env [.container .property inner false] intent create focus s).1 =
          (advance env inner.tokens intent create focus s).1 ∧
        (advance env [.container .property inner false] intent create focus s).2.document =
          (advance env inner.tokens intent create focus s).2.document := by
    rw [advance_singleton, Walk.bind_apply, hstep, Walk.enclosed_apply]
    rcases advance env inner.tokens intent create focus s with ⟨_ | _, _⟩ <;> exact ⟨rfl, rfl⟩
  exact ⟨hresult, .of_rooted hdocument hleft hright⟩

variable {inner} {rest : List Token}

/-- Brackets and what follows go the way of the tokens without brackets, if what follows does not look
down the trail. -/
theorem advance_brackets_append (h : Token.occursAmong Token.looksDown rest = false) :
    (advance env ([.container .property inner false] ++ rest) intent create focus).Parallel
      (advance env (inner.tokens ++ rest) intent create focus) := by
  cases rest with
  | nil =>
      rw [List.append_nil, List.append_nil]
      exact advance_brackets env inner intent create focus
  | cons token others =>
      have hne : token :: others ≠ [] := List.cons_ne_nil token others
      rw [advance_append env _ hne, advance_append env _ hne]
      refine (advance_brackets env inner _ _ focus).bind fun found => ?_
      exact advance_sees env (Token.sequenceLooksBelow_of_occursAmong h 0) intent create found

/-- Brackets in the middle of a sequence go the way of the tokens without brackets. -/
theorem advance_append_brackets_append (first : List Token) (hne : inner.tokens ≠ [])
    (h : Token.occursAmong Token.looksDown rest = false) :
    (advance env (first ++ [.container .property inner false] ++ rest) intent create focus).Parallel
      (advance env (first ++ inner.tokens ++ rest) intent create focus) := by
  rw [List.append_assoc, List.append_assoc,
    advance_append env first (List.append_ne_nil_of_left_ne_nil (List.cons_ne_nil _ _) rest),
    advance_append env first (List.append_ne_nil_of_left_ne_nil hne rest)]
  refine Walk.Parallel.after (fun s hs => advance_rooted env _ _ _ s first hs) fun found => ?_
  exact advance_brackets_append env intent create found h

end Brackets

/-- **Brackets only group**: if what follows them does not look down the trail, to read or to write is the
same with them and without, with the same value or the same failure, and, of a write, with the same
document left. -/
theorem brackets_only_group (env : Env) (first : List Token) {inner : TokenSet} {rest : List Token}
    (hne : inner.tokens ≠ []) (h : Token.occursAmong Token.looksDown rest = false)
    (value document : Value) :
    read env (first ++ [.container .property inner false] ++ rest) document =
        read env (first ++ inner.tokens ++ rest) document ∧
      write env (first ++ [.container .property inner false] ++ rest) value document =
        write env (first ++ inner.tokens ++ rest) value document := by
  have hroot := State.rooted_start document
  have hparallel := fun intent =>
    advance_append_brackets_append env intent false .root first hne h
  constructor
  · have hsees : ∀ found, (Walk.read found).Sees 0 0 := fun found => Walk.sees_asking _
    have hread := (hparallel .read).bind hsees
    rw [read_eq_readFrom, read_eq_readFrom]
    exact (hread _ hroot).1
  · obtain ⟨hresult, hafter⟩ := hparallel (.write value) _ hroot
    rw [write_eq_advance env (by simp), write_eq_advance env (by simp [hne]), hresult,
      hafter.document_eq]

/-- Brackets that go back to the document, in a write that makes an object behind them. -/
theorem brackets_crossroads :
    let env : Env := ⟨[], fun _ _ _ => none, true⟩
    let inner : TokenSet := .ofTokens [beside 1, .word ⟨"a", { root := true }, none, false⟩]
    let rest : List Token := [.plain "new", .word ⟨"z", { root := true }, none, false⟩]
    inner.tokens ≠ [] ∧ Token.occursAmong Token.looksDown rest = false ∧
      write env ([.plain "p", .plain "q"] ++ [.container .property inner false] ++ rest)
          (.integer 7) crossroads =
        write env ([.plain "p", .plain "q"] ++ inner.tokens ++ rest) (.integer 7) crossroads ∧
      (write env ([.plain "p", .plain "q"] ++ inner.tokens ++ rest) (.integer 7)
          crossroads).document.at? ["a", "new"] = some (.object []) := by
  intro env inner rest
  have hne : inner.tokens ≠ [] := List.cons_ne_nil _ _
  have hrest : Token.occursAmong Token.looksDown rest = false := rfl
  have hgroup := brackets_only_group env [.plain "p", .plain "q"] hne hrest (.integer 7) crossroads
  exact ⟨hne, hrest, hgroup.2, rfl⟩

end PathExpr.Resolve
