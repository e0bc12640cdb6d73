import PathExpr.Resolve.Interpret

/-!
# Tokens in sequence

`Resolve.advance` treats the last token apart from the others, because only that one may write.  For a
read there is no such difference, and a sequence can be cut anywhere: `Resolve.advance_append_read`.
A write can be cut anywhere before its last token (`Resolve.advance_append`).

What is read at the end of a sequence is the value of the last result (`Resolve.readFrom`).  The
trail is cut back only when the whole resolution is over and no value is looked up on it, so that cut
is not seen in what is read (`Resolve.read_eq_readFrom`), nor in what is written
(`Resolve.write_eq_advance`).
-/

namespace PathExpr.Resolve

/-- In a read the last token is like the others. -/
theorem advance_cons_read (env : Env) (token : Token) (rest : List Token) (create : Bool)
    (focus : Focus) :
    advance env (token :: rest) .read create focus =
      (do
        let found ← step env token .read create focus
        Walk.push found
        advance env rest .read create found) := by
  cases rest with
  | nil => rfl
  | cons next rest =>
      rw [advance_cons_cons]
      simp only [Intent.isWrite, Bool.false_and, Bool.or_false]

/-- **A sequence is cut before its last token**: what comes first reads, and makes what is missing if
a write is forced. -/
theorem advance_append (env : Env) (first : List Token) {second : List Token} (h : second ≠ [])
    (intent : Intent) (create : Bool) (focus : Focus) :
    advance env (first ++ second) intent create focus =
      advance env first .read (create || (intent.isWrite && env.force)) focus >>=
        advance env second intent create := by
  induction first generalizing focus with
  | nil => rfl
  | cons token rest ih =>
      obtain ⟨next, others, hnext⟩ : ∃ next others, rest ++ second = next :: others :=
        List.exists_cons_of_ne_nil (by simp [h])
      rw [List.cons_append, hnext, advance_cons_cons, advance_cons_read, bind_assoc]
      congr 1
      funext found
      rw [bind_assoc, ← hnext, ih]

/-- **A read is cut anywhere.** -/
theorem advance_append_read (env : Env) (first second : List Token) (create : Bool)
    (focus : Focus) :
    advance env (first ++ second) .read create focus =
      advance env first .read create focus >>= advance env second .read create := by
  cases second with
  | nil =>
      rw [List.append_nil]
      exact (bind_pure _).symm
  | cons token rest =>
      rw [advance_append env first (List.cons_ne_nil token rest)]
      simp only [Intent.isWrite, Bool.false_and, Bool.or_false]

/-! ### What is read -/

/-- What tokens read from a context on. -/
def readFrom (env : Env) (tokens : List Token) (focus : Focus) : Walk Value :=
  advance env tokens .read false focus >>= Walk.read

theorem readFrom_append (env : Env) (first second : List Token) (focus : Focus) :
    readFrom env (first ++ second) focus =
      advance env first .read false focus >>= readFrom env second := by
  rw [readFrom, advance_append_read, bind_assoc]
  rfl

theorem readFrom_cons (env : Env) (token : Token) (rest : List Token) (focus : Focus) :
    readFrom env (token :: rest) focus =
      (do
        let found ← step env token .read false focus
        Walk.push found
        readFrom env rest found) := by
  rw [readFrom, advance_cons_read, bind_assoc]
  congr 1

/-- What one token reads is the value of its result, in the document that it leaves. -/
theorem readFrom_singleton_apply (env : Env) (token : Token) (focus : Focus) (s : State) :
    (readFrom env [token] focus s).1 =
      match step env token .read false focus s with
      | (.ok found, t) => found.value t.document
      | (.error fault, _) => .error fault := by
  rw [readFrom_cons, Walk.bind_apply]
  rcases step env token .read false focus s with ⟨_ | _, _⟩ <;> rfl

/-- A read of a whole document is a read from its root on. -/
theorem read_eq_readFrom (env : Env) (tokens : List Token) (document : Value) :
    read env tokens document = (readFrom env tokens .root (.start document)).1 := by
  unfold read readFrom walk
  rw [Walk.bind_apply, Walk.bind_apply, Walk.enclosed_apply]
  rcases advance env tokens .read false .root (.start document) with ⟨_ | _, _⟩ <;> rfl

/-- Tokens that fail leave nothing to read. -/
theorem read_append_of_error {env : Env} {first : List Token} {document : Value}
    {fault : PathError} {s : State}
    (h : advance env first .read false .root (.start document) = (.error fault, s))
    (second : List Token) : read env (first ++ second) document = .error fault := by
  rw [read_eq_readFrom, readFrom_append, Walk.bind_of_error h]

/-- Tokens that reach something leave the rest to be read from there. -/
theorem read_append_of_ok {env : Env} {first : List Token} {document : Value} {focus : Focus}
    {s : State} (h : advance env first .read false .root (.start document) = (.ok focus, s))
    (second : List Token) :
    read env (first ++ second) document = (readFrom env second focus s).1 := by
  rw [read_eq_readFrom, readFrom_append, Walk.bind_of_ok h]

/-! ### What is written -/

/-- A write to a whole document is done when its tokens are, and leaves the document that they
leave. -/
theorem write_eq_advance (env : Env) {tokens : List Token} (h : tokens ≠ [])
    (value document : Value) :
    write env tokens value document =
      ⟨(advance env tokens (.write value) false .root (.start document)).1.map fun _ => (),
        (advance env tokens (.write value) false .root (.start document)).2.document⟩ := by
  have hempty : tokens.isEmpty = false := List.isEmpty_eq_false_iff.mpr h
  rw [write, hempty, if_neg Bool.false_ne_true, walk, Walk.enclosed_apply]
  rcases advance env tokens (.write value) false .root (.start document) with ⟨_ | _, _⟩ <;> rfl

end PathExpr.Resolve
