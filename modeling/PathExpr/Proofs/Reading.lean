import PathExpr.Proofs.Standing
import PathExpr.Proofs.Trail

/-!
# In the middle of a read

What is known of a read wherever it has come to: the document is the one that it began with and is at
the bottom of the trail, and nothing on the trail dangles (`State.Reading`).  So a read can be taken up
behind its first tokens: either they fail, whatever follows, or what follows is read from such a state
on (`read_append_cases`), from a focus with the value that they read (`exists_focus_of_read`).
-/

namespace PathExpr.Resolve

/-- **The state of a read** that began at a document. -/
structure State.Reading (document : Value) (s : State) : Prop where
  sound : s.Sound document
  rooted : s.Rooted

theorem State.reading_start (document : Value) : (State.start document).Reading document :=
  ⟨State.sound_start document, State.rooted_start document⟩

/-- Two states of a read hold the same document. -/
theorem State.Reading.document_eq {document : Value} {s t : State} (hs : s.Reading document)
    (ht : t.Reading document) : s.document = t.document :=
  hs.sound.document_eq.trans ht.sound.document_eq.symm

variable (env : Env) {document : Value} {focus : Focus} {s : State}

/-- To read a token keeps the state of a read. -/
theorem step_reading (h : s.Reading document) (token : Token) (hfocus : focus.Standing document) :
    (step env token .read false focus s).2.Reading document :=
  ⟨(step_reads env token hfocus s h.sound).1, step_rooted env .read false focus s token h.rooted⟩

/-- To read tokens keeps the state of a read. -/
theorem advance_reading (h : s.Reading document) (tokens : List Token)
    (hfocus : focus.Standing document) :
    (advance env tokens .read false focus s).2.Reading document :=
  ⟨(advance_reads env tokens hfocus s h.sound).1,
    advance_rooted env .read false focus s tokens h.rooted⟩

/-- What one token reads is the value of its result in the document of the read. -/
theorem readFrom_singleton_of_reading (hs : s.Reading document) (hfocus : focus.Standing document)
    (token : Token) :
    (readFrom env [token] focus s).1 =
      (step env token .read false focus s).1.bind fun found => found.value document := by
  have hnext := (step_reading env hs token hfocus).sound.document_eq
  rw [readFrom_singleton_apply]
  rcases h : step env token .read false focus s with ⟨fault | found, t⟩ <;> rw [h] at hnext
  · rfl
  · cases hnext
    rfl

/-- **What tokens come to.** Either they fail, and with them all that begins with them, or they come to
a standing focus from which what follows is read; no tokens come to the document, which is alone on the
trail. -/
theorem read_append_cases (first : List Token) (document : Value) :
    (∃ fault, ∀ rest, read env (first ++ rest) document = .error fault) ∨
      ∃ (focus : Focus) (s : State), s.Reading document ∧ focus.Standing document ∧
        (first = [] → s.trail = [Focus.root]) ∧
        ∀ rest, read env (first ++ rest) document = (readFrom env rest focus s).1 := by
  have hroot := Focus.standing_root document
  have hreading := advance_reading env (State.reading_start document) first hroot
  have hstanding := (advance_reads env first hroot _ (State.sound_start document)).2
  rcases h : advance env first .read false .root (.start document) with ⟨fault | focus, s⟩ <;>
    rw [h] at hreading hstanding
  · exact .inl ⟨fault, read_append_of_error h⟩
  · refine .inr ⟨focus, s, hreading, hstanding focus rfl, ?_, read_append_of_ok h⟩
    rintro rfl
    cases h
    rfl

/-- **What tokens come to that read a value** is a focus with that value. -/
theorem exists_focus_of_read {first : List Token} {value : Value}
    (h : read env first document = .ok value) :
    ∃ (focus : Focus) (s : State), s.Reading document ∧ focus.value document = .ok value ∧
      ∀ rest, read env (first ++ rest) document = (readFrom env rest focus s).1 := by
  rcases read_append_cases env first document with
    ⟨fault, hfail⟩ | ⟨focus, s, hs, -, -, hread⟩
  · have hnone := hfail []
    rw [List.append_nil, h] at hnone
    cases hnone
  · have hnone := hread []
    rw [List.append_nil, h] at hnone
    refine ⟨focus, s, hs, ?_, hread⟩
    rw [hnone, ← hs.sound.document_eq]
    rfl

end PathExpr.Resolve
