import PathExpr.Proofs.Reading
import PathExpr.Proofs.Sight

/-!
# A collection reads its items one by one

The items of a collection are read on the same context and the same document, but also on the same
trail, and each of them finds the trail as the one before has left it.  So the collection reads what
its items read by themselves if that makes no difference to them.  An item without a root modifier
leaves the trail as it was (`step_trail`), and an item that does not look below by the count of
`Token.looksBelow`, from no context on, does not see the trail (`step_sees`); one or the other is needed
of any two items (`step_after`).  At the beginning of a path expression neither is, because the document
is alone on the trail (`step_trail_of_alone`).

The count is static and says less than a trail would: behind a token in which there is a root modifier it
starts anew, even if contexts of the item itself are left below, and a call counts as looking one down.

An item that goes back to the document leaves the trail without the contexts that were there, and with
some of its own if it has any; so an item after it that looks down the trail sees others, or none.
-/

namespace PathExpr.Resolve

variable (env : Env)

/-! ### One item after another -/

section Items

variable {document : Value} {focus : Focus} {s : State}

/-- **What is read after another token**: the same as without it, if there is nothing on the trail to be
lost, if that token has no root modifier at any depth, or if what is read does not look below, counted
from no context on. -/
theorem step_after {earlier later : Token}
    (h : s.trail = [Focus.root] ∨ earlier.rewinds = false ∨ later.looksBelow 0 = false)
    (hs : s.Reading document) (hfocus : focus.Standing document) :
    (step env later .read false focus (step env earlier .read false focus s).2).1 =
      (step env later .read false focus s).1 := by
  have hnext := step_reading env hs earlier hfocus
  have hdocument := hnext.document_eq hs
  rcases h with halone | hsteady | hblind
  · have htrail := step_trail_of_alone env .read false focus s earlier halone
    rw [State.ext hdocument (htrail.trans halone.symm)]
  · rw [State.ext hdocument (step_trail env .read false focus s hsteady)]
  · have hagree : (step env earlier .read false focus s).2.Agree 0 s :=
      .of_rooted hdocument hnext.rooted hs.rooted
    exact (step_sees env later 0 .read false focus hblind _ _ hagree).1

/-- **The items of a collection read pointwise** if each of them reads the same after any other that is
before it. -/
theorem gather_members_values {items : List Token}
    (h : s.trail = [Focus.root] ∨ items.Pairwise fun earlier later =>
      earlier.rewinds = false ∨ later.looksBelow 0 = false)
    (hs : s.Reading document) (hfocus : focus.Standing document)
    {result : Token → Except PathError Focus}
    (hresult : ∀ item ∈ items, (step env item .read false focus s).1 = result item) :
    (Walk.gather false (members env items .read focus) s).1.bind (Focus.values document) =
      items.mapM fun item => (result item).bind fun found => found.value document := by
  induction items generalizing s with
  | nil => rfl
  | cons item rest ih =>
      obtain ⟨hitem, hothers⟩ := List.forall_mem_cons.mp hresult
      -- What the others read from here on is what they read behind the first item.
      have hafter : ∀ other ∈ rest,
          (step env other .read false focus (step env item .read false focus s).2).1 =
            result other := by
        intro other hother
        have hpair := h.imp_right fun hpairs => (List.pairwise_cons.mp hpairs).1 other hother
        exact (step_after env hpair hs hfocus).trans (hothers other hother)
      have hrest := ih
        (h.imp (step_trail_of_alone env .read false focus s item)
          fun hpairs => (List.pairwise_cons.mp hpairs).2)
        (step_reading env hs item hfocus) hafter
      have hstanding := (step_reads env item hfocus s hs.sound).2
      rw [List.mapM_cons, members_cons, ← hitem]
      rcases hstep : step env item .read false focus s with ⟨fault | found, t⟩ <;>
        rw [hstep] at hrest hstanding
      · rw [Walk.gather_of_error (Walk.bind_of_error hstep)]
        rfl
      · -- What the item finds has a value, so no failure of a later item comes before one of its own.
        obtain ⟨value, hvalue⟩ := hstanding found rfl
        have hfirst : (step env item .read false focus >>= fun found =>
            pure (if Intent.read.isWrite && isComputed item then none else some found)) s =
            (.ok (some found), t) := Walk.bind_of_ok hstep
        have hbind : (Except.ok found).bind (fun found : Focus => found.value document) =
            .ok value := hvalue
        rw [Walk.gather_of_ok hfirst, ← hrest, hbind]
        rcases Walk.gather false (members env rest .read focus) t with ⟨fault | others, u⟩
        · rfl
        · show Focus.values document (found :: others) =
            (Focus.values document others).bind fun values => .ok (value :: values)
          rw [Focus.values_cons_of_ok hvalue]
          cases Focus.values document others <;> rfl

/-- A collection finds what its items find. -/
theorem step_collection_apply (items : List Token) (create : Bool) :
    (step env (.collection items false) .read create focus s).1 =
      (Walk.gather false (members env items .read focus) s).1.map .fan := by
  show ((Walk.gather false (members env items .read focus) >>= fun found =>
    pure (Focus.fan found)) s).1 = _
  rw [Walk.bind_apply]
  rcases Walk.gather false (members env items .read focus) s with ⟨_ | _, _⟩ <;> rfl

end Items

/-! ### Collections -/

/-- **A collection reads its items one by one**, in order and up to the first that cannot be read, if
it stands at the beginning or if, of any two items, the earlier one has no root modifier at any depth or
the later one does not look below by the static count of `Token.looksBelow`.  The count is zero where
the later item begins, goes up by one with each token of a sequence, and starts anew behind a token with a
root modifier inside; a name looks below with as many parent modifiers as are counted or more, and a call
where fewer than two are, since it looks one down.  An item with neither parent modifiers nor calls does
not look below (`Token.looksBelow_of_occurs`). -/
theorem read_collection_pointwise (first : List Token) {items : List Token} (hne : items ≠ [])
    (h : first = [] ∨ items.Pairwise fun earlier later =>
      earlier.rewinds = false ∨ later.looksBelow 0 = false)
    (document : Value) :
    read env (first ++ [.collection items false]) document =
      (items.mapM fun item => read env (first ++ [item]) document).map .array := by
  rcases read_append_cases env first document with
    ⟨fault, hfail⟩ | ⟨focus, s, hs, hfocus, halone, hread⟩
  · -- What stands before fails, and so does the first item.
    obtain ⟨item, rest, rfl⟩ := List.exists_cons_of_ne_nil hne
    rw [List.mapM_cons, hfail, hfail]
    rfl
  · have hsingle : ∀ token, read env (first ++ [token]) document =
        (step env token .read false focus s).1.bind fun found => found.value document :=
      fun token => (hread [token]).trans (readFrom_singleton_of_reading env hs hfocus token)
    have hvalues := gather_members_values env (h.imp_left halone) hs hfocus fun _ _ => rfl
    simp only [hsingle]
    rw [step_collection_apply, ← hvalues]
    rcases Walk.gather false (members env items .read focus) s with ⟨fault | found, t⟩
    · rfl
    · exact Focus.value_fan document found

/-! ### Items that go back to the document -/

/-- Nothing but a document to read. -/
def Env.bare : Env := ⟨[], fun _ _ _ => none, false⟩

/-- A document with two ways of the same length, and members of one name beside them. -/
def crossroads : Value :=
  .object [
    ("a", .object [("k", .string "n"), ("y", .integer 2)]),
    ("p", .object [("q", .object [("n", .object [("z", .integer 4)])]), ("y", .integer 3)])]

/-- The one way, from the document on. -/
def detour : TokenSet := .ofTokens [.word ⟨"a", { root := true }, none, false⟩, .plain "k"]

/-- The member beside the way, some levels up. -/
def beside (levels : Nat) : Token := .word ⟨"y", { parent := levels }, none, false⟩

/-- An item that goes back to the document may stand behind one that looks down the trail. -/
theorem read_collection_crossroads :
    read .bare ([.plain "p", .plain "q"] ++
        [.collection [beside 1, .container .property detour false] false]) crossroads =
      .ok (.array [.integer 3, .string "n"]) :=
  (read_collection_pointwise .bare [.plain "p", .plain "q"]
    (List.cons_ne_nil (beside 1) [.container .property detour false]) (.inr (by decide))
    crossroads).trans rfl

/-- **Before it, it may not**: it leaves its own way on the trail, and what is found beside that. -/
theorem read_collection_leaks :
    read .bare ([.plain "p", .plain "q"] ++
        [.collection [.container .property detour false, beside 1] false]) crossroads ≠
      ([.container .property detour false, beside 1].mapM fun item =>
        read .bare ([.plain "p", .plain "q"] ++ [item]) crossroads).map .array := by
  have hcollection : read .bare ([.plain "p", .plain "q"] ++
      [.collection [.container .property detour false, beside 1] false]) crossroads =
      .ok (.array [.string "n", .integer 2]) := rfl
  have hitems : ([.container .property detour false, beside 1].mapM fun item =>
      read .bare ([.plain "p", .plain "q"] ++ [item]) crossroads).map Value.array =
      .ok (.array [.string "n", .integer 3]) := rfl
  rw [hcollection, hitems]
  intro h
  simp at h

end PathExpr.Resolve
