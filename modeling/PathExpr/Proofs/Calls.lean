import PathExpr.Proofs.PlainRoute

/-!
# Calls

A call takes its function from the context, its receiver from the context below that, and its arguments
from a path that is resolved on top of both.  Each of the three is what a read of its own would give: the
function is what the names in front of the call read, the receiver what all of them but the last read, and
the arguments what the names and the argument path read (`read_call`).

The first two rest on one invariant of every read, that the context at hand is on top of the trail
(`getLast?_trail_advance`): behind a name, the context that the name was looked up in is the next one below.
The third rests on the way arguments are spread, which does not depend on whether they are a list of results
or an array (`spreadArguments_fst`), and on the trail being irrelevant to it.
-/

namespace PathExpr

/-- **The arguments that a value gives**: an array each of its items, anything else itself. -/
def Value.asArguments : Value → List Value
  | .array items => items
  | value => [value]

namespace Resolve

variable (env : Env) {s t : State} {focus found : Focus}

/-! ### What is below a name -/

/-- **The context at hand is on top of the trail**, wherever a read has come to. -/
theorem getLast?_trail_advance {tokens : List Token} {create : Bool}
    (hs : s.trail.getLast? = some focus)
    (h : advance env tokens .read create focus s = (.ok found, t)) :
    t.trail.getLast? = some found := by
  induction tokens generalizing focus s with
  | nil =>
      cases h
      exact hs
  | cons token rest ih =>
      rw [advance_cons_read] at h
      obtain ⟨next, u, hstep, hrest⟩ := Walk.exists_of_bind_eq_ok h
      have hpushed : Walk.push next u = (.ok (), { u with trail := u.trail ++ [next] }) := rfl
      rw [Walk.bind_of_ok hpushed] at hrest
      exact ih List.getLast?_concat hrest

/-- What is below the top of a trail is what was on top before. -/
theorem below?_concat (hs : s.trail.getLast? = some focus) :
    Walk.below? { s with trail := s.trail ++ [found] } =
      (.ok (some focus), { s with trail := s.trail ++ [found] }) := by
  have hpos : 0 < s.trail.length := by
    cases htrail : s.trail with
    | nil =>
        rw [htrail] at hs
        cases hs
    | cons first rest => exact Nat.succ_pos rest.length
  have hindex : s.trail.length + 1 - 2 = s.trail.length - 1 := by omega
  rw [List.getLast?_eq_getElem?] at hs
  unfold Walk.below?
  rw [List.length_append, List.length_singleton, if_pos (by omega), hindex,
    List.getElem?_append_left (by omega), hs]

/-- **Names come to the value at their place, with the value that they were taken from below it.** -/
theorem advance_names_concat {front : List String} {last : String}
    {document this value : Value} (hthis : document.at? front = some this)
    (hvalue : document.at? (front ++ [last]) = some value) :
    ∃ s : State, advance env ((front ++ [last]).map .plain) .read false .root (.start document) =
        (.ok (.place (front ++ [last])), s) ∧
      s.document = document ∧ receiver s = (.ok this, s) := by
  have hroot : (State.start document).document.at? [] = some document := rfl
  obtain ⟨trail, hfront⟩ := advance_read_names env front hroot
  rw [Plain.read_eq_ok_iff.mpr hthis] at hfront
  have htop : trail.getLast? = some (.place front) := getLast?_trail_advance env rfl hfront
  have hchild : (Focus.place front).child? document last = some (.place (front ++ [last])) := by
    rw [Focus.child?, hthis, Option.bind_some, ← Value.at?_concat hthis, hvalue]
    rfl
  have hlast : access (.place front) last .read false ⟨document, trail⟩ =
      (.ok (.place (front ++ [last])), ⟨document, trail⟩) := access_read_of_some hchild
  let s : State := ⟨document, trail ++ [.place (front ++ [last])]⟩
  have hbelow : Walk.below? s = (.ok (some (.place front)), s) :=
    below?_concat (s := ⟨document, trail⟩) htop
  have hread : Walk.read (.place front) s = (.ok this, s) := by
    simp only [s, Walk.read, Walk.asking, Focus.value, Focus.lookup, hthis]
  refine ⟨s, ?_, rfl, (Walk.bind_of_ok hbelow).trans hread⟩
  rw [List.map_append, advance_append_read, Focus.root, Walk.bind_of_ok hfront, List.map_singleton,
    advance_singleton]
  exact Walk.bind_of_ok hlast

/-! ### Arguments -/

/-- **What is found is spread as its value is**, whether it is a list of results or an array. -/
theorem spreadArguments_fst (found : Focus) (s : State) :
    (spreadArguments found s).1 = (found.value s.document).map Value.asArguments := by
  -- Only a list of results is not read first, and its value is the array of what it holds.
  have hread : ∀ single : Focus,
      ((Walk.read single >>= fun value =>
        match value with
        | .array items => pure items
        | other => pure [other] : Walk (List Value)) s).1 =
        (single.value s.document).map Value.asArguments := by
    intro single
    have happly : Walk.read single s = (single.value s.document, s) := rfl
    rw [Walk.bind_apply, happly]
    rcases single.value s.document with fault | value
    · rfl
    · cases value <;> rfl
  cases found with
  | place path => exact hread (.place path)
  | detached value => exact hread (.detached value)
  | fan items =>
      rw [Focus.value_fan]
      show Focus.values s.document items = _
      cases Focus.values s.document items <;> rfl

/-- The arguments of a call: none without an argument path. -/
def givenArguments (inner : TokenSet) (focus : Focus) : Walk (List Value) :=
  if inner.tokens.isEmpty then pure []
  else do
    spreadArguments (← Walk.enclosed (advance env inner.tokens .read false focus))

/-- **An argument path gives what it reads**, spread. -/
theorem givenArguments_fst (inner : TokenSet) (focus : Focus) (s : State) :
    (givenArguments env inner focus s).1 =
      if inner.tokens.isEmpty then .ok []
      else (readFrom env inner.tokens focus s).1.map Value.asArguments := by
  unfold givenArguments
  by_cases hempty : inner.tokens.isEmpty = true
  · rw [if_pos hempty, if_pos hempty]
    rfl
  · rw [if_neg hempty, if_neg hempty, readFrom, Walk.bind_apply, Walk.bind_apply,
      Walk.enclosed_apply]
    rcases advance env inner.tokens .read false focus s with ⟨fault | found, t⟩
    · rfl
    · exact spreadArguments_fst found _

/-! ### The call -/

/-- **A call finds what the function answers**, once it is known with its receiver. -/
theorem step_call_apply {name : String} {this : Value} (inner : TokenSet)
    (hcallee : focus.value s.document = .ok (.function name)) (hthis : receiver s = (.ok this, s)) :
    step env (.container .call inner false) .read false focus s =
      (givenArguments env inner focus >>= fun given =>
        match env.functions name this given with
        | some answer => pure (.detached answer)
        | none => Walk.fail (.notFound .result)) s := by
  have hread : Walk.read focus s = (.ok (.function name), s) := by
    rw [Walk.read, Walk.asking, hcallee]
  exact (Walk.bind_of_ok hread).trans (Walk.bind_of_ok hthis)

/-- **A call reads what the function answers** to the receiver and the arguments; it fails as the arguments
do, or if there is no answer. -/
theorem readFrom_call_fst {name : String} {this : Value} (inner : TokenSet)
    (hcallee : focus.value s.document = .ok (.function name)) (hthis : receiver s = (.ok this, s)) :
    (readFrom env [.container .call inner false] focus s).1 =
      (givenArguments env inner focus s).1.bind fun given =>
        match env.functions name this given with
        | some answer => .ok answer
        | none => .error (.notFound .result) := by
  rw [readFrom_singleton_apply, step_call_apply env inner hcallee hthis, Walk.bind_apply]
  rcases givenArguments env inner focus s with ⟨fault | given, t⟩
  · rfl
  · simp only [Except.bind]
    cases env.functions name this given <;> rfl

/-- **A call on names.**  If names reach a function, a call behind them gives it what all the names but the
last reach as its receiver, and as its arguments what the argument path reads behind the names: none without
an argument path, the items of an array, wherever the array is from, and anything else as the only one.  The
call reads what the function answers, and fails if it does not answer; if the argument path fails, the call
fails with it. -/
theorem read_call (env : Env) {names : List String} (hne : names ≠ []) {document : Value}
    {name : String} (hfunction : document.at? names = some (.function name)) (inner : TokenSet) :
    ∃ this, document.at? names.dropLast = some this ∧
      read env (names.map .plain ++ [.container .call inner false]) document =
        (if inner.tokens.isEmpty then .ok []
          else (read env (names.map .plain ++ inner.tokens) document).map Value.asArguments).bind
          fun given =>
            match env.functions name this given with
            | some answer => .ok answer
            | none => .error (.notFound .result) := by
  obtain ⟨front, last, rfl⟩ := (List.eq_nil_or_concat names).resolve_left hne
  rw [List.concat_eq_append] at hfunction ⊢
  rw [List.dropLast_concat]
  obtain ⟨this, hthis, -⟩ := Option.bind_eq_some_iff.mp ((Value.at?_append _ _ _).symm.trans hfunction)
  refine ⟨this, hthis, ?_⟩
  obtain ⟨s, hadvance, hdocument, hreceiver⟩ := advance_names_concat env hthis hfunction
  have hcallee : (Focus.place (front ++ [last])).value s.document = .ok (.function name) := by
    rw [hdocument, Focus.value, Focus.lookup, hfunction]
  -- The argument path is resolved where the names have come to.
  rw [read_append_of_ok hadvance, read_append_of_ok hadvance,
    readFrom_call_fst env inner hcallee hreceiver, givenArguments_fst]

/-- A method that is given, from its receiver, what is read on every element of an array, and the items of
an array; one with an argument path that fails. -/
theorem read_call_spread :
    let shop : Value := .object
      [("total", .function "total"), ("tags", .array [.null, .string "new"]), ("items", .array
        [.object [("price", .integer 2)], .object [("price", .integer 3)]])]
    let document : Value := .object [("shop", shop)]
    let env : Env :=
      { arguments := []
        functions := fun name this given =>
          if name = "total" then some (.array (this :: given)) else none
        force := false }
    let above (name : String) : Token := .word ⟨name, { parent := 1 }, none, false⟩
    let call (inner : List Token) : List Token :=
      ["shop", "total"].map .plain ++ [.container .call (TokenSet.ofTokens inner) false]
    ["shop", "total"] ≠ [] ∧ document.at? ["shop", "total"] = some (.function "total") ∧
      document.at? ["shop"] = some shop ∧
      read env (call [above "items", .word ⟨"price", .none, none, true⟩]) document =
        .ok (.array [shop, .integer 2, .integer 3]) ∧
      read env (call [above "tags"]) document = .ok (.array [shop, .null, .string "new"]) ∧
      read env (call [.plain "tags"]) document = .error (.notFound (.member "tags")) := by
  intro shop document env above call
  have hfunction : document.at? ["shop", "total"] = some (.function "total") := rfl
  have hcall := fun inner => read_call env (List.cons_ne_nil _ _) hfunction (TokenSet.ofTokens inner)
  refine ⟨by decide, hfunction, rfl, ?_, ?_, ?_⟩
  · obtain ⟨this, hthis, hprices⟩ := hcall [above "items", .word ⟨"price", .none, none, true⟩]
    cases hthis
    exact hprices
  · obtain ⟨this, hthis, htags⟩ := hcall [above "tags"]
    cases hthis
    exact htags
  · obtain ⟨this, -, hmissing⟩ := hcall [.plain "tags"]
    exact hmissing

end Resolve

end PathExpr
