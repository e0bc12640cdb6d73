import PathExpr.Proofs.Calls
import PathExpr.Proofs.Course
import PathExpr.Proofs.Persistence

/-!
# Where the faults of a read come from

A read fails only where some point of its course fails *by itself* (`Point.Fails`): a member, a context on
the trail, an argument or an answer is missing, a pattern is invalid, or a value is of the wrong kind.  That
a place dangles is not among these (`Point.Fails.ne_place`): wherever a value is asked for it is there, and
only what it is may not do.

What carries this is soundness.  At a sound point the context has a value, and so have the receiver and what
the tokens of an argument path or a computed name find.  So a fault is the point's own, or that of a point
which it leads to and which is sound again: shown for each form of a token (`Task.Explained`), by induction
on the tokens.
-/

namespace PathExpr.Resolve

variable {env : Env}

/-! ### Failing by oneself -/

/-- **A point fails by itself**, not on behalf of a point that it leads to. -/
inductive Point.Fails (env : Env) : Point → PathError → Prop where
  /-- A plain name reaches nothing. -/
  | plain {name : String} {focus : Focus} {s : State} (h : focus.child? s.document name = none) :
      Fails env ⟨.token (.plain name), focus, s⟩ (.notFound (.member name))
  /-- The trail is too short for the modifiers. -/
  | ancestor {w : Word} {focus : Focus} {s : State} (heach : w.each = false)
      (hparent : 0 < w.modifiers.parent) (h : s.trail.length ≤ w.modifiers.parent) :
      Fails env ⟨.token (.word w), focus, s⟩
        (.notFound (.ancestor w.modifiers.parent s.trail.length))
  /-- A name for an argument has none. -/
  | argument {w : Word} {focus : Focus} {s : State} {fault : PathError}
      (hcontext : w.modifiers.context = true) (h : env.argumentOrText w.name = .error fault) :
      Fails env ⟨.name w, focus, s⟩ fault
  /-- A placeholder has no text. -/
  | placeholder {w : Word} {focus : Focus} {s : State} {fault : PathError}
      (hcontext : w.modifiers.context = false) (h : env.wordName w = .error fault) :
      Fails env ⟨.name w, focus, s⟩ fault
  /-- A pattern is invalid. -/
  | pattern {w : Word} {name : String} {focus : Focus} {s : State} {fault : PathError}
      (hcontext : w.modifiers.context = false) (hname : env.wordName w = .ok name)
      (h : Glob.ofWord? w name = .error fault) : Fails env ⟨.name w, focus, s⟩ fault
  /-- A pattern meets a value without members. -/
  | names {w : Word} {name : String} {glob : Glob} {focus : Focus} {value : Value} {s : State}
      (hcontext : w.modifiers.context = false) (hname : env.wordName w = .ok name)
      (hglob : Glob.ofWord? w name = .ok (some glob)) (hvalue : focus.value s.document = .ok value)
      (h : value.memberNames? = none) :
      Fails env ⟨.name w, focus, s⟩ (.mismatch (.wildcard value.kind))
  /-- A name, in the context that its modifiers lead to, reaches nothing. -/
  | name {w : Word} {name : String} {focus : Focus} {s : State}
      (hcontext : w.modifiers.context = false) (hname : env.wordName w = .ok name)
      (hglob : Glob.ofWord? w name = .ok none) (h : focus.child? s.document name = none) :
      Fails env ⟨.name w, focus, s⟩ (.notFound (.member name))
  /-- A broadcast meets a value that is no array. -/
  | elements {token : Token} {focus : Focus} {value : Value} {s : State} (heach : token.each = true)
      (hvalue : focus.value s.document = .ok value) (h : ∀ items, value ≠ .array items) :
      Fails env ⟨.token token, focus, s⟩ (.mismatch (.each value.kind))
  /-- A call meets a value that is no function. -/
  | callee {inner : TokenSet} {focus : Focus} {value : Value} {s : State}
      (hvalue : focus.value s.document = .ok value) (h : ∀ name, value ≠ .function name) :
      Fails env ⟨.token (.container .call inner false), focus, s⟩ (.mismatch (.callee value.kind))
  /-- A function does not answer. -/
  | answer {inner : TokenSet} {name : String} {focus : Focus} {this : Value} {given : List Value}
      {s : State} (hvalue : focus.value s.document = .ok (.function name))
      (hthis : receiver s = (.ok this, s)) (hgiven : (givenArguments env inner focus s).1 = .ok given)
      (h : env.functions name this given = none) :
      Fails env ⟨.token (.container .call inner false), focus, s⟩ (.notFound .result)
  /-- The value of a computed name has no text. -/
  | computedName {inner : TokenSet} {focus found : Focus} {value : Value} {s t : State}
      (hfound : Walk.enclosed (advance env inner.tokens .read false focus) s = (.ok found, t))
      (hvalue : found.value t.document = .ok value) (h : value.key? = none) :
      Fails env ⟨.token (.container .evalProperty inner false), focus, s⟩
        (.mismatch (.computedName value.kind))
  /-- A computed name reaches nothing. -/
  | computed {inner : TokenSet} {name : String} {focus found : Focus} {value : Value} {s t : State}
      (hfound : Walk.enclosed (advance env inner.tokens .read false focus) s = (.ok found, t))
      (hvalue : found.value t.document = .ok value) (hkey : value.key? = some name)
      (h : focus.child? t.document name = none) :
      Fails env ⟨.token (.container .evalProperty inner false), focus, s⟩ (.notFound (.member name))

/-!
### What is missing is no place

Arguments, placeholders and patterns have faults of their own, and none of these is that a place dangles.
-/

section Missing

variable {text : String} {fault : PathError}

theorem Env.argument_ne_place {number : Nat} (h : env.argument number = .error fault)
    (path : List String) : fault ≠ .notFound (.place path) := by
  unfold Env.argument at h
  split at h
  · cases h
    exact nofun
  · split at h
    · cases h
    · cases h
      exact nofun

theorem Env.argumentOrText_ne_place (h : env.argumentOrText text = .error fault)
    (path : List String) : fault ≠ .notFound (.place path) := by
  unfold Env.argumentOrText at h
  split at h
  · cases h
  · exact Env.argument_ne_place h path

theorem Env.placeholder_ne_place (h : env.placeholder text = .error fault) (path : List String) :
    fault ≠ .notFound (.place path) := by
  unfold Env.placeholder at h
  split at h
  · cases h
    exact nofun
  · split at h
    · next hargument =>
        cases h
        exact Env.argument_ne_place hargument path
    · split at h
      · cases h
      · cases h
        exact nofun

theorem Env.wordName_ne_place {w : Word} (h : env.wordName w = .error fault) (path : List String) :
    fault ≠ .notFound (.place path) := by
  unfold Env.wordName at h
  split at h
  · exact Env.placeholder_ne_place h path
  · cases h

theorem Glob.ofPattern_ne_place (h : Glob.ofPattern text = .error fault) (path : List String) :
    fault ≠ .notFound (.place path) := by
  unfold Glob.ofPattern at h
  split at h
  · cases h
  · split at h
    · cases h
      exact nofun
    · cases h

theorem Glob.ofPlace_ne_place {offset : Nat} (h : Glob.ofPlace text offset = .error fault)
    (path : List String) : fault ≠ .notFound (.place path) := by
  unfold Glob.ofPlace at h
  split at h
  · split at h
    · cases h
    · exact Glob.ofPattern_ne_place h path
  · exact Glob.ofPattern_ne_place h path

theorem Glob.ofWord?_ne_place {w : Word} (h : Glob.ofWord? w text = .error fault)
    (path : List String) : fault ≠ .notFound (.place path) := by
  unfold Glob.ofWord? at h
  split at h
  · split at h
    · exact Glob.ofPattern_ne_place (eq_error_of_map h) path
    · cases h
  · split at h
    · exact Glob.ofPlace_ne_place (eq_error_of_map h) path
    · cases h

/-- **What a point fails with by itself** is never that a place dangles. -/
theorem Point.Fails.ne_place {p : Point} (h : p.Fails env fault) (path : List String) :
    fault ≠ .notFound (.place path) := by
  cases h with
  | argument hcontext hfault => exact Env.argumentOrText_ne_place hfault path
  | placeholder hcontext hfault => exact Env.wordName_ne_place hfault path
  | pattern hcontext hname hfault => exact Glob.ofWord?_ne_place hfault path
  | _ => exact nofun

end Missing

/-! ### Single tokens that fail -/

section Single

variable {focus found : Focus} {value : Value} {s t : State} {inner : TokenSet} {fault : PathError}

/-- A member cannot be read if the name reaches nothing. -/
theorem access_eq_error_iff {name : String} :
    (access focus name .read false s).1 = .error fault ↔
      focus.child? s.document name = none ∧ .notFound (.member name) = fault := by
  cases hfound : focus.child? s.document name with
  | some found =>
      rw [access_read_of_some hfound]
      exact iff_of_false nofun nofun
  | none =>
      rw [access_read_of_none hfound, if_neg Bool.false_ne_true, Except.error.injEq]
      exact (and_iff_right rfl).symm

/-- There is no context some levels down if the trail is too short. -/
theorem ancestor_eq_error_iff {levels : Nat} :
    (Walk.ancestor levels s).1 = .error fault ↔
      s.trail.length ≤ levels ∧ .notFound (.ancestor levels s.trail.length) = fault := by
  unfold Walk.ancestor
  by_cases hlt : levels < s.trail.length
  · rw [if_pos hlt, List.getElem?_eq_getElem (by omega)]
    exact iff_of_false nofun fun h => absurd h.1 (Nat.not_le_of_lt hlt)
  · rw [if_neg hlt, Except.error.injEq]
    exact (and_iff_right (Nat.le_of_not_lt hlt)).symm

/-- The context that a name starts from can be missing only if there is a parent modifier. -/
theorem origin_eq_error_iff {modifiers : Modifiers} :
    (origin modifiers focus s).1 = .error fault ↔
      0 < modifiers.parent ∧ s.trail.length ≤ modifiers.parent ∧
        .notFound (.ancestor modifiers.parent s.trail.length) = fault := by
  -- The document is always at the bottom of the trail.
  have hroot : ¬ ∃ found t, (if 0 < modifiers.parent then Walk.ancestor modifiers.parent
      else pure focus) s = (.ok found, t) ∧
        ((if modifiers.root then Walk.rewind else pure found) t).1 = .error fault := by
    rintro ⟨found, t, -, hfault⟩
    split at hfault <;> cases hfault
  rw [origin, Walk.bind_eq_error_iff, or_iff_left hroot]
  by_cases hpos : 0 < modifiers.parent
  · rw [if_pos hpos, ancestor_eq_error_iff, and_iff_right hpos]
  · rw [if_neg hpos]
    exact iff_of_false nofun fun h => hpos h.1

/-- A pattern over a value without members fails. -/
theorem wildcard_fst_of_no_members (glob : Glob)
    (hvalue : focus.value s.document = .ok value) (h : value.memberNames? = none) :
    (wildcard focus glob .read s).1 = .error (.mismatch (.wildcard value.kind)) := by
  have hstands : focus.StandsFor s.document value := hvalue
  have hasking : Walk.asking focus.memberNames s = (.error (.mismatch (.wildcard value.kind)), s) := by
    rw [Walk.asking, hstands.memberNames, Focus.valueNames, h]
  exact congrArg Prod.fst (Walk.bind_of_error hasking)

/-- First the context is found that a name starts from, then the name is read. -/
theorem step_word_of_not_each {w : Word} (h : w.each = false) :
    step env (.word w) .read false focus = origin w.modifiers focus >>= named env w := by
  rw [step_word, h, ← word_read_eq_bind]
  rfl

/-- A broadcast over anything but an array fails. -/
theorem step_each_fst {token : Token} (heach : token.each = true)
    (hvalue : focus.value s.document = .ok value) (h : ∀ items, value ≠ .array items) :
    (step env token .read false focus s).1 = .error (.mismatch (.each value.kind)) := by
  have hstands : focus.StandsFor s.document value := hvalue
  have hasking : Walk.asking focus.elements s = (.error (.mismatch (.each value.kind)), s) := by
    rw [Walk.asking, hstands.elements_eq_error h]
  rw [step_eq_spread, heach]
  exact congrArg Prod.fst (Walk.bind_of_error hasking)

/-- A call of anything but a function fails. -/
theorem step_callee_fst (inner : TokenSet) (hvalue : focus.value s.document = .ok value)
    (h : ∀ name, value ≠ .function name) :
    (step env (.container .call inner false) .read false focus s).1 =
      .error (.mismatch (.callee value.kind)) := by
  have hread : Walk.read focus s = (.ok value, s) := by rw [Walk.read, Walk.asking, hvalue]
  show (call env focus (givenArguments env inner focus) s).1 = _
  unfold call
  rw [Walk.bind_of_ok hread]
  cases value with
  | function name => exact absurd rfl (h name)
  | _ => rfl

/-- A computed name is read where it stands, once the value is known that has its text. -/
theorem step_computed_of_found
    (hfound : Walk.enclosed (advance env inner.tokens .read false focus) s = (.ok found, t))
    (hvalue : found.value t.document = .ok value) :
    step env (.container .evalProperty inner false) .read false focus s =
      match value.key? with
      | some name => access focus name .read false t
      | none => (.error (.mismatch (.computedName value.kind)), t) := by
  have hread : Walk.read found t = (.ok value, t) := by rw [Walk.read, Walk.asking, hvalue]
  rw [step_computed]
  show (Walk.enclosed (advance env inner.tokens .read false focus) >>= fun found =>
    computedName found >>= fun name => access focus name .read false) s = _
  rw [Walk.bind_of_ok hfound, computedName, bind_assoc, Walk.bind_of_ok hread]
  cases value.key? <;> rfl

/-- **A point that fails by itself fails** with that fault. -/
theorem Point.Fails.run_fst {p : Point} (h : p.Fails env fault) :
    (p.run env).1 = .error fault := by
  cases h with
  | plain hmissing => exact access_eq_error_iff.mpr ⟨hmissing, rfl⟩
  | @ancestor w focus s heach hparent hlength =>
      show (step env (.word w) .read false focus s).1 = _
      rw [step_word_of_not_each heach]
      exact Walk.bind_eq_error_iff.mpr (.inl (origin_eq_error_iff.mpr ⟨hparent, hlength, rfl⟩))
  | @argument w focus s fault hcontext hargument =>
      show (named env w focus s).1 = _
      rw [named_of_context env focus hcontext]
      exact Walk.bind_eq_error_iff.mpr (.inl hargument)
  | @placeholder w focus s fault hcontext hname =>
      show (named env w focus s).1 = _
      rw [named_of_not_context env focus hcontext]
      exact Walk.bind_eq_error_iff.mpr (.inl hname)
  | @pattern w name focus s fault hcontext hname hpattern =>
      show (named env w focus s).1 = _
      rw [named_of_name env focus hcontext hname]
      exact Walk.bind_eq_error_iff.mpr (.inl hpattern)
  | @names w name glob focus value s hcontext hname hglob hvalue hmembers =>
      have hofWord : Walk.ofExcept (Glob.ofWord? w name) s = (.ok (some glob), s) :=
        congrArg (·, s) hglob
      show (named env w focus s).1 = _
      rw [named_of_name env focus hcontext hname, Walk.bind_of_ok hofWord]
      exact wildcard_fst_of_no_members glob hvalue hmembers
  | @name w name focus s hcontext hname hglob hmissing =>
      have hofWord : Walk.ofExcept (Glob.ofWord? w name) s = (.ok none, s) := congrArg (·, s) hglob
      show (named env w focus s).1 = _
      rw [named_of_name env focus hcontext hname, Walk.bind_of_ok hofWord]
      exact access_eq_error_iff.mpr ⟨hmissing, rfl⟩
  | elements heach hvalue harray => exact step_each_fst heach hvalue harray
  | callee hvalue hfunction => exact step_callee_fst _ hvalue hfunction
  | @answer inner name focus this given s hvalue hthis hgiven hanswer =>
      show (step env (.container .call inner false) .read false focus s).1 = _
      rw [step_call_apply env inner hvalue hthis, Walk.bind_of_ok (Prod.ext hgiven rfl), hanswer]
      rfl
  | @computedName inner focus found value s t hfound hvalue hkey =>
      show (step env (.container .evalProperty inner false) .read false focus s).1 = _
      rw [step_computed_of_found hfound hvalue, hkey]
  | @computed inner name focus found value s t hfound hvalue hkey hmissing =>
      show (step env (.container .evalProperty inner false) .read false focus s).1 = _
      rw [step_computed_of_found hfound hvalue, hkey]
      exact access_eq_error_iff.mpr ⟨hmissing, rfl⟩

end Single

/-! ### What does not fail at a sound point -/

section Sound

variable {document : Value} {focus : Focus} {s : State} {fault : PathError}

/-- A focus has a value at a sound point. -/
theorem State.Sound.exists_value (hs : s.Sound document)
    (h : focus.Standing document) : ∃ value, focus.value s.document = .ok value := by
  rw [hs.document_eq]
  exact h

/-- **A receiver is always there.** -/
theorem State.Sound.exists_receiver (hs : s.Sound document) :
    ∃ this, receiver s = (.ok this, s) := by
  have hbelow := (Walk.reads_below? s hs).2
  have happly : Walk.below? s = ((Walk.below? s).1, s) := rfl
  cases hframe : (Walk.below? s).1 with
  | error failed => cases hframe
  | ok frame? =>
      rw [hframe] at happly
      cases frame? with
      | none => exact ⟨.null, Walk.bind_of_ok happly⟩
      | some frame =>
          obtain ⟨this, hthis⟩ := hs.exists_value (hbelow _ hframe frame rfl)
          have hread : Walk.read frame s = (.ok this, s) := by rw [Walk.read, Walk.asking, hthis]
          exact ⟨this, (Walk.bind_of_ok happly).trans hread⟩

/-- **One of several items fails**, behind others that find something. -/
theorem exists_of_gather_map_eq_error {α : Type} {items : List α} {walk : α → Walk Focus}
    (h : (Walk.gather false (items.map fun item => some <$> walk item) s).1 = .error fault) :
    ∃ before item after found t, items = before ++ item :: after ∧
      Walk.gather false (before.map fun item => some <$> walk item) s = (.ok found, t) ∧
      (walk item t).1 = .error fault := by
  obtain ⟨walks, failing, others, found, t, hwalks, hbefore, hfault⟩ := Walk.exists_of_gather_eq_error h
  obtain ⟨before, rest, rfl, rfl, hrest⟩ := List.map_eq_append_iff.mp hwalks
  obtain ⟨item, after, rfl, rfl, -⟩ := List.map_eq_cons_iff.mp hrest
  refine ⟨before, item, after, found, t, rfl, hbefore, ?_⟩
  rcases Walk.bind_eq_error_iff.mp hfault with hitem | ⟨result, u, -, hpure⟩
  · exact hitem
  · cases hpure

/-- **A pattern fails only on a value without members**: what the names of members reach is there. -/
theorem wildcard_fst_eq_error {glob : Glob} (hs : s.Sound document)
    (hfocus : focus.Standing document) (h : (wildcard focus glob .read s).1 = .error fault) :
    ∃ value, focus.value s.document = .ok value ∧ value.memberNames? = none ∧
      .mismatch (.wildcard value.kind) = fault := by
  obtain ⟨value, hvalue⟩ := hs.exists_value hfocus
  have hstands : focus.StandsFor s.document value := hvalue
  cases hnames : value.memberNames? with
  | none =>
      rw [wildcard_fst_of_no_members glob hvalue hnames] at h
      exact ⟨value, hvalue, hnames, Except.error.inj h⟩
  | some names =>
      have hasking : Walk.asking focus.memberNames s = (.ok names, s) := by
        rw [Walk.asking, hstands.memberNames, Focus.valueNames, hnames]
      rw [wildcard, Walk.bind_of_ok hasking] at h
      rcases Walk.bind_eq_error_iff.mp h with hgather | ⟨found, t, -, hpure⟩
      · obtain ⟨before, name, after, found, t, hmatching, hbefore, hname⟩ :=
          exists_of_gather_map_eq_error hgather
        have hmem : name ∈ names.filter glob.matchesName :=
          hmatching ▸ List.mem_append_right before List.mem_cons_self
        obtain ⟨child, hchild⟩ :=
          Value.exists_child?_iff.mpr ⟨names, hnames, (List.mem_filter.mp hmem).1⟩
        have hreads := Walk.reads_gather_map before (fun other => access focus other .read false)
          (fun other _ => access_reads hfocus other) s hs
        rw [hbefore] at hreads
        obtain ⟨hmissing, -⟩ := access_eq_error_iff.mp hname
        have hreached := hstands.child? name
        rw [hchild, hs.document_eq, ← hreads.1.document_eq, hmissing] at hreached
        cases hreached
      · cases hpure

/-- **A read fails only where its tokens do**: what they find has a value. -/
theorem advance_fst_eq_error {tokens : List Token} (hs : s.Sound document)
    (hfocus : focus.Standing document)
    (h : (readFrom env tokens focus s).1 = .error fault) :
    (advance env tokens .read false focus s).1 = .error fault := by
  rcases Walk.bind_eq_error_iff.mp h with hadvance | ⟨found, t, hadvance, hread⟩
  · exact hadvance
  · have hreads := advance_reads env tokens hfocus s hs
    rw [hadvance] at hreads
    obtain ⟨value, hvalue⟩ := hreads.1.exists_value (hreads.2 found rfl)
    have hfound : found.value t.document = .error fault := hread
    rw [hvalue] at hfound
    cases hfound

end Sound

/-! ### Every fault has an origin -/

/-- Some point that a point leads to fails by itself with the fault. -/
def Point.Blames (env : Env) (p : Point) (fault : PathError) : Prop :=
  ∃ q, Relation.ReflTransGen (Leads env) p q ∧ q.Fails env fault

theorem Point.Fails.blames {p : Point} {fault : PathError} (h : p.Fails env fault) :
    p.Blames env fault := ⟨p, .refl, h⟩

/-- **Whatever a task fails with at a sound point is explained**: a point fails with it by itself that the
one at hand leads to. -/
def Task.Explained (env : Env) (document : Value) (task : Task) : Prop :=
  ∀ (focus : Focus) (s : State), (Point.mk task focus s).Sound document →
    ∀ fault, ((Point.mk task focus s).run env).1 = .error fault → (Point.mk task focus s).Blames env fault

section Origin

variable {document : Value}

/-- What a point fails with that another one leads to is explained of the other. -/
theorem Task.Explained.blames {task : Task} (h : task.Explained env document) {p : Point}
    (hp : p.Sound document) {focus : Focus} {s : State} (hleads : Leads env p ⟨task, focus, s⟩)
    {fault : PathError} (hfault : ((Point.mk task focus s).run env).1 = .error fault) :
    p.Blames env fault := by
  obtain ⟨failing, hreaches, hfails⟩ := h focus s (hp.of_leads hleads) fault hfault
  exact ⟨failing, .head hleads hreaches, hfails⟩

theorem explained_plain (name : String) : Task.Explained env document (.token (.plain name)) := by
  intro focus s hs fault hfault
  obtain ⟨hmissing, rfl⟩ := access_eq_error_iff.mp hfault
  exact (Point.Fails.plain hmissing).blames

/-- A name, in the context that its modifiers lead to. -/
theorem explained_name (w : Word) : Task.Explained env document (.name w) := by
  intro focus s hs fault hfault
  have hrun : (named env w focus s).1 = .error fault := hfault
  cases hcontext : w.modifiers.context with
  | true =>
      rw [named_of_context env focus hcontext] at hrun
      rcases Walk.bind_eq_error_iff.mp hrun with hargument | ⟨value, t, -, hpure⟩
      · exact (Point.Fails.argument hcontext hargument).blames
      · cases hpure
  | false =>
      rw [named_of_not_context env focus hcontext] at hrun
      rcases Walk.bind_eq_error_iff.mp hrun with hname | ⟨name, t, hofName, hrest⟩
      · exact (Point.Fails.placeholder hcontext hname).blames
      · obtain ⟨hname, rfl⟩ := Prod.mk.inj hofName
        rcases Walk.bind_eq_error_iff.mp hrest with hpattern | ⟨glob?, t, hofWord, hlast⟩
        · exact (Point.Fails.pattern hcontext hname hpattern).blames
        · obtain ⟨hglob, rfl⟩ := Prod.mk.inj hofWord
          cases glob? with
          | some glob =>
              obtain ⟨value, hvalue, hmembers, rfl⟩ := wildcard_fst_eq_error hs.state hs.focus hlast
              exact (Point.Fails.names hcontext hname hglob hvalue hmembers).blames
          | none =>
              obtain ⟨hmissing, rfl⟩ := access_eq_error_iff.mp hlast
              exact (Point.Fails.name hcontext hname hglob hmissing).blames

theorem explained_word {w : Word} (heach : w.each = false) :
    Task.Explained env document (.token (.word w)) := by
  intro focus s hs fault hfault
  have hrun : (step env (.word w) .read false focus s).1 = .error fault := hfault
  rw [step_word_of_not_each heach] at hrun
  rcases Walk.bind_eq_error_iff.mp hrun with horigin | ⟨found, t, horigin, hnamed⟩
  · obtain ⟨hparent, hlength, rfl⟩ := origin_eq_error_iff.mp horigin
    exact (Point.Fails.ancestor heach hparent hlength).blames
  · exact (explained_name w).blames hs (.name heach horigin) hnamed

/-- Tokens in sequence, if each of them is. -/
theorem explained_sequence {tokens : List Token}
    (h : ∀ token ∈ tokens, Task.Explained env document (.token token)) :
    Task.Explained env document (.sequence tokens) := by
  induction tokens with
  | nil => exact fun focus s hs fault hfault => nomatch hfault
  | cons token rest ih =>
      obtain ⟨hfirst, hrest⟩ := List.forall_mem_cons.mp h
      intro focus s hs fault hfault
      have hrun : (advance env (token :: rest) .read false focus s).1 = .error fault := hfault
      rw [advance_cons_read] at hrun
      rcases Walk.bind_eq_error_iff.mp hrun with hstep | ⟨found, t, hstep, hlast⟩
      · exact hfirst.blames hs (.first token rest focus s) hstep
      · exact (ih hrest).blames hs (.rest rest hstep) hlast

/-- A collection, if its items are. -/
theorem explained_collection {items : List Token}
    (h : ∀ item ∈ items, Task.Explained env document (.token item)) :
    Task.Explained env document (.token (.collection items false)) := by
  intro focus s hs fault hfault
  have hrun : (step env (.collection items false) .read false focus s).1 = .error fault := hfault
  rw [step_collection_apply] at hrun
  have hgather := eq_error_of_map hrun
  rw [members_read_eq_map] at hgather
  obtain ⟨before, item, after, found, t, rfl, hbefore, hitem⟩ := exists_of_gather_map_eq_error hgather
  rw [← members_read_eq_map] at hbefore
  have hexplained := h item (List.mem_append_right before List.mem_cons_self)
  exact hexplained.blames hs (.item after hbefore) hitem

/-- A call, if its argument path is. -/
theorem explained_call {inner : TokenSet}
    (h : Task.Explained env document (.sequence inner.tokens)) :
    Task.Explained env document (.token (.container .call inner false)) := by
  intro focus s hs fault hfault
  have hrun : (step env (.container .call inner false) .read false focus s).1 = .error fault := hfault
  obtain ⟨value, hvalue⟩ := hs.state.exists_value hs.focus
  by_cases hfunction : ∃ name, value = .function name
  · obtain ⟨name, rfl⟩ := hfunction
    obtain ⟨this, hthis⟩ := hs.state.exists_receiver
    rw [step_call_apply env inner hvalue hthis] at hrun
    rcases Walk.bind_eq_error_iff.mp hrun with hgiven | ⟨given, t, hgiven, hlast⟩
    · rw [givenArguments_fst] at hgiven
      split at hgiven
      · cases hgiven
      · next hne =>
          have htokens : inner.tokens ≠ [] := fun hnil => hne (List.isEmpty_iff.mpr hnil)
          have hadvance := advance_fst_eq_error hs.state hs.focus (eq_error_of_map hgiven)
          exact h.blames hs (.arguments hvalue hthis htokens) hadvance
    · cases hanswer : env.functions name this given with
      | some answer =>
          rw [hanswer] at hlast
          cases hlast
      | none =>
          rw [hanswer] at hlast
          cases hlast
          exact (Point.Fails.answer hvalue hthis (congrArg Prod.fst hgiven) hanswer).blames
  · have hvalue' : ∀ name, value ≠ .function name := fun name heq => hfunction ⟨name, heq⟩
    rw [step_callee_fst inner hvalue hvalue'] at hrun
    cases hrun
    exact (Point.Fails.callee hvalue hvalue').blames

/-- A computed name, if what computes it is. -/
theorem explained_computed {inner : TokenSet}
    (h : Task.Explained env document (.sequence inner.tokens)) :
    Task.Explained env document (.token (.container .evalProperty inner false)) := by
  intro focus s hs fault hfault
  have hrun : (step env (.container .evalProperty inner false) .read false focus s).1 = .error fault :=
    hfault
  rcases Walk.bind_eq_error_iff.mp hrun with hadvance | ⟨found, t, hfound, -⟩
  · exact h.blames hs (.inside inner focus s nofun) hadvance
  · have hreads := (advance_reads env inner.tokens hs.focus).enclosed s hs.state
    rw [hfound] at hreads
    obtain ⟨value, hvalue⟩ := hreads.1.exists_value (hreads.2 found rfl)
    rw [step_computed_of_found hfound hvalue] at hrun
    cases hkey : value.key? with
    | none =>
        rw [hkey] at hrun
        cases hrun
        exact (Point.Fails.computedName hfound hvalue hkey).blames
    | some name =>
        rw [hkey] at hrun
        obtain ⟨hmissing, rfl⟩ := access_eq_error_iff.mp hrun
        exact (Point.Fails.computed hfound hvalue hkey hmissing).blames

/-- **A container**, if what it encloses is. -/
theorem explained_container {role : ContainerRole} {inner : TokenSet}
    (h : Task.Explained env document (.sequence inner.tokens)) :
    Task.Explained env document (.token (.container role inner false)) := by
  cases role with
  | call => exact explained_call h
  | evalProperty => exact explained_computed h
  | property | singleQuote | doubleQuote =>
      exact fun focus s hs fault hfault => h.blames hs (.inside inner focus s nofun) hfault

/-- **A broadcast**, if the token without it is. -/
theorem explained_of_single {token : Token} (h : Task.Explained env document (.token token.single)) :
    Task.Explained env document (.token token) := by
  cases heach : token.each with
  | false =>
      rw [Token.single_of_not_each heach] at h
      exact h
  | true =>
      intro focus s hs fault hfault
      have hrun : (step env token .read false focus s).1 = .error fault := hfault
      obtain ⟨value, hvalue⟩ := hs.state.exists_value hs.focus
      by_cases harray : ∃ items, value = .array items
      · obtain ⟨items, rfl⟩ := harray
        have hstands : focus.StandsFor s.document (.array items) := hvalue
        obtain ⟨elements, helements, -⟩ := hstands.elements
        rw [step_each_apply env heach helements] at hrun
        rcases Walk.bind_eq_error_iff.mp hrun with hgather | ⟨found, t, -, hpure⟩
        · obtain ⟨before, element, after, found, t, rfl, hbefore, helement⟩ :=
            exists_of_gather_map_eq_error hgather
          exact h.blames hs (.element heach helements hbefore) helement
        · cases hpure
      · have hvalue' : ∀ items, value ≠ .array items := fun items heq => harray ⟨items, heq⟩
        rw [step_each_fst heach hvalue hvalue'] at hrun
        cases hrun
        exact (Point.Fails.elements heach hvalue hvalue').blames

/-- **Every token is explained**, by induction on it. -/
theorem explained_token (token : Token) : Task.Explained env document (.token token) := by
  induction token with
  | plain name => exact explained_plain name
  | word w => exact explained_of_single (explained_word rfl)
  | collection items each ih => exact explained_of_single (explained_collection ih)
  | container role inner each ih =>
      exact explained_of_single (explained_container (explained_sequence ih))

end Origin

/-- **No place dangles in a read.**  Whatever document is read, by whatever tokens and with whatever arguments
and functions: at every point that the read comes to, the document is as it was, and each focus there, be it
the context, one on the trail or a result, has a value, and so has each place in it, however deep in lists of
results.  So no look-up fails, and a fault of the read is one that some point fails with by itself; it is
never that there is nothing at a place. -/
theorem reads_never_dangle (env : Env) (tokens : List Token) (document : Value) :
    (∀ p, Visits env tokens document p → p.state.document = document ∧
      ∀ focus, p.Holds env focus → (∃ value, focus.value document = .ok value) ∧
        ∀ path ∈ focus.places, ∃ value, Focus.lookup document path = .ok value) ∧
    ∀ fault, read env tokens document = .error fault →
      (∃ p, Visits env tokens document p ∧ p.Fails env fault ∧ (p.run env).1 = .error fault) ∧
        ∀ path, fault ≠ .notFound (.place path) := by
  have hstart : (Point.start tokens document).Sound document :=
    ⟨State.sound_start document, Focus.standing_root document⟩
  refine ⟨fun p hp => ?_, fun fault hfault => ?_⟩
  · have hsound := hp.sound
    exact ⟨hsound.state.document_eq, fun focus hfocus => ⟨hsound.standing hfocus,
      fun path hpath => (hsound.standing hfocus).lookup_eq_ok hpath⟩⟩
  · rw [read_eq_readFrom] at hfault
    have hadvance := advance_fst_eq_error hstart.state hstart.focus hfault
    obtain ⟨p, hvisits, hfails⟩ := explained_sequence (fun token _ => explained_token token) _ _ hstart
      fault hadvance
    exact ⟨⟨p, hvisits, hfails, hfails.run_fst⟩, hfails.ne_place⟩

/-- A broadcast that fails on its second element, whose place is there. -/
theorem reads_never_dangle_second_row :
    let tokens : List Token := [.plain "rows", .word ⟨"n", .none, none, true⟩]
    let document : Value := .object
      [("rows", .array [.object [("n", .integer 1)], .object [("m", .integer 2)]])]
    read .bare tokens document = .error (.notFound (.member "n")) ∧
      ∃ p, Visits .bare tokens document p ∧ p.Fails .bare (.notFound (.member "n")) ∧
        p.state.document = document ∧
        ∀ path ∈ p.focus.places, ∃ value, Focus.lookup document path = .ok value := by
  intro tokens document
  have hread : read .bare tokens document = .error (.notFound (.member "n")) := rfl
  obtain ⟨hpoints, hfaults⟩ := reads_never_dangle .bare tokens document
  obtain ⟨⟨p, hvisits, hfails, -⟩, -⟩ := hfaults _ hread
  obtain ⟨hdocument, hfoci⟩ := hpoints p hvisits
  exact ⟨hread, p, hvisits, hfails, hdocument, (hfoci p.focus .context).2⟩

end PathExpr.Resolve
