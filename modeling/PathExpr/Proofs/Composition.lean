import PathExpr.Proofs.Likeness
import PathExpr.Proofs.Pointwise

/-!
# Reads compose

To read tokens in sequence is to read the first of them, and then the others from the value that these
come to, as if that value were a document of its own (`read_append_eq_bind`).  This asks of the others
that they look at nothing but their context: not down the trail, by a parent modifier or a call, and not
at the document, by a root modifier.

Two runs of the same tokens are compared, one on a focus of the document and one on the value of that
focus.  They hold different documents and different trails, and where the one goes on from a place the
other may go on from another place, a value without one or a list of results.  `Walk.Mirrors` says that
they have the same outcome all the same, up to foci that are alike, and leave both documents as they
are.  Trails are not mentioned in it, since nothing is looked up on them.  The operations of the
interpreter keep to this one by one, and by induction so do all tokens (`step_mirrors`).
-/

namespace PathExpr.Resolve

/-! ### Walks that mirror each other -/

/-- **One walk mirrors another**: from any states that hold the two documents they have the same outcome,
up to a relation of their results, and leave the documents as they are. -/
def Walk.Mirrors {α β : Type} (document other : Value) (related : α → β → Prop) (walk : Walk α)
    (mirror : Walk β) : Prop :=
  ∀ s t : State, s.document = document → t.document = other →
    SameOutcome related (walk s).1 (mirror t).1 ∧
      (walk s).2.document = document ∧ (mirror t).2.document = other

namespace Walk

variable {α β γ δ : Type} {document other : Value} {related : α → β → Prop} {last : γ → δ → Prop}

theorem mirrors_pure {a : α} {b : β} (h : related a b) :
    (pure a : Walk α).Mirrors document other related (pure b) :=
  fun _ _ hs ht => ⟨.ok h, hs, ht⟩

theorem mirrors_fail (fault : PathError) :
    (fail fault : Walk α).Mirrors document other related (fail fault : Walk β) :=
  fun _ _ hs ht => ⟨.error fault, hs, ht⟩

/-- A result that depends on no document is the same in both. -/
theorem mirrors_ofExcept (result : Except PathError α) :
    (ofExcept result).Mirrors document other Eq (ofExcept result) := by
  intro s t hs ht
  refine ⟨?_, hs, ht⟩
  cases result with
  | error fault => exact .error fault
  | ok a => exact .ok rfl

/-- Questions that the two documents answer alike. -/
theorem mirrors_asking {question : Value → Except PathError α} {asked : Value → Except PathError β}
    (h : SameOutcome related (question document) (asked other)) :
    (asking question).Mirrors document other related (asking asked) := by
  rintro s t rfl rfl
  exact ⟨h, rfl, rfl⟩

/-- Walks in sequence. -/
theorem Mirrors.bind {walk : Walk α} {mirror : Walk β} {next : α → Walk γ} {reflected : β → Walk δ}
    (hwalk : walk.Mirrors document other related mirror)
    (hnext : ∀ a b, related a b → (next a).Mirrors document other last (reflected b)) :
    (walk >>= next).Mirrors document other last (mirror >>= reflected) := by
  intro s t hs ht
  obtain ⟨hresult, hleft, hright⟩ := hwalk s t hs ht
  rcases hfirst : walk s with ⟨result, s'⟩
  rcases hsecond : mirror t with ⟨outcome, t'⟩
  rw [hfirst, hsecond] at hresult
  rw [hfirst] at hleft
  rw [hsecond] at hright
  cases hresult with
  | error fault =>
      rw [bind_of_error hfirst, bind_of_error hsecond]
      exact ⟨.error fault, hleft, hright⟩
  | ok hrelated =>
      rw [bind_of_ok hfirst, bind_of_ok hsecond]
      exact hnext _ _ hrelated s' t' hleft hright

theorem Mirrors.map {walk : Walk α} {mirror : Walk β} {f : α → γ} {g : β → δ}
    (h : walk.Mirrors document other related mirror)
    (hfg : ∀ a b, related a b → last (f a) (g b)) :
    (f <$> walk).Mirrors document other last (g <$> mirror) := by
  rw [map_eq_pure_bind, map_eq_pure_bind]
  exact h.bind fun a b hab => mirrors_pure (hfg a b hab)

/-- What is put on the trail is not looked at. -/
theorem mirrors_push (focus mirror : Focus) :
    (push focus).Mirrors document other (fun _ _ => True) (push mirror) :=
  fun _ _ hs ht => ⟨.ok trivial, hs, ht⟩

theorem Mirrors.enclosed {walk : Walk α} {mirror : Walk β}
    (h : walk.Mirrors document other related mirror) :
    (enclosed walk).Mirrors document other related (enclosed mirror) :=
  fun s t hs ht => h s t hs ht

/-- In a read, several walks are walks in sequence. -/
theorem gather_cons_read (walk : Walk (Option Focus)) (rest : List (Walk (Option Focus))) :
    gather false (walk :: rest) =
      (do
        let found ← walk
        let others ← gather false rest
        return found.toList ++ others) := by
  funext s
  rcases hwalk : walk s with ⟨fault | found, t⟩
  · rw [gather_of_error hwalk, bind_of_error hwalk]
    rfl
  · rw [gather_of_ok hwalk, bind_of_ok hwalk]
    rcases hrest : gather false rest t with ⟨fault | others, u⟩
    · rw [bind_of_error hrest]
    · rw [bind_of_ok hrest]
      rfl

/-- Several walks in a read, one by one. -/
theorem mirrors_gather {related : Focus → Focus → Prop} {walks mirrors : List (Walk (Option Focus))}
    (h : List.Forall₂ (Mirrors document other (Option.Rel related)) walks mirrors) :
    (gather false walks).Mirrors document other (List.Forall₂ related) (gather false mirrors) := by
  induction h with
  | nil => exact mirrors_pure .nil
  | cons hwalk _ ih =>
      rw [gather_cons_read, gather_cons_read]
      refine hwalk.bind fun found reflected hfound => ih.bind fun items images hitems => ?_
      refine mirrors_pure ?_
      cases hfound with
      | none => exact hitems
      | some hfirst => exact .cons hfirst hitems

end Walk

/-! ### Operations of tokens -/

section Operations

variable {document other : Value} {focus mirror : Focus}

/-- Foci that are alike read alike. -/
theorem read_mirrors (h : Focus.Alike document other focus mirror) :
    (Walk.read focus).Mirrors document other Eq (Walk.read mirror) := by
  obtain ⟨value, hfocus, hmirror⟩ := h
  have hleft : focus.value document = .ok value := hfocus
  have hright : mirror.value other = .ok value := hmirror
  refine Walk.mirrors_asking ?_
  rw [hleft, hright]
  exact .ok rfl

theorem access_mirrors (h : Focus.Alike document other focus mirror) (name : String) :
    (access focus name .read false).Mirrors document other (Focus.Alike document other)
      (access mirror name .read false) := by
  rintro s t rfl rfl
  have hchild := h.child? name
  rw [access_read_apply, access_read_apply]
  generalize focus.child? s.document name = found at hchild ⊢
  generalize mirror.child? t.document name = reflected at hchild ⊢
  cases hchild with
  | none => exact ⟨.error _, rfl, rfl⟩
  | some hfound => exact ⟨.ok hfound, rfl, rfl⟩

theorem wildcard_mirrors (h : Focus.Alike document other focus mirror) (glob : Glob) :
    (wildcard focus glob .read).Mirrors document other (Focus.Alike document other)
      (wildcard mirror glob .read) := by
  have hnames : SameOutcome Eq (focus.memberNames document) (mirror.memberNames other) := by
    rw [h.memberNames]
    cases mirror.memberNames other with
    | error fault => exact .error fault
    | ok names => exact .ok rfl
  refine (Walk.mirrors_asking hnames).bind ?_
  rintro names _ rfl
  refine (Walk.mirrors_gather ?_).bind fun found reflected hfound =>
    Walk.mirrors_pure (Focus.alike_fan hfound)
  rw [List.forall₂_map_left_iff, List.forall₂_map_right_iff]
  exact List.forall₂_same.mpr fun name _ => (access_mirrors h name).map fun _ _ => .some

/-- A name without a parent and a root modifier starts from its context. -/
theorem origin_eq_pure {modifiers : Modifiers} (hparent : modifiers.parent = 0)
    (hroot : modifiers.root = false) (focus : Focus) : origin modifiers focus = pure focus := by
  rw [origin, hparent, hroot]
  rfl

theorem word_mirrors (env : Env) {w : Word} (hparent : w.modifiers.parent = 0)
    (hroot : w.modifiers.root = false) (h : Focus.Alike document other focus mirror) :
    (word env w .read false focus).Mirrors document other (Focus.Alike document other)
      (word env w .read false mirror) := by
  rw [word, word, origin_eq_pure hparent hroot, origin_eq_pure hparent hroot, pure_bind, pure_bind]
  cases w.modifiers.context with
  | true =>
      refine (Walk.mirrors_ofExcept _).bind ?_
      rintro value _ rfl
      exact Walk.mirrors_pure (Focus.alike_detached value)
  | false =>
      refine (Walk.mirrors_ofExcept _).bind ?_
      rintro name _ rfl
      refine (Walk.mirrors_ofExcept _).bind ?_
      rintro glob? _ rfl
      cases glob? with
      | some glob => exact wildcard_mirrors h glob
      | none => exact access_mirrors h name

/-- The text of a computed value is that of the value that a focus stands for. -/
theorem computedName_mirrors (h : Focus.Alike document other focus mirror) :
    (computedName focus).Mirrors document other Eq (computedName mirror) := by
  refine (read_mirrors h).bind ?_
  rintro value _ rfl
  cases value.key? with
  | some name => exact Walk.mirrors_pure rfl
  | none => exact Walk.mirrors_fail _

/-- A broadcast goes on from elements that are alike. -/
theorem spread_mirrors (each : Bool) {apply reflected : Focus → Walk Focus}
    (happly : ∀ {focus mirror : Focus}, Focus.Alike document other focus mirror →
      (apply focus).Mirrors document other (Focus.Alike document other) (reflected mirror))
    (h : Focus.Alike document other focus mirror) :
    (spread each .read focus apply).Mirrors document other (Focus.Alike document other)
      (spread each .read mirror reflected) := by
  cases each with
  | false => exact happly h
  | true =>
      refine (Walk.mirrors_asking h.elements).bind fun elements images helements => ?_
      refine (Walk.mirrors_gather ?_).bind fun found others hfound =>
        Walk.mirrors_pure (Focus.alike_fan hfound)
      rw [List.forall₂_map_left_iff, List.forall₂_map_right_iff]
      refine helements.imp fun element image helement => ?_
      refine Walk.Mirrors.map (Walk.Mirrors.enclosed ?_) fun _ _ => .some
      exact (Walk.mirrors_push element image).bind fun _ _ _ => happly helement

end Operations

/-! ### Tokens -/

section Tokens

variable (env : Env) {document other : Value} {focus mirror : Focus}

/-- If each of several tokens goes the same way from foci that are alike, so do they in sequence. -/
theorem advance_mirrors_of_forall {tokens : List Token}
    (h : ∀ token ∈ tokens, ∀ {focus mirror : Focus}, Focus.Alike document other focus mirror →
      (step env token .read false focus).Mirrors document other (Focus.Alike document other)
        (step env token .read false mirror))
    (hfocus : Focus.Alike document other focus mirror) :
    (advance env tokens .read false focus).Mirrors document other (Focus.Alike document other)
      (advance env tokens .read false mirror) := by
  induction tokens generalizing focus mirror with
  | nil => exact Walk.mirrors_pure hfocus
  | cons token rest ih =>
      obtain ⟨htoken, hrest⟩ := List.forall_mem_cons.mp h
      rw [advance_cons_read, advance_cons_read]
      refine (htoken hfocus).bind fun found reflected hfound => ?_
      exact (Walk.mirrors_push found reflected).bind fun _ _ _ => ih hrest hfound

/-- If each of several items goes the same way from foci that are alike, so do they side by side. -/
theorem members_mirrors_of_forall {items : List Token}
    (h : ∀ item ∈ items, ∀ {focus mirror : Focus}, Focus.Alike document other focus mirror →
      (step env item .read false focus).Mirrors document other (Focus.Alike document other)
        (step env item .read false mirror))
    (hfocus : Focus.Alike document other focus mirror) :
    List.Forall₂ (Walk.Mirrors document other (Option.Rel (Focus.Alike document other)))
      (members env items .read focus) (members env items .read mirror) := by
  induction items with
  | nil => exact .nil
  | cons item rest ih =>
      obtain ⟨hitem, hrest⟩ := List.forall_mem_cons.mp h
      rw [members_cons, members_cons]
      refine .cons ((hitem hfocus).bind fun found reflected hfound => ?_) (ih hrest)
      exact Walk.mirrors_pure (.some hfound)

/-- **A token goes the same way from foci that are alike**, if it looks at nothing but its context. -/
theorem step_mirrors {token : Token} (h : token.occurs Token.looksAway = false)
    (hfocus : Focus.Alike document other focus mirror) :
    (step env token .read false focus).Mirrors document other (Focus.Alike document other)
      (step env token .read false mirror) := by
  induction token generalizing focus mirror with
  | plain name => exact access_mirrors hfocus name
  | word w =>
      rw [Token.occurs, Token.looksAway, Bool.or_eq_false_iff] at h
      obtain ⟨hdown, hroot⟩ := h
      have hparent : w.modifiers.parent = 0 := by simpa [Token.looksDown] using hdown
      rw [step_word, step_word]
      exact spread_mirrors w.each (fun hfocus => word_mirrors env hparent hroot hfocus) hfocus
  | collection items each ih =>
      rw [Token.occurs, Bool.or_eq_false_iff] at h
      obtain ⟨-, hitems⟩ := h
      rw [step_collection, step_collection]
      refine spread_mirrors each (fun hfocus => ?_) hfocus
      refine (Walk.mirrors_gather (members_mirrors_of_forall env (fun item hitem _ _ hfocus =>
        ih item hitem (Token.occursAmong_eq_false.mp hitems item hitem) hfocus) hfocus)).bind
        fun found reflected hfound => ?_
      exact Walk.mirrors_pure (Focus.alike_fan hfound)
  | container role inner each ih =>
      rw [Token.occurs, Bool.or_eq_false_iff] at h
      obtain ⟨hself, hinner⟩ := h
      have hwalk : ∀ {focus mirror : Focus}, Focus.Alike document other focus mirror →
          (Walk.enclosed (advance env inner.tokens .read false focus)).Mirrors document other
            (Focus.Alike document other)
            (Walk.enclosed (advance env inner.tokens .read false mirror)) := fun hfocus =>
        (advance_mirrors_of_forall env (fun token htoken _ _ hfocus =>
          ih token htoken (Token.occursAmong_eq_false.mp hinner token htoken) hfocus) hfocus).enclosed
      cases role with
      | property | singleQuote | doubleQuote => exact spread_mirrors each hwalk hfocus
      | call => cases hself
      | evalProperty =>
          rw [step_computed, step_computed]
          refine spread_mirrors each (fun hfocus => ?_) hfocus
          refine (hwalk hfocus).bind fun found reflected hfound => ?_
          refine (computedName_mirrors hfound).bind ?_
          rintro name _ rfl
          exact access_mirrors hfocus name

/-- **Tokens read the same from foci that are alike**, if they look at nothing but their context. -/
theorem readFrom_mirrors {tokens : List Token} (h : Token.occursAmong Token.looksAway tokens = false)
    (hfocus : Focus.Alike document other focus mirror) :
    (readFrom env tokens focus).Mirrors document other Eq (readFrom env tokens mirror) := by
  have htokens : ∀ token ∈ tokens, token.occurs Token.looksAway = false :=
    Token.occursAmong_eq_false.mp h
  exact (advance_mirrors_of_forall env (fun token htoken _ _ hfocus =>
    step_mirrors env (htokens token htoken) hfocus) hfocus).bind fun _ _ => read_mirrors

end Tokens

/-- **Reads compose**: what the first tokens read is all that the others need, if they look at nothing
but their context.  If the first tokens fail, so does the whole, in the same way; else it reads what the
others read from the value that the first come to. -/
theorem read_append_eq_bind (env : Env) (first : List Token) {second : List Token}
    (h : Token.occursAmong Token.looksAway second = false) (document : Value) :
    read env (first ++ second) document = (read env first document).bind (read env second) := by
  rcases read_append_cases env first document with
    ⟨fault, hfail⟩ | ⟨focus, s, hs, hfocus, -, hread⟩
  · have hfirst := hfail []
    rw [List.append_nil] at hfirst
    rw [hfail, hfirst]
    rfl
  · obtain ⟨value, hvalue⟩ := hfocus
    have hfirst : read env first document = .ok value := by
      have hnone := hread []
      rw [List.append_nil] at hnone
      rw [hnone, ← hvalue, ← hs.sound.document_eq]
      rfl
    have hroot : Focus.Alike document value focus .root := ⟨value, hvalue, rfl⟩
    obtain ⟨hsame, -⟩ :=
      readFrom_mirrors env h hroot s (.start value) hs.sound.document_eq rfl
    rw [hread, hfirst]
    show _ = read env second value
    rw [read_eq_readFrom]
    exact hsame.eq

/-- All members of a document, and of each of them the number beside the way. -/
theorem read_append_crossroads :
    let first : List Token := [.word ⟨"*", {}, some 0, false⟩]
    let second : List Token := [.word ⟨"y", {}, none, true⟩]
    Token.occursAmong Token.looksAway second = false ∧
      read .bare (first ++ second) crossroads = (read .bare first crossroads).bind (read .bare second) ∧
      read .bare (first ++ second) crossroads = .ok (.array [.integer 2, .integer 3]) := by
  intro first second
  have hsecond : Token.occursAmong Token.looksAway second = false := rfl
  have hbind := read_append_eq_bind .bare first hsecond crossroads
  exact ⟨hsecond, hbind, hbind.trans rfl⟩

end PathExpr.Resolve
