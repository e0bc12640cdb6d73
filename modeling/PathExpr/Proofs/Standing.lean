import PathExpr.Proofs.Indices
import PathExpr.Proofs.Places
import PathExpr.Proofs.Reach
import PathExpr.Proofs.Sequence

/-!
# Reads leave no place dangling

A place is an address and may dangle.  In a read none does: a read changes no document, and every place
it goes on from was found in the document before.  A focus is *standing* if it has a value
(`Focus.Standing`); a state is *sound* for a document if it holds that document and every focus on its
trail is standing (`State.Sound`).

`Walk.Reads` says of a walk that it keeps a state sound and that what it finds has some property; its
rules are those of the operations that walks are made of.  By induction on the tokens every read finds
a standing focus and leaves the document as it is (`step_reads`, `advance_reads`).
-/

namespace PathExpr.Resolve

/-! ### Foci that have a value -/

namespace Focus

variable {document : Value} {focus found : Focus}

/-- **The focus has a value**: no place in it dangles. -/
def Standing (document : Value) (focus : Focus) : Prop :=
  ∃ value, focus.value document = .ok value

theorem standing_root (document : Value) : root.Standing document := ⟨document, rfl⟩

theorem standing_detached (document value : Value) : (detached value).Standing document :=
  ⟨value, rfl⟩

/-- A place is standing if there is something in the document. -/
theorem standing_place_iff {path : List String} :
    (place path).Standing document ↔ ∃ value, document.at? path = some value := by
  have hvalue : (place path).value document = lookup document path := rfl
  unfold Standing
  rw [hvalue, lookup]
  cases document.at? path <;> simp

/-- If several foci are standing they have values. -/
theorem exists_values {items : List Focus} (h : ∀ item ∈ items, item.Standing document) :
    ∃ found, values document items = .ok found := by
  induction items with
  | nil => exact ⟨[], rfl⟩
  | cons item rest ih =>
      obtain ⟨⟨value, hvalue⟩, hrest⟩ := List.forall_mem_cons.mp h
      obtain ⟨others, hothers⟩ := ih hrest
      exact ⟨value :: others, by rw [values, hvalue, hothers]⟩

/-- If several foci have values they are standing. -/
theorem standing_of_values {items : List Focus} {found : List Value}
    (h : values document items = .ok found) : ∀ item ∈ items, item.Standing document := by
  induction items generalizing found with
  | nil => exact fun item hitem => nomatch hitem
  | cons item rest ih =>
      rw [values] at h
      cases hvalue : item.value document with
      | error fault =>
          rw [hvalue] at h
          cases h
      | ok value =>
          rw [hvalue] at h
          cases hothers : values document rest with
          | error fault =>
              rw [hothers] at h
              cases h
          | ok others => exact List.forall_mem_cons.mpr ⟨⟨value, hvalue⟩, ih hothers⟩

/-- **A list of results is standing** if all of them are. -/
theorem standing_fan_iff {items : List Focus} :
    (fan items).Standing document ↔ ∀ item ∈ items, item.Standing document := by
  constructor
  · rintro ⟨value, hvalue⟩
    rw [Focus.value] at hvalue
    cases hfound : values document items with
    | error fault =>
        rw [hfound] at hvalue
        cases hvalue
    | ok found => exact standing_of_values hfound
  · intro h
    obtain ⟨found, hfound⟩ := exists_values h
    exact ⟨.array found, by rw [Focus.value, hfound]⟩

/-- What a name reaches from a standing focus is standing. -/
theorem standing_child? {key : String} (h : focus.Standing document)
    (hfound : focus.child? document key = some found) : found.Standing document := by
  cases focus with
  | place path =>
      obtain ⟨parent, hparent⟩ := standing_place_iff.mp h
      rw [child?, hparent, Option.bind_some] at hfound
      obtain ⟨value, hvalue, rfl⟩ := Option.map_eq_some_iff.mp hfound
      exact standing_place_iff.mpr ⟨value, (Value.at?_concat hparent key).trans hvalue⟩
  | detached value =>
      obtain ⟨child, -, rfl⟩ := Option.map_eq_some_iff.mp hfound
      exact standing_detached document child
  | fan items =>
      obtain ⟨index, -, hget⟩ := Option.bind_eq_some_iff.mp hfound
      exact standing_fan_iff.mp h found (List.mem_of_getElem? hget)

/-- The elements of a standing focus are standing. -/
theorem standing_elements {elements : List Focus} (h : focus.Standing document)
    (helements : focus.elements document = .ok elements) :
    ∀ element ∈ elements, element.Standing document := by
  cases focus with
  | place path =>
      obtain ⟨parent, hparent⟩ := standing_place_iff.mp h
      simp only [Focus.elements, lookup, hparent] at helements
      cases parent with
      | array items =>
          cases helements
          -- An element of a place is a place again, by its name.
          intro element hmem
          obtain ⟨name, hname, rfl⟩ := List.mem_map.mp hmem
          obtain ⟨item, -, hitem⟩ := Value.exists_child?_of_mem_indexNames hname
          exact standing_place_iff.mpr ⟨item, (Value.at?_concat hparent name).trans hitem⟩
      | _ => cases helements
  | detached value =>
      cases value with
      | array items =>
          cases helements
          intro element hmem
          obtain ⟨item, -, rfl⟩ := List.mem_map.mp hmem
          exact standing_detached document item
      | _ => cases helements
  | fan items =>
      cases helements
      exact fun element hmem => standing_fan_iff.mp h element (List.mem_of_mem_take hmem)

end Focus

/-! ### Walks that read -/

/-- **The state of a read**: it holds the document, and no focus on its trail dangles. -/
structure State.Sound (document : Value) (s : State) : Prop where
  document_eq : s.document = document
  standing : ∀ focus ∈ s.trail, focus.Standing document

theorem State.sound_start (document : Value) : (State.start document).Sound document :=
  ⟨rfl, List.forall_mem_singleton.mpr (Focus.standing_root document)⟩

/-- **The walk reads a document**: it keeps a state sound, and what it finds is as it should be. -/
def Walk.Reads {α : Type} (document : Value) (post : α → Prop) (walk : Walk α) : Prop :=
  ∀ s, s.Sound document →
    (walk s).2.Sound document ∧ ∀ a, (walk s).1 = .ok a → post a

namespace Walk

variable {α β : Type} {document : Value} {post : α → Prop} {last : β → Prop}

theorem reads_pure {a : α} (h : post a) : (pure a : Walk α).Reads document post :=
  fun s hs => ⟨hs, fun b hb => by cases hb; exact h⟩

theorem reads_asking {question : Value → Except PathError α}
    (h : ∀ a, question document = .ok a → post a) : (asking question).Reads document post := by
  intro s hs
  refine ⟨hs, fun a ha => h a ?_⟩
  rw [← hs.document_eq]
  exact ha

theorem reads_ofExcept {result : Except PathError α} (h : ∀ a, result = .ok a → post a) :
    (ofExcept result).Reads document post := fun _ hs => ⟨hs, h⟩

theorem reads_fail (fault : PathError) : (fail fault : Walk α).Reads document post :=
  reads_ofExcept fun _ h => nomatch h

/-- Walks in sequence. -/
theorem Reads.bind {walk : Walk α} {next : α → Walk β} (hwalk : walk.Reads document post)
    (hnext : ∀ a, post a → (next a).Reads document last) :
    (walk >>= next).Reads document last := by
  intro s hs
  obtain ⟨hsound, hpost⟩ := hwalk s hs
  rcases h : walk s with ⟨fault | a, t⟩ <;> rw [h] at hsound hpost
  · rw [bind_of_error h]
    exact ⟨hsound, fun _ hfalse => nomatch hfalse⟩
  · rw [bind_of_ok h]
    exact hnext a (hpost a rfl) t hsound

theorem Reads.map {walk : Walk α} (h : walk.Reads document post) {f : α → β}
    (hf : ∀ a, post a → last (f a)) : (f <$> walk).Reads document last := by
  rw [map_eq_pure_bind]
  exact h.bind fun a ha => reads_pure (hf a ha)

/-- What is put on the trail has to stand. -/
theorem reads_push {focus : Focus} (h : focus.Standing document) :
    (push focus).Reads document fun _ => True := by
  intro s hs
  refine ⟨⟨hs.document_eq, fun found hfound => ?_⟩, fun _ _ => trivial⟩
  rcases List.mem_append.mp hfound with hold | hnew
  · exact hs.standing found hold
  · rw [List.mem_singleton.mp hnew]
    exact h

theorem Reads.enclosed {walk : Walk α} (h : walk.Reads document post) :
    (enclosed walk).Reads document post := by
  intro s hs
  obtain ⟨hsound, hpost⟩ := h s hs
  exact ⟨⟨hsound.document_eq, fun found hfound =>
    hsound.standing found (List.mem_of_mem_take hfound)⟩, hpost⟩

/-- What is found on the trail stands. -/
theorem reads_ancestor (levels : Nat) :
    (ancestor levels).Reads document (Focus.Standing document) := by
  intro s hs
  unfold ancestor
  cases hfound : if levels < s.trail.length then s.trail[s.trail.length - 1 - levels]? else none with
  | none => exact ⟨hs, fun _ h => nomatch h⟩
  | some focus =>
      refine ⟨hs, fun found h => ?_⟩
      cases h
      obtain ⟨-, hget⟩ := Option.ite_none_right_eq_some.mp hfound
      exact hs.standing focus (List.mem_of_getElem? hget)

theorem reads_below? :
    below?.Reads document fun found => ∀ focus ∈ found, focus.Standing document := by
  intro s hs
  refine ⟨hs, fun found h focus hfocus => ?_⟩
  cases h
  obtain ⟨-, hget⟩ := Option.ite_none_right_eq_some.mp hfocus
  exact hs.standing focus (List.mem_of_getElem? hget)

theorem reads_rewind : rewind.Reads document (Focus.Standing document) := by
  intro s hs
  refine ⟨⟨hs.document_eq, fun found hfound =>
    hs.standing found (List.mem_of_mem_take hfound)⟩, fun found h => ?_⟩
  cases h
  cases hhead : s.trail.head? with
  | none => exact Focus.standing_root document
  | some focus => exact hs.standing focus (List.mem_of_head? hhead)

/-- Several walks in a read, of which the first failure is the last. -/
theorem reads_gather {walks : List (Walk (Option Focus))}
    (h : ∀ walk ∈ walks,
      walk.Reads document fun found => ∀ focus ∈ found, focus.Standing document) :
    (gather false walks).Reads document fun found => ∀ focus ∈ found, focus.Standing document := by
  induction walks with
  | nil => exact reads_pure fun focus hfocus => nomatch hfocus
  | cons walk rest ih =>
      obtain ⟨hwalk, hrest⟩ := List.forall_mem_cons.mp h
      intro s hs
      obtain ⟨hsound, hpost⟩ := hwalk s hs
      rcases hfirst : walk s with ⟨fault | found, t⟩ <;> rw [hfirst] at hsound hpost
      · rw [gather_of_error hfirst]
        exact ⟨hsound, fun _ hfalse => nomatch hfalse⟩
      · obtain ⟨hafter, hothers⟩ := ih hrest t hsound
        rw [gather_of_ok hfirst]
        rcases hnext : gather false rest t with ⟨fault | others, u⟩ <;> rw [hnext] at hafter hothers
        · exact ⟨hafter, fun _ hfalse => nomatch hfalse⟩
        · refine ⟨hafter, fun all hall focus hfocus => ?_⟩
          cases hall
          rcases List.mem_append.mp hfocus with hleft | hright
          · exact hpost found rfl focus (Option.mem_toList.mp hleft)
          · exact hothers others rfl focus hright

/-- Several walks in a read that find one focus each. -/
theorem reads_gather_map (items : List α) (walk : α → Walk Focus)
    (h : ∀ item ∈ items, (walk item).Reads document (Focus.Standing document)) :
    (gather false (items.map fun item => some <$> walk item)).Reads document fun found =>
      ∀ focus ∈ found, focus.Standing document := by
  refine reads_gather fun each heach => ?_
  obtain ⟨item, hitem, rfl⟩ := List.mem_map.mp heach
  refine (h item hitem).map fun found hfound focus hfocus => ?_
  cases hfocus
  exact hfound

end Walk

/-! ### Operations of tokens -/

section Operations

variable {document : Value} {focus : Focus}

theorem access_reads (h : focus.Standing document) (name : String) :
    (access focus name .read false).Reads document (Focus.Standing document) := by
  intro s hs
  cases hfound : focus.child? s.document name with
  | none =>
      rw [access_read_of_none hfound]
      exact ⟨hs, fun _ hfalse => nomatch hfalse⟩
  | some found =>
      rw [access_read_of_some hfound]
      refine ⟨hs, fun result hresult => ?_⟩
      cases hresult
      rw [hs.document_eq] at hfound
      exact Focus.standing_child? h hfound

theorem wildcard_reads (h : focus.Standing document) (glob : Glob) :
    (wildcard focus glob .read).Reads document (Focus.Standing document) := by
  refine (Walk.reads_asking fun _ _ => trivial).bind fun names _ => ?_
  refine (Walk.reads_gather_map _ _ fun name _ => access_reads h name).bind fun found hfound => ?_
  exact Walk.reads_pure (Focus.standing_fan_iff.mpr hfound)

theorem origin_reads (h : focus.Standing document) (modifiers : Modifiers) :
    (origin modifiers focus).Reads document (Focus.Standing document) := by
  have hparent : (if 0 < modifiers.parent then Walk.ancestor modifiers.parent
      else pure focus).Reads document (Focus.Standing document) := by
    split
    · exact Walk.reads_ancestor _
    · exact Walk.reads_pure h
  refine hparent.bind fun found hfound => ?_
  cases modifiers.root with
  | true => exact Walk.reads_rewind
  | false => exact Walk.reads_pure hfound

/-- What a name reads, once the context is known that it starts from. -/
def named (env : Env) (w : Word) (focus : Focus) : Walk Focus :=
  if w.modifiers.context then do
    return .detached (← Walk.ofExcept (env.argumentOrText w.name))
  else do
    let name ← Walk.ofExcept (env.wordName w)
    match ← Walk.ofExcept (Glob.ofWord? w name) with
    | some glob => wildcard focus glob .read
    | none => access focus name .read false

/-- First the context is found that a name starts from, then the name is looked up. -/
theorem word_read_eq_bind (env : Env) (w : Word) (focus : Focus) :
    word env w .read false focus = origin w.modifiers focus >>= named env w := rfl

section Named

variable (env : Env) {w : Word} (focus : Focus)

/-- A name for an argument. -/
theorem named_of_context (h : w.modifiers.context = true) :
    named env w focus = (do return .detached (← Walk.ofExcept (env.argumentOrText w.name))) := if_pos h

/-- Any other name is looked up, or what matches it. -/
theorem named_of_not_context (h : w.modifiers.context = false) :
    named env w focus = (do
      let name ← Walk.ofExcept (env.wordName w)
      match ← Walk.ofExcept (Glob.ofWord? w name) with
      | some glob => wildcard focus glob .read
      | none => access focus name .read false) :=
  if_neg (by rw [h]; exact Bool.false_ne_true)

/-- Behind the text of a name is what it is a pattern of, or else the name itself. -/
theorem named_of_name {name : String} (hcontext : w.modifiers.context = false)
    (hname : env.wordName w = .ok name) (s : State) :
    named env w focus s = (do
      match ← Walk.ofExcept (Glob.ofWord? w name) with
      | some glob => wildcard focus glob .read
      | none => access focus name .read false : Walk Focus) s := by
  rw [named_of_not_context env focus hcontext]
  exact Walk.bind_of_ok (congrArg (·, s) hname)

end Named

theorem named_reads (env : Env) (w : Word) (h : focus.Standing document) :
    (named env w focus).Reads document (Focus.Standing document) := by
  unfold named
  split
  · refine (Walk.reads_ofExcept fun _ _ => trivial).bind fun value _ => ?_
    exact Walk.reads_pure (Focus.standing_detached document value)
  · refine (Walk.reads_ofExcept fun _ _ => trivial).bind fun name _ => ?_
    refine (Walk.reads_ofExcept fun _ _ => trivial).bind fun glob? _ => ?_
    cases glob? with
    | some glob => exact wildcard_reads h glob
    | none => exact access_reads h name

theorem word_reads (env : Env) (w : Word) (h : focus.Standing document) :
    (word env w .read false focus).Reads document (Focus.Standing document) := by
  rw [word_read_eq_bind]
  exact (origin_reads h w.modifiers).bind fun found hfound => named_reads env w hfound

theorem computedName_reads (found : Focus) :
    (computedName found).Reads document fun _ => True := by
  refine (Walk.reads_asking fun _ _ => trivial).bind fun value _ => ?_
  cases value.key? with
  | some name => exact Walk.reads_pure trivial
  | none => exact Walk.reads_fail _

theorem spreadArguments_reads (found : Focus) :
    (spreadArguments found).Reads document fun _ => True := by
  cases found with
  | fan items => exact Walk.reads_asking fun _ _ => trivial
  | _ =>
      refine (Walk.reads_asking fun _ _ => trivial).bind fun value _ => ?_
      cases value <;> exact Walk.reads_pure trivial

theorem receiver_reads : receiver.Reads document fun _ => True := by
  refine Walk.reads_below?.bind fun frame? _ => ?_
  cases frame? with
  | some frame => exact Walk.reads_asking fun _ _ => trivial
  | none => exact Walk.reads_pure trivial

theorem call_reads (env : Env) (focus : Focus) {arguments : Walk (List Value)}
    (h : arguments.Reads document fun _ => True) :
    (call env focus arguments).Reads document (Focus.Standing document) := by
  refine (Walk.reads_asking fun _ _ => trivial).bind fun callee _ => ?_
  cases callee with
  | function name =>
      refine receiver_reads.bind fun receiver _ => h.bind fun values _ => ?_
      cases env.functions name receiver values with
      | some answer => exact Walk.reads_pure (Focus.standing_detached document answer)
      | none => exact Walk.reads_fail _
  | _ => exact Walk.reads_fail _

/-- A broadcast goes on from elements, which stand. -/
theorem spread_reads (each : Bool) {apply : Focus → Walk Focus}
    (happly : ∀ focus : Focus, focus.Standing document →
      (apply focus).Reads document (Focus.Standing document))
    (h : focus.Standing document) :
    (spread each .read focus apply).Reads document (Focus.Standing document) := by
  cases each with
  | false => exact happly focus h
  | true =>
      refine (Walk.reads_asking fun _ => Focus.standing_elements h).bind
        fun elements helements => ?_
      refine (Walk.reads_gather_map _ _ fun element hmem => ?_).bind fun found hfound => ?_
      · have hstanding := helements element hmem
        exact ((Walk.reads_push hstanding).bind fun _ _ => happly element hstanding).enclosed
      · exact Walk.reads_pure (Focus.standing_fan_iff.mpr hfound)

end Operations

/-! ### Tokens -/

section Tokens

variable (env : Env) {document : Value}

/-- If each of several tokens reads, so do they in sequence. -/
theorem advance_reads_of_forall {tokens : List Token}
    (h : ∀ token ∈ tokens, ∀ focus : Focus, focus.Standing document →
      (step env token .read false focus).Reads document (Focus.Standing document))
    {focus : Focus} (hfocus : focus.Standing document) :
    (advance env tokens .read false focus).Reads document (Focus.Standing document) := by
  induction tokens generalizing focus with
  | nil => exact Walk.reads_pure hfocus
  | cons token rest ih =>
      obtain ⟨htoken, hrest⟩ := List.forall_mem_cons.mp h
      rw [advance_cons_read]
      refine (htoken focus hfocus).bind fun found hfound => ?_
      exact (Walk.reads_push hfound).bind fun _ _ => ih hrest hfound

/-- If each of several items reads, so do they side by side. -/
theorem members_reads_of_forall {items : List Token}
    (h : ∀ item ∈ items, ∀ focus : Focus, focus.Standing document →
      (step env item .read false focus).Reads document (Focus.Standing document))
    {focus : Focus} (hfocus : focus.Standing document) :
    ∀ walk ∈ members env items .read focus,
      walk.Reads document fun found => ∀ focus ∈ found, focus.Standing document := by
  induction items with
  | nil => exact fun walk hwalk => nomatch hwalk
  | cons item rest ih =>
      obtain ⟨hitem, hrest⟩ := List.forall_mem_cons.mp h
      rw [members_cons]
      refine List.forall_mem_cons.mpr ⟨?_, ih hrest⟩
      refine (hitem focus hfocus).bind fun found hfound => Walk.reads_pure fun focus hfocus => ?_
      cases hfocus
      exact hfound

/-- **A read of a token finds a standing focus** from a standing one, and leaves the document as it
is. -/
theorem step_reads (token : Token) {focus : Focus} (h : focus.Standing document) :
    (step env token .read false focus).Reads document (Focus.Standing document) := by
  induction token generalizing focus with
  | plain name => exact access_reads h name
  | word w =>
      rw [step_word]
      exact spread_reads w.each (fun focus hfocus => word_reads env w hfocus) h
  | collection items each ih =>
      rw [step_collection]
      refine spread_reads each (fun focus hfocus => ?_) h
      refine (Walk.reads_gather (members_reads_of_forall env (fun item hitem focus hfocus =>
        ih item hitem hfocus) hfocus)).bind fun found hfound => ?_
      exact Walk.reads_pure (Focus.standing_fan_iff.mpr hfound)
  | container role inner each ih =>
      have hinner : ∀ focus : Focus, focus.Standing document →
          (Walk.enclosed (advance env inner.tokens .read false focus)).Reads document
            (Focus.Standing document) := fun focus hfocus =>
        (advance_reads_of_forall env (fun token htoken focus hfocus =>
          ih token htoken hfocus) hfocus).enclosed
      cases role with
      | property | singleQuote | doubleQuote => exact spread_reads each hinner h
      | call =>
          rw [step_call_read]
          refine spread_reads each (fun focus hfocus => call_reads env focus ?_) h
          split
          · exact Walk.reads_pure trivial
          · exact (hinner focus hfocus).bind fun found _ => spreadArguments_reads found
      | evalProperty =>
          rw [step_computed]
          refine spread_reads each (fun focus hfocus => ?_) h
          refine (hinner focus hfocus).bind fun found _ => ?_
          exact (computedName_reads found).bind fun name _ => access_reads hfocus name

/-- **A read of tokens finds a standing focus** from a standing one, and leaves the document as it
is. -/
theorem advance_reads (tokens : List Token) {focus : Focus} (h : focus.Standing document) :
    (advance env tokens .read false focus).Reads document (Focus.Standing document) :=
  advance_reads_of_forall env (fun token _ _ => step_reads env token) h

end Tokens

end PathExpr.Resolve
