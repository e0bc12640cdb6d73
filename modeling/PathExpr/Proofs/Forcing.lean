import Mathlib.Data.List.Forall2
import PathExpr.Proofs.Reach
import PathExpr.Proofs.Sequence

/-!
# Force only adds

A forced write may make an object where a member is missing, and does nothing else that another write does
not.  Where nothing is missing the two go the same way.  So a write that succeeds without force has nothing
to make with it: had it missed a member anywhere, it would have failed.

This needs that no failure is swallowed.  Where several targets are written to, the others are still tried
after one has failed, but the failure stays the outcome of the whole (`Walk.Extends.gather`).  One walk
*extends* another if it does the same wherever that one succeeds (`Walk.Extends`).  By induction on the
tokens, more permission to make objects extends a resolution (`step_extends`, `advance_extends`): the force
of the write, and what a token is told to make.
-/

namespace PathExpr.Resolve

/-! ### Walks that extend others -/

/-- **One walk extends another**: where that one succeeds it has the same result and leaves the same
state. -/
def Walk.Extends {α : Type} (more walk : Walk α) : Prop :=
  ∀ s a t, walk s = (.ok a, t) → more s = (.ok a, t)

namespace Walk

variable {α β : Type}

theorem Extends.refl (walk : Walk α) : walk.Extends walk := fun _ _ _ h => h

/-- Walks in sequence. -/
theorem Extends.bind {more walk : Walk α} {later next : α → Walk β} (hwalk : more.Extends walk)
    (hnext : ∀ a, (later a).Extends (next a)) : (more >>= later).Extends (walk >>= next) := by
  intro s b t h
  obtain ⟨a, mid, hfirst, hrest⟩ := exists_of_bind_eq_ok h
  rw [bind_of_ok (hwalk s a mid hfirst)]
  exact hnext a mid b t hrest

theorem Extends.map {more walk : Walk α} (h : more.Extends walk) (f : α → β) :
    (f <$> more).Extends (f <$> walk) := by
  rw [map_eq_pure_bind, map_eq_pure_bind]
  exact h.bind fun a => .refl (pure (f a))

theorem Extends.enclosed {more walk : Walk α} (h : more.Extends walk) :
    (enclosed more).Extends (enclosed walk) := by
  intro s a t hwalk
  rw [enclosed_apply] at hwalk ⊢
  obtain ⟨hresult, hstate⟩ := Prod.mk.inj hwalk
  have hfirst : walk s = (.ok a, (walk s).2) := Prod.ext hresult rfl
  rw [h s a _ hfirst, hstate]

/-- **Several walks** succeed only if all of them do, whether a failure stops the others or not. -/
theorem Extends.gather (persist : Bool) {mores walks : List (Walk (Option Focus))}
    (h : List.Forall₂ Extends mores walks) :
    (gather persist mores).Extends (gather persist walks) := by
  induction h with
  | nil => exact .refl _
  | @cons more walk mores walks hwalk _ ih =>
      intro s found t hall
      obtain ⟨first, others, mid, hfirst, hothers, hfound⟩ := gather_cons_eq_ok_iff.mp hall
      exact gather_cons_eq_ok_iff.mpr
        ⟨first, others, mid, hwalk s first mid hfirst, ih mid others t hothers, hfound⟩

end Walk

/-! ### Operations of tokens -/

section Operations

variable {create more : Bool}

/-- **A member that may be made extends one that may not**: what is there is read all the same. -/
theorem access_extends (hmore : create = true → more = true) (focus : Focus) (name : String)
    (intent : Intent) :
    (access focus name intent more).Extends (access focus name intent create) := by
  cases intent with
  | write value => exact .refl _
  | read =>
      intro s found t h
      cases hchild : focus.child? s.document name with
      | some member =>
          rw [access_read_of_some hchild] at h ⊢
          exact h
      | none =>
          rw [access_read_of_none hchild] at h ⊢
          cases create with
          | false => cases h
          | true => rwa [hmore rfl]

theorem word_extends (hmore : create = true → more = true) (env : Env) (w : Word) (intent : Intent)
    (focus : Focus) :
    (word env w intent more focus).Extends (word env w intent create focus) := by
  refine (Walk.Extends.refl (origin w.modifiers focus)).bind fun found => ?_
  cases w.modifiers.context with
  | true => exact .refl _
  | false =>
      refine (Walk.Extends.refl _).bind fun name => (Walk.Extends.refl _).bind fun glob? => ?_
      cases glob? with
      | some glob => exact .refl _
      | none => exact access_extends hmore found name intent

theorem call_extends (env : Env) (focus : Focus) {mores arguments : Walk (List Value)}
    (h : mores.Extends arguments) : (call env focus mores).Extends (call env focus arguments) := by
  refine (Walk.Extends.refl _).bind fun callee => ?_
  cases callee with
  | function name => exact (Walk.Extends.refl receiver).bind fun _ => h.bind fun _ => .refl _
  | _ => exact .refl _

/-- A broadcast extends another if its step does on every element. -/
theorem spread_extends (each : Bool) (intent : Intent) {mores apply : Focus → Walk Focus}
    (h : ∀ focus, (mores focus).Extends (apply focus)) (focus : Focus) :
    (spread each intent focus mores).Extends (spread each intent focus apply) := by
  cases each with
  | false => exact h focus
  | true =>
      refine (Walk.Extends.refl _).bind fun elements => ?_
      refine (Walk.Extends.gather _ ?_).bind fun found => .refl _
      rw [List.forall₂_map_left_iff, List.forall₂_map_right_iff]
      refine List.forall₂_same.mpr fun element _ => Walk.Extends.map ?_ some
      exact ((Walk.Extends.refl (Walk.push element)).bind fun _ => h element).enclosed

end Operations

/-! ### Tokens -/

section Tokens

variable {env : Env} {force : Bool} (hforce : env.force = true → force = true)

include hforce in
/-- If each of several tokens is extended, they are in sequence. -/
theorem advance_extends_of_forall {tokens : List Token}
    (h : ∀ token ∈ tokens, ∀ intent {create more : Bool}, (create = true → more = true) →
      ∀ focus, (step { env with force := force } token intent more focus).Extends
        (step env token intent create focus))
    (intent : Intent) {create more : Bool} (hmore : create = true → more = true) (focus : Focus) :
    (advance { env with force := force } tokens intent more focus).Extends
      (advance env tokens intent create focus) := by
  induction tokens generalizing create more focus with
  | nil => exact .refl _
  | cons token rest ih =>
      obtain ⟨htoken, hrest⟩ := List.forall_mem_cons.mp h
      cases rest with
      | nil =>
          rw [advance_singleton, advance_singleton]
          exact (htoken intent hmore focus).bind fun found => .refl _
      | cons next others =>
          have hinterior : (create || intent.isWrite && env.force) = true →
              (more || intent.isWrite && force) = true := by
            simp only [Bool.or_eq_true, Bool.and_eq_true]
            exact Or.imp hmore (And.imp_right hforce)
          rw [advance_cons_cons, advance_cons_cons]
          refine (htoken .read hinterior focus).bind fun found => ?_
          exact (Walk.Extends.refl (Walk.push found)).bind fun _ => ih hrest hmore found

/-- If each of several items is extended, they are side by side. -/
theorem members_extends_of_forall {items : List Token}
    (h : ∀ item ∈ items, ∀ intent {create more : Bool}, (create = true → more = true) →
      ∀ focus, (step { env with force := force } item intent more focus).Extends
        (step env item intent create focus))
    (intent : Intent) (focus : Focus) :
    List.Forall₂ Walk.Extends (members { env with force := force } items intent focus)
      (members env items intent focus) := by
  induction items with
  | nil => exact .nil
  | cons item rest ih =>
      obtain ⟨hitem, hrest⟩ := List.forall_mem_cons.mp h
      rw [members_cons, members_cons]
      exact .cons ((hitem intent id focus).bind fun found => .refl _) (ih hrest)

include hforce in
/-- **A token that may make more objects extends one that may make fewer.** -/
theorem step_extends (token : Token) (intent : Intent) {create more : Bool}
    (hmore : create = true → more = true) (focus : Focus) :
    (step { env with force := force } token intent more focus).Extends
      (step env token intent create focus) := by
  induction token generalizing intent create more focus with
  | plain name => exact access_extends hmore focus name intent
  | word w =>
      rw [step_word, step_word]
      exact spread_extends _ _ (word_extends hmore env w intent) focus
  | collection items each ih =>
      rw [step_collection, step_collection]
      refine spread_extends _ _ (fun focus => ?_) focus
      exact (Walk.Extends.gather _ (members_extends_of_forall ih intent focus)).bind
        fun found => .refl _
  | container role inner each ih =>
      have hinner : ∀ intent {create more : Bool}, (create = true → more = true) → ∀ focus,
          (Walk.enclosed (advance { env with force := force } inner.tokens intent more focus)).Extends
            (Walk.enclosed (advance env inner.tokens intent create focus)) :=
        fun intent _ _ hmore focus =>
          (advance_extends_of_forall hforce ih intent hmore focus).enclosed
      cases role with
      | property | singleQuote | doubleQuote =>
          exact spread_extends _ _ (hinner intent hmore) focus
      | call =>
          cases intent with
          | write value => exact .refl _
          | read =>
              rw [step_call_read, step_call_read]
              refine spread_extends _ _ (fun focus => call_extends env focus ?_) focus
              split
              · exact .refl _
              · exact (hinner .read id focus).bind fun found => .refl _
      | evalProperty =>
          rw [step_computed, step_computed]
          refine spread_extends _ _ (fun focus => ?_) focus
          refine (hinner .read id focus).bind fun found => ?_
          refine (Walk.Extends.refl _).bind fun name => ?_
          exact access_extends hmore focus name intent

include hforce in
/-- **Tokens in sequence that may make more objects extend those that may make fewer.** -/
theorem advance_extends (tokens : List Token) (intent : Intent) {create more : Bool}
    (hmore : create = true → more = true) (focus : Focus) :
    (advance { env with force := force } tokens intent more focus).Extends
      (advance env tokens intent create focus) :=
  advance_extends_of_forall hforce (fun token _ intent _ _ hmore => step_extends hforce token intent hmore)
    intent hmore focus

end Tokens

/-- **Force only adds**: a write that succeeds without it succeeds with it, and leaves the same
document. -/
theorem force_only_adds (arguments : List Value) (functions : Functions) (tokens : List Token)
    {value document changed : Value}
    (h : write ⟨arguments, functions, false⟩ tokens value document = ⟨.ok (), changed⟩) :
    write ⟨arguments, functions, true⟩ tokens value document = ⟨.ok (), changed⟩ := by
  have hne : tokens ≠ [] := by
    rintro rfl
    cases h
  rw [write_eq_advance _ hne] at h ⊢
  have hextends := @advance_extends ⟨arguments, functions, false⟩ true (fun _ => rfl) tokens
    (.write value) false false id .root (.start document)
  rcases hrun : advance ⟨arguments, functions, false⟩ tokens (.write value) false .root
      (.start document) with ⟨fault | found, t⟩
  · rw [hrun] at h
    cases h
  · rw [hrun] at h
    rw [hextends found t hrun]
    exact h

/-- A member of all members, one of which has it already. -/
theorem force_only_adds_member :
    let tokens : List Token := [.word ⟨"*", {}, some 0, false⟩, .word ⟨"k", {}, none, true⟩]
    let document : Value := .object [("a", .object []), ("b", .object [("k", .null)])]
    let changed : Value :=
      .object [("a", .object [("k", .boolean true)]), ("b", .object [("k", .boolean true)])]
    write ⟨[], fun _ _ _ => none, false⟩ tokens (.boolean true) document = ⟨.ok (), changed⟩ ∧
      write ⟨[], fun _ _ _ => none, true⟩ tokens (.boolean true) document = ⟨.ok (), changed⟩ := by
  intro tokens document changed
  have hplain : write ⟨[], fun _ _ _ => none, false⟩ tokens (.boolean true) document =
      ⟨.ok (), changed⟩ := rfl
  exact ⟨hplain, force_only_adds [] (fun _ _ _ => none) tokens hplain⟩

end PathExpr.Resolve
