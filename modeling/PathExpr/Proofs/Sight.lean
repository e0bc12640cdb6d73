import PathExpr.Proofs.Sequence
import PathExpr.Proofs.Trail

/-!
# What a resolution sees of its trail

Two resolutions of the same tokens that start on different trails go the same way as long as no token
looks at a context in which the trails differ.  `State.Agree` says how much of two trails is known to be
the same: a number of contexts on top, and the document at the bottom.  `Walk.Sees` says of a walk
that it needs no more than that, and how much is known of the trails that it leaves.

The number is followed through the tokens the way `Token.looksBelow` counts it.  It goes up with every
result, it is lost with every return to the document inside a token, and what a token leaves without
one is what it found, by `step_trail`.  So the induction needs no more than the number before and the
number after each token, and the documents stay equal because the outcomes of all reads are
(`step_sees`, `advance_sees`).
-/

namespace PathExpr.Resolve

/-! ### Trails that agree -/

/-- **Two states agree on some contexts**: they have the same document, which is at the bottom of both
trails, and the same contexts on top. -/
structure State.Agree (own : Nat) (s t : State) : Prop where
  document_eq : s.document = t.document
  left : s.Rooted
  right : t.Rooted
  top : ∃ top : List Focus, top.length = own ∧ top <:+ s.trail ∧ top <:+ t.trail

namespace State.Agree

variable {own less : Nat} {s t s' t' : State}

/-- What is known of more contexts is known of fewer. -/
theorem mono (h : s.Agree own t) (hle : less ≤ own) : s.Agree less t := by
  obtain ⟨top, hlength, hs, ht⟩ := h.top
  have hdrop : top.drop (own - less) <:+ top := List.drop_suffix _ _
  refine ⟨h.document_eq, h.left, h.right, top.drop (own - less), ?_, hdrop.trans hs, hdrop.trans ht⟩
  rw [List.length_drop, hlength]
  omega

/-- Nothing is known of the contexts but what is at the bottom. -/
theorem of_rooted (hdocument : s.document = t.document) (hs : s.Rooted) (ht : t.Rooted) :
    s.Agree 0 t :=
  ⟨hdocument, hs, ht, [], rfl, List.nil_suffix, List.nil_suffix⟩

/-- States agree after their trails are left alone as before. -/
theorem of_trail_eq (h : s.Agree own t) (hdocument : s'.document = t'.document)
    (hs : s'.trail = s.trail) (ht : t'.trail = t.trail) : s'.Agree own t' := by
  obtain ⟨top, hlength, hleft, hright⟩ := h.top
  refine ⟨hdocument, ?_, ?_, top, hlength, hs ▸ hleft, ht ▸ hright⟩
  · rw [State.Rooted, hs]
    exact h.left
  · rw [State.Rooted, ht]
    exact h.right

/-- **A context that is known** is found on both trails. -/
theorem exists_getElem? (h : s.Agree own t) {levels : Nat} (hlt : levels < own) :
    ∃ focus, (levels < s.trail.length ∧ s.trail[s.trail.length - 1 - levels]? = some focus) ∧
      levels < t.trail.length ∧ t.trail[t.trail.length - 1 - levels]? = some focus := by
  obtain ⟨top, rfl, hs, ht⟩ := h.top
  have hindex : top.length - 1 - levels < top.length := by omega
  -- Counted from the top it is a context of the common part, whatever is below that.
  have hfound : ∀ trail : List Focus, top <:+ trail → levels < trail.length ∧
      trail[trail.length - 1 - levels]? = some top[top.length - 1 - levels] := by
    rintro trail ⟨before, rfl⟩
    rw [List.length_append]
    refine ⟨by omega, ?_⟩
    have hshift : before.length + top.length - 1 - levels =
        before.length + (top.length - 1 - levels) := by omega
    rw [hshift, List.getElem?_append_right (Nat.le_add_right _ _), Nat.add_sub_cancel_left]
    exact List.getElem?_eq_getElem hindex
  exact ⟨top[top.length - 1 - levels], hfound s.trail hs, hfound t.trail ht⟩

end State.Agree

/-! ### Walks -/

/-- **The walk sees no more than some contexts on top.**  From states that agree on `own` of them it
has the same outcome and leaves the same document, and if it succeeds the states that it leaves agree
on `known`. -/
def Walk.Sees {α : Type} (own known : Nat) (walk : Walk α) : Prop :=
  ∀ s t, s.Agree own t →
    (walk s).1 = (walk t).1 ∧ (walk s).2.Agree 0 (walk t).2 ∧
      ∀ a, (walk s).1 = .ok a → (walk s).2.Agree known (walk t).2

namespace Walk

variable {α β : Type} {own mid known : Nat}

/-- A walk that does not look at the trail and leaves it alone. -/
theorem sees_of_blind {walk : Walk α}
    (h : ∀ s t : State, s.document = t.document →
      (walk s).1 = (walk t).1 ∧ (walk s).2.document = (walk t).2.document)
    (htrail : ∀ s, (walk s).2.trail = s.trail) : walk.Sees own own := by
  intro s t hst
  obtain ⟨hresult, hdocument⟩ := h s t hst.document_eq
  have hafter := hst.of_trail_eq hdocument (htrail s) (htrail t)
  exact ⟨hresult, hafter.mono (Nat.zero_le own), fun _ _ => hafter⟩

theorem sees_pure (a : α) : (pure a : Walk α).Sees own own :=
  sees_of_blind (fun _ _ h => ⟨rfl, h⟩) fun _ => rfl

theorem sees_ofExcept (result : Except PathError α) : (ofExcept result).Sees own own :=
  sees_of_blind (fun _ _ h => ⟨rfl, h⟩) fun _ => rfl

theorem sees_fail (fault : PathError) : (fail fault : Walk α).Sees own own :=
  sees_ofExcept (.error fault)

theorem sees_asking (question : Value → Except PathError α) : (asking question).Sees own own :=
  sees_of_blind (fun _ _ h => ⟨congrArg question h, h⟩) fun _ => rfl

/-- What is known of the trails may be forgotten. -/
theorem Sees.forget {walk : Walk α} (h : walk.Sees own known) : walk.Sees own 0 := by
  intro s t hst
  obtain ⟨hresult, hafter, -⟩ := h s t hst
  exact ⟨hresult, hafter, fun _ _ => hafter⟩

/-- A walk that needs to know less can do with more. -/
theorem Sees.of_le {walk : Walk α} (h : walk.Sees mid known) (hle : mid ≤ own) :
    walk.Sees own known := fun s t hst => h s t (hst.mono hle)

/-- A walk that leaves the trail alone leaves as much known as was before. -/
theorem Sees.of_steady {walk : Walk α} (h : walk.Sees own known)
    (htrail : ∀ s, (walk s).2.trail = s.trail) : walk.Sees own own := by
  intro s t hst
  obtain ⟨hresult, hafter, -⟩ := h s t hst
  exact ⟨hresult, hafter, fun _ _ => hst.of_trail_eq hafter.document_eq (htrail s) (htrail t)⟩

/-- Walks in sequence. -/
theorem Sees.bind {walk : Walk α} {next : α → Walk β} (hwalk : walk.Sees own mid)
    (hnext : ∀ a, (next a).Sees mid known) : (walk >>= next).Sees own known := by
  intro s t hst
  obtain ⟨hresult, hafter, hknown⟩ := hwalk s t hst
  rcases hs : walk s with ⟨fault | a, s'⟩ <;> rcases ht : walk t with ⟨fault' | b, t'⟩ <;>
    rw [hs, ht] at hresult hafter hknown <;> cases hresult
  · rw [bind_of_error hs, bind_of_error ht]
    exact ⟨rfl, hafter, fun _ h => nomatch h⟩
  · rw [bind_of_ok hs, bind_of_ok ht]
    exact hnext a s' t' (hknown a rfl)

theorem Sees.map {walk : Walk α} (h : walk.Sees own known) (f : α → β) :
    (f <$> walk).Sees own known := by
  rw [map_eq_pure_bind]
  exact h.bind fun a => sees_pure (f a)

/-! ### The trail -/

/-- A result that is added is known. -/
theorem sees_push (focus : Focus) : (push focus).Sees own (own + 1) := by
  intro s t hst
  have hroot : ∀ trail : List Focus, trail.head? = some Focus.root →
      (trail ++ [focus]).head? = some Focus.root := fun trail =>
    Discipline.rooted.push trail focus
  obtain ⟨top, hlength, hleft, hright⟩ := hst.top
  have hsuffix : ∀ trail : List Focus, top <:+ trail → top ++ [focus] <:+ trail ++ [focus] := by
    rintro trail ⟨before, rfl⟩
    exact ⟨before, (List.append_assoc before top [focus]).symm⟩
  have hafter : (push focus s).2.Agree (own + 1) (push focus t).2 := by
    refine ⟨hst.document_eq, hroot _ hst.left, hroot _ hst.right, top ++ [focus], ?_,
      hsuffix _ hleft, hsuffix _ hright⟩
    rw [List.length_append, hlength, List.length_singleton]
  exact ⟨rfl, hafter.mono (Nat.zero_le _), fun _ _ => hafter⟩

/-- The trails are cut back to what they were, of which nothing is known any more. -/
theorem sees_enclosed {walk : Walk α} (h : walk.Sees own known)
    (hrooted : walk.Moves Discipline.rooted.many) : (enclosed walk).Sees own 0 := by
  intro s t hst
  obtain ⟨hresult, hafter, -⟩ := h s t hst
  have hcut : ∀ s : State, s.Rooted → (enclosed walk s).2.Rooted := fun s =>
    (Discipline.rooted.moves_enclosed hrooted s).1
  have hagree : (enclosed walk s).2.Agree 0 (enclosed walk t).2 :=
    .of_rooted hafter.document_eq (hcut s hst.left) (hcut t hst.right)
  exact ⟨hresult, hagree, fun _ _ => hagree⟩

/-- A context among those that are known is seen. -/
theorem sees_ancestor {levels : Nat} (h : levels < own) : (ancestor levels).Sees own own := by
  intro s t hst
  obtain ⟨focus, ⟨hs, hleft⟩, ht, hright⟩ := hst.exists_getElem? h
  have hfound : ∀ s : State, levels < s.trail.length →
      s.trail[s.trail.length - 1 - levels]? = some focus → ancestor levels s = (.ok focus, s) := by
    intro s hlt hget
    rw [ancestor, if_pos hlt, hget]
  rw [hfound s hs hleft, hfound t ht hright]
  exact ⟨rfl, hst.mono (Nat.zero_le own), fun _ _ => hst⟩

/-- The context below the current one is seen if it is known, too. -/
theorem sees_below? (h : 2 ≤ own) : below?.Sees own own := by
  intro s t hst
  obtain ⟨focus, ⟨hs, hleft⟩, ht, hright⟩ := hst.exists_getElem? (show 1 < own from h)
  have hfound : ∀ s : State, 1 < s.trail.length →
      s.trail[s.trail.length - 1 - 1]? = some focus → below? s = (.ok (some focus), s) := by
    intro s hlt hget
    rw [below?, if_pos (show 2 ≤ s.trail.length from hlt), ← hget]
    rfl
  rw [hfound s hs hleft, hfound t ht hright]
  exact ⟨rfl, hst.mono (Nat.zero_le own), fun _ _ => hst⟩

/-- Back at the document, the document is known and there is nothing below it. -/
theorem sees_rewind : rewind.Sees own 1 := by
  intro s t hst
  have hroot : ∀ s : State, s.Rooted →
      rewind s = (.ok .root, { s with trail := [.root] }) := by
    intro s h
    obtain ⟨rest, hrest⟩ : ∃ rest, s.trail = Focus.root :: rest := List.head?_eq_some_iff.mp h
    rw [rewind, hrest]
    rfl
  rw [hroot s hst.left, hroot t hst.right]
  have hafter : State.Agree 1 { s with trail := [.root] } { t with trail := [.root] } :=
    ⟨hst.document_eq, rfl, rfl, [.root], rfl, List.suffix_rfl, List.suffix_rfl⟩
  exact ⟨rfl, hafter.mono (Nat.zero_le 1), fun _ _ => hafter⟩

/-! ### Several walks -/

/-- A walk and the others after it, if what is known behind the walk is enough for them. -/
theorem Sees.gather_cons {persist : Bool} {walk : Walk (Option Focus)}
    {rest : List (Walk (Option Focus))} (hwalk : walk.Sees own 0)
    (hmid : ∀ s t, s.Agree own t → (walk s).2.Agree mid (walk t).2)
    (hrest : (gather persist rest).Sees mid 0) : (gather persist (walk :: rest)).Sees own 0 := by
  intro s t hst
  obtain ⟨hresult, hafter, -⟩ := hwalk s t hst
  have hnext := hmid s t hst
  rcases hs : walk s with ⟨fault | found, s'⟩ <;> rcases ht : walk t with ⟨fault' | found', t'⟩ <;>
    rw [hs, ht] at hresult hafter hnext <;> cases hresult
  · rw [gather_of_error hs, gather_of_error ht]
    -- After a failure the others count for the document only; the failure is the result.
    cases persist with
    | false => exact ⟨rfl, hafter, fun _ h => nomatch h⟩
    | true => exact ⟨rfl, (hrest s' t' hnext).2.1, fun _ h => nomatch h⟩
  · obtain ⟨hothers, hagree, -⟩ := hrest s' t' hnext
    rw [gather_of_ok hs, gather_of_ok ht]
    rcases hs' : gather persist rest s' with ⟨fault | others, u⟩ <;>
      rcases ht' : gather persist rest t' with ⟨fault' | others', v⟩ <;>
      rw [hs', ht'] at hothers hagree <;> cases hothers
    · exact ⟨rfl, hagree, fun _ h => nomatch h⟩
    · exact ⟨rfl, hagree, fun _ _ => hagree⟩

/-- Several walks that leave the trail alone, or need to know nothing of it. -/
theorem sees_gather (persist : Bool) {walks : List (Walk (Option Focus))}
    (h : ∀ walk ∈ walks, walk.Sees own 0)
    (hkeep : own = 0 ∨ ∀ walk ∈ walks, ∀ s, (walk s).2.trail = s.trail) :
    (gather persist walks).Sees own 0 := by
  induction walks with
  | nil => exact (sees_pure []).forget
  | cons walk rest ih =>
      obtain ⟨hwalk, hrest⟩ := List.forall_mem_cons.mp h
      have hothers : (gather persist rest).Sees own 0 :=
        ih hrest (hkeep.imp_right fun hsteady => (List.forall_mem_cons.mp hsteady).2)
      refine hwalk.gather_cons (fun s t hst => ?_) hothers
      obtain ⟨-, hafter, -⟩ := hwalk s t hst
      rcases hkeep with rfl | hsteady
      · exact hafter
      · have htrail := (List.forall_mem_cons.mp hsteady).1
        exact hst.of_trail_eq hafter.document_eq (htrail s) (htrail t)

/-! ### The document -/

/-- To assign is to look at the document alone. -/
theorem sees_assign (focus : Focus) (name : String) (value : Value) :
    (assign focus name value).Sees own own := by
  refine sees_of_blind (fun s t h => ?_) fun s => Discipline.steady.moves_assign focus name value s
  cases focus with
  | place path =>
      simp only [assign, h]
      cases t.document.setChildAt path name value with
      | ok changed => exact ⟨rfl, rfl⟩
      | error fault => exact ⟨rfl, h⟩
  | _ => exact ⟨rfl, h⟩

end Walk

section Operations

variable {own : Nat}

theorem sees_access (focus : Focus) (name : String) (intent : Intent) (create : Bool) :
    (access focus name intent create).Sees own own := by
  cases intent with
  | write value => exact Walk.sees_assign focus name value
  | read =>
      intro s t hst
      have hmake := Walk.sees_assign focus name (.object []) s t hst
      have hsame : s.Agree 0 t := hst.mono (Nat.zero_le own)
      cases hs : focus.child? s.document name with
      | some found =>
          have ht : focus.child? t.document name = some found := hst.document_eq ▸ hs
          rw [access_read_of_some hs, access_read_of_some ht]
          exact ⟨rfl, hsame, fun _ _ => hst⟩
      | none =>
          have ht : focus.child? t.document name = none := hst.document_eq ▸ hs
          rw [access_read_of_none hs, access_read_of_none ht]
          cases create with
          | false => exact ⟨rfl, hsame, fun _ h => nomatch h⟩
          | true => exact hmake

theorem sees_wildcard (focus : Focus) (glob : Glob) (intent : Intent) :
    (wildcard focus glob intent).Sees own 0 := by
  refine (Walk.sees_asking _).bind fun names => ?_
  refine (Walk.sees_gather _ ?_ (.inr ?_)).bind fun found => Walk.sees_pure _
  · intro walk hwalk
    obtain ⟨name, -, rfl⟩ := List.mem_map.mp hwalk
    exact ((sees_access focus name intent false).map some).forget
  · intro walk hwalk
    obtain ⟨name, -, rfl⟩ := List.mem_map.mp hwalk
    exact Discipline.steady.moves_map (Discipline.steady.moves_access focus name intent false) some

/-- **A name starts where its modifiers say**: a context among those that are known, if it is none
below them, or the document. -/
theorem sees_origin {modifiers : Modifiers} (h : modifiers.parent = 0 ∨ modifiers.parent < own)
    (focus : Focus) :
    (origin modifiers focus).Sees own (if modifiers.root then 1 else own) := by
  have hparent : (if 0 < modifiers.parent then Walk.ancestor modifiers.parent
      else pure focus).Sees own own := by
    split
    · exact Walk.sees_ancestor (by omega)
    · exact Walk.sees_pure focus
  refine hparent.bind fun focus => ?_
  cases modifiers.root with
  | true => exact Walk.sees_rewind
  | false => exact Walk.sees_pure focus

/-- What a name does where it starts. -/
theorem sees_word (env : Env) {w : Word} (h : w.modifiers.parent = 0 ∨ w.modifiers.parent < own)
    (intent : Intent) (create : Bool) (focus : Focus) :
    (word env w intent create focus).Sees own (if w.modifiers.root then 1 else own) := by
  refine (sees_origin h focus).bind fun focus => ?_
  cases w.modifiers.context with
  | true =>
      cases intent with
      | write value => exact Walk.sees_fail _
      | read => exact (Walk.sees_ofExcept _).bind fun value => Walk.sees_pure _
  | false =>
      refine (Walk.sees_ofExcept _).bind fun name => (Walk.sees_ofExcept _).bind fun glob? => ?_
      cases glob? with
      | some glob =>
          exact (sees_wildcard focus glob intent).of_steady
            (Discipline.steady.moves_wildcard focus glob intent)
      | none => exact sees_access focus name intent create

theorem sees_computedName (found : Focus) : (computedName found).Sees own own := by
  refine (Walk.sees_asking _).bind fun value => ?_
  cases value.key? with
  | some name => exact Walk.sees_pure name
  | none => exact Walk.sees_fail _

theorem sees_spreadArguments (found : Focus) : (spreadArguments found).Sees own own := by
  cases found with
  | fan items => exact Walk.sees_asking _
  | _ =>
      refine (Walk.sees_asking _).bind fun value => ?_
      cases value <;> exact Walk.sees_pure _

theorem sees_receiver (h : 2 ≤ own) : receiver.Sees own own := by
  refine (Walk.sees_below? h).bind fun frame? => ?_
  cases frame? with
  | some frame => exact Walk.sees_asking _
  | none => exact Walk.sees_pure _

/-- A call sees the context below the function, and what its arguments see. -/
theorem sees_call (env : Env) (h : 2 ≤ own) {arguments : Walk (List Value)}
    (harguments : arguments.Sees own 0) (focus : Focus) :
    (call env focus arguments).Sees own 0 := by
  refine (Walk.sees_asking _).bind fun callee => ?_
  cases callee with
  | function name =>
      refine (sees_receiver h).bind fun receiver => harguments.bind fun values => ?_
      cases env.functions name receiver values with
      | some answer => exact Walk.sees_pure _
      | none => exact Walk.sees_fail _
  | _ => exact (Walk.sees_fail _).forget

/-- **A broadcast sees what its step sees on top of an element.** If the step may drop contexts, none
are known on top of the other elements but the elements themselves. -/
theorem sees_spread {kept : Nat} {each : Bool} (intent : Intent) {apply : Focus → Walk Focus}
    (hle : kept ≤ own) (hrooted : ∀ focus, (apply focus).Moves Discipline.rooted.one)
    (hkeep : kept = 0 ∨ ∀ focus, (apply focus).Moves Discipline.steady.one)
    (h : ∀ focus, (apply focus).Sees (if each then kept + 1 else own) 0) (focus : Focus) :
    (spread each intent focus apply).Sees own 0 := by
  cases each with
  | false => exact h focus
  | true =>
      refine (Walk.sees_asking _).bind fun elements => ?_
      refine ((Walk.sees_gather _ ?_ ?_).of_le hle).bind fun found => Walk.sees_pure _
      · intro walk hwalk
        obtain ⟨element, -, rfl⟩ := List.mem_map.mp hwalk
        refine (Walk.sees_enclosed ((Walk.sees_push element).bind fun _ => h element) ?_).map some
        exact Discipline.rooted.moves_many_bind (Discipline.rooted.moves_many_push element)
          fun _ s => Discipline.rooted.many_of_one (hrooted element s)
      · refine hkeep.imp_right fun hsteady walk hwalk => ?_
        obtain ⟨element, -, rfl⟩ := List.mem_map.mp hwalk
        refine Discipline.steady.moves_map (Discipline.steady.moves_enclosed ?_) some
        exact Discipline.steady.moves_many_bind (Discipline.steady.moves_many_push element)
          fun _ s => Discipline.steady.many_of_one (hsteady element s)

end Operations

/-! ### Tokens -/

section Tokens

variable (env : Env)

/-- What a token that sees some contexts leaves known of them, whatever its outcome. -/
theorem agree_kept {α : Type} {walk : Walk α} {token : Token} {own : Nat} (h : walk.Sees own 0)
    (hsteady : token.rewinds = false → walk.Moves Discipline.steady.one) {s t : State}
    (hst : s.Agree own t) : (walk s).2.Agree (token.kept own) (walk t).2 := by
  obtain ⟨-, hafter, -⟩ := h s t hst
  unfold Token.kept
  cases hroot : token.rewinds with
  | true => exact hafter
  | false => exact hst.of_trail_eq hafter.document_eq (hsteady hroot s) (hsteady hroot t)

/-- A token that sees some contexts leaves known what it keeps of them. -/
theorem step_sees_kept {token : Token} {own : Nat} {intent : Intent} {create : Bool}
    {focus : Focus} (h : (step env token intent create focus).Sees own 0) :
    (step env token intent create focus).Sees own (token.kept own) := by
  intro s t hst
  obtain ⟨hresult, hafter, -⟩ := h s t hst
  refine ⟨hresult, hafter, fun _ _ => agree_kept h (fun hroot => ?_) hst⟩
  exact Discipline.steady.step_moves env token (fun htrue => nomatch hroot.symm.trans htrue) intent
    create focus

/-- If each of several tokens sees no more than it says, neither do they in sequence. -/
theorem advance_sees_of_forall {tokens : List Token}
    (h : ∀ token ∈ tokens, ∀ own intent create focus, token.looksBelow own = false →
      (step env token intent create focus).Sees own (token.known own))
    {own : Nat} (hbelow : Token.sequenceLooksBelow tokens own = false) (intent : Intent)
    (create : Bool) (focus : Focus) : (advance env tokens intent create focus).Sees own 0 := by
  induction tokens generalizing own create focus with
  | nil => exact (Walk.sees_pure focus).forget
  | cons token rest ih =>
      obtain ⟨htoken, hrest⟩ := List.forall_mem_cons.mp h
      rw [Token.sequenceLooksBelow, Bool.or_eq_false_iff] at hbelow
      obtain ⟨hfirst, hothers⟩ := hbelow
      cases rest with
      | nil =>
          rw [advance_singleton]
          refine (htoken own _ _ _ hfirst).bind fun found => (Walk.sees_push found).bind fun _ => ?_
          exact (Walk.sees_pure found).forget
      | cons next others =>
          rw [advance_cons_cons]
          refine (htoken own _ _ _ hfirst).bind fun found => (Walk.sees_push found).bind fun _ => ?_
          exact ih hrest hothers _ _

/-- If each of several items sees no more than it says, neither do they side by side. -/
theorem members_sees_of_forall {items : List Token}
    (h : ∀ item ∈ items, ∀ own intent create focus, item.looksBelow own = false →
      (step env item intent create focus).Sees own (item.known own))
    {own : Nat} (hbelow : Token.itemsLookBelow items own = false) (persist : Bool)
    (intent : Intent) (focus : Focus) :
    (Walk.gather persist (members env items intent focus)).Sees own 0 := by
  induction items generalizing own with
  | nil => exact (Walk.sees_pure []).forget
  | cons item rest ih =>
      obtain ⟨hitem, hrest⟩ := List.forall_mem_cons.mp h
      rw [Token.itemsLookBelow, Bool.or_eq_false_iff] at hbelow
      obtain ⟨hfirst, hothers⟩ := hbelow
      rw [members_cons]
      have hwalk := ((hitem own intent false focus hfirst).bind fun found =>
        Walk.sees_pure (if intent.isWrite && isComputed item then none else some found)).forget
      refine hwalk.gather_cons (fun s t hst => agree_kept hwalk (fun hroot => ?_) hst)
        (ih hrest hothers)
      refine Discipline.steady.moves_bind ?_ fun found => Discipline.steady.moves_pure _
      exact Discipline.steady.step_moves env item (fun htrue => absurd htrue (ne_true_of_eq_false hroot))
        intent false focus

/-- A broadcast sees no more than it says, if what is applied to the elements does not. -/
theorem step_sees_of_single {token : Token} {intent : Intent} {create : Bool}
    (hsingle : ∀ own focus, token.single.looksBelow own = false →
      (step env token.single intent create focus).Sees own 0)
    {own : Nat} (h : token.looksBelow own = false) (focus : Focus) :
    (step env token intent create focus).Sees own 0 := by
  rw [step_eq_spread]
  refine sees_spread intent (token.kept_le own) (fun focus => ?_) ?_ (fun focus => ?_) focus
  · exact Discipline.rooted.step_moves env token.single (fun _ => rooted_take_one) intent create focus
  · refine (token.kept_eq_zero_or own).imp_right fun hroot focus => ?_
    rw [← token.rewinds_single] at hroot
    exact Discipline.steady.step_moves env token.single (fun htrue => nomatch hroot.symm.trans htrue)
      intent create focus
  · exact hsingle _ focus ((token.looksBelow_single own).trans h)

/-- **A token sees no more of the trail than it says**: from states that agree on `own` contexts it
goes the same way, unless it looks below them. -/
theorem step_sees (token : Token) (own : Nat) (intent : Intent) (create : Bool) (focus : Focus)
    (h : token.looksBelow own = false) :
    (step env token intent create focus).Sees own (token.known own) := by
  induction token generalizing own intent create focus with
  | plain name => exact step_sees_kept env (sees_access focus name intent create).forget
  | word w =>
      have hword : ∀ own focus, (Token.word w).single.looksBelow own = false →
          (word env w intent create focus).Sees own (if w.modifiers.root then 1 else own) := by
        intro own focus hbelow
        simp only [Token.single, Token.looksBelow, Token.within, Token.each, Bool.false_eq_true,
          if_false, Bool.and_eq_false_iff, decide_eq_false_iff_not] at hbelow
        exact sees_word env (by omega) intent create focus
      -- Only without a broadcast the trail that the word leaves is the one it went on from.
      cases heach : w.each with
      | true =>
          have hknown : (Token.word w).known own = (Token.word w).kept own := by
            simp [Token.known, heach]
          rw [hknown]
          exact step_sees_kept env
            (step_sees_of_single env (fun own focus h => (hword own focus h).forget) h focus)
      | false =>
          have hknown : (Token.word w).known own = if w.modifiers.root then 1 else own := by
            cases hroot : w.modifiers.root <;>
              simp [Token.known, Token.kept, Token.rewinds_word, heach, hroot]
          have hwithin : (Token.word w).within own = own := by simp [Token.within, Token.each, heach]
          rw [hknown, step_word, heach]
          rw [← Token.looksBelow_single, hwithin] at h
          exact hword own focus h
  | collection items each ih =>
      refine step_sees_kept env (step_sees_of_single env (fun own focus h => ?_) h focus)
      exact (members_sees_of_forall env ih h _ intent focus).bind fun found => Walk.sees_pure _
  | container role inner each ih =>
      refine step_sees_kept env (step_sees_of_single env (fun own focus h => ?_) h focus)
      rw [Token.single, Token.looksBelow, Bool.or_eq_false_iff] at h
      obtain ⟨hcall, hinner⟩ := h
      have hwalk : ∀ intent create,
          (Walk.enclosed (advance env inner.tokens intent create focus)).Sees own 0 := by
        intro intent create
        refine Walk.sees_enclosed (advance_sees_of_forall env ih hinner intent create focus) ?_
        exact Discipline.rooted.advance_moves env inner.tokens (fun _ => rooted_take_one) intent
          create focus
      cases role with
      | property | singleQuote | doubleQuote => exact hwalk intent create
      | evalProperty =>
          refine (hwalk .read false).bind fun found => (sees_computedName found).bind fun name => ?_
          exact sees_access focus name intent create
      | call =>
          cases intent with
          | write value => exact (Walk.sees_fail _).forget
          | read =>
              have hown : 2 ≤ own := by
                have hnot : ¬own < 2 := fun hlt => of_decide_eq_false hcall ⟨rfl, hlt⟩
                omega
              refine sees_call env hown ?_ focus
              split
              · exact (Walk.sees_pure []).forget
              · exact (hwalk .read false).bind sees_spreadArguments

/-- **Tokens in sequence see no more of the trail than they say.** -/
theorem advance_sees {tokens : List Token} {own : Nat}
    (h : Token.sequenceLooksBelow tokens own = false) (intent : Intent) (create : Bool)
    (focus : Focus) : (advance env tokens intent create focus).Sees own 0 :=
  advance_sees_of_forall env (fun token _ => step_sees env token) h intent create focus

/-- What tokens in sequence read is read from no more of the trail than they say. -/
theorem readFrom_sees {tokens : List Token} {own : Nat}
    (h : Token.sequenceLooksBelow tokens own = false) (focus : Focus) :
    (readFrom env tokens focus).Sees own 0 :=
  (advance_sees env h .read false focus).bind fun _ => Walk.sees_asking _

end Tokens

end PathExpr.Resolve
