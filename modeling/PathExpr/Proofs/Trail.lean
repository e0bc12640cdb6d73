import PathExpr.Proofs.Reach
import PathExpr.Resolve.Interpret

/-!
# What tokens may do to the trail

Tokens in sequence add to the trail, and every token that holds others cuts it back behind them.  So
there are two things to say: what one token may do to the trail, and what tokens in sequence may do.
A `Discipline` is a pair of such relations that fit together.  One induction shows that tokens keep to
any discipline (`Discipline.step_moves`); it goes through the operations of the interpreter once,
and two disciplines are read off it:

* without a root modifier tokens in sequence leave the trail below what they add, so that one token
  leaves it exactly as it was (`step_trail`);
* in any case the document stays at the bottom, and no token leaves the trail longer than it was
  (`step_rooted`, `length_trail_step_le`).

Both hold for reads and writes, and of walks that fail as of those that succeed.  A resolution inside
another one is tokens in sequence that are cut back behind, so it is bound by both as one token is
(`resolution_leaves_trail`).
-/

namespace PathExpr.Resolve

/-- A token is applied to its context, or to every element of it. -/
theorem step_eq_spread (env : Env) (token : Token) (intent : Intent) (create : Bool)
    (focus : Focus) :
    step env token intent create focus =
      spread token.each intent focus (step env token.single intent create) := by
  cases token <;> rfl

/-- **Whatever the outcome**, the walk does to the trail what it may do. -/
def Walk.Moves {α : Type} (may : List Focus → List Focus → Prop) (walk : Walk α) : Prop :=
  ∀ s, may s.trail (walk s).2.trail

/-- Walks in sequence do what each of them may, if that can be done one after the other. -/
theorem Walk.Moves.bind {α β : Type} {may : List Focus → List Focus → Prop} {walk : Walk α}
    {next : α → Walk β} (hwalk : walk.Moves may) (hnext : ∀ a, (next a).Moves may)
    (htrans : ∀ first second third, may first second → may second third → may first third) :
    (walk >>= next).Moves may := by
  intro s
  have hfirst := hwalk s
  rcases h : walk s with ⟨fault | a, t⟩ <;> rw [h] at hfirst
  · rw [Walk.bind_of_error h]
    exact hfirst
  · rw [Walk.bind_of_ok h]
    exact htrans _ _ _ hfirst (hnext a t)

/-- What one token may do to the trail, and what tokens in sequence may do. -/
structure Discipline where
  one : List Focus → List Focus → Prop
  many : List Focus → List Focus → Prop
  refl : ∀ trail, one trail trail
  trans : ∀ {first second third}, one first second → one second third → one first third
  many_of_one : ∀ {first second}, one first second → many first second
  many_trans : ∀ {first second third}, many first second → many second third → many first third
  /-- A result is added. -/
  push : ∀ trail focus, many trail (trail ++ [focus])
  /-- What tokens in sequence have added is cut off. -/
  cut : ∀ {first second}, many first second → one first (second.take first.length)

namespace Discipline

variable {α β : Type} (d : Discipline)

/-! ### Walks -/

/-- To leave the trail alone is always allowed. -/
theorem moves_of_eq {walk : Walk α} (h : ∀ s, (walk s).2.trail = s.trail) : walk.Moves d.one := by
  intro s
  rw [h s]
  exact d.refl s.trail

theorem moves_pure (a : α) : (pure a : Walk α).Moves d.one := d.moves_of_eq fun _ => rfl

theorem moves_fail (fault : PathError) : (Walk.fail fault : Walk α).Moves d.one :=
  d.moves_of_eq fun _ => rfl

theorem moves_ofExcept (result : Except PathError α) : (Walk.ofExcept result).Moves d.one :=
  d.moves_of_eq fun _ => rfl

theorem moves_asking (question : Value → Except PathError α) :
    (Walk.asking question).Moves d.one := d.moves_of_eq fun _ => rfl

theorem moves_bind {walk : Walk α} {next : α → Walk β} (hwalk : walk.Moves d.one)
    (hnext : ∀ a, (next a).Moves d.one) : (walk >>= next).Moves d.one :=
  hwalk.bind hnext fun _ _ _ => d.trans

theorem moves_many_bind {walk : Walk α} {next : α → Walk β} (hwalk : walk.Moves d.many)
    (hnext : ∀ a, (next a).Moves d.many) : (walk >>= next).Moves d.many :=
  hwalk.bind hnext fun _ _ _ => d.many_trans

theorem moves_map {walk : Walk α} (h : walk.Moves d.one) (f : α → β) :
    (f <$> walk).Moves d.one := by
  rw [map_eq_pure_bind]
  exact d.moves_bind h fun a => d.moves_pure (f a)

theorem moves_many_push (focus : Focus) : (Walk.push focus).Moves d.many :=
  fun s => d.push s.trail focus

/-- What is enclosed may do what tokens in sequence may. -/
theorem moves_enclosed {walk : Walk α} (h : walk.Moves d.many) : (Walk.enclosed walk).Moves d.one :=
  fun s => d.cut (h s)

theorem moves_ancestor (levels : Nat) : (Walk.ancestor levels).Moves d.one := by
  refine d.moves_of_eq fun s => ?_
  unfold Walk.ancestor
  cases if levels < s.trail.length then s.trail[s.trail.length - 1 - levels]? else none <;> rfl

/-- To assign changes the document and not the trail. -/
theorem moves_assign (focus : Focus) (name : String) (value : Value) :
    (Walk.assign focus name value).Moves d.one := by
  refine d.moves_of_eq fun s => ?_
  cases focus with
  | place path =>
      simp only [Walk.assign]
      cases s.document.setChildAt path name value <;> rfl
  | _ => rfl

/-- Several walks may do what each of them may, also when failures do not stop them. -/
theorem moves_gather (persist : Bool) {walks : List (Walk (Option Focus))}
    (h : ∀ walk ∈ walks, walk.Moves d.one) : (Walk.gather persist walks).Moves d.one := by
  induction walks with
  | nil => exact d.moves_pure []
  | cons walk rest ih =>
      obtain ⟨hwalk, hrest⟩ := List.forall_mem_cons.mp h
      intro s
      have hfirst := hwalk s
      rcases h : walk s with ⟨fault | found, t⟩ <;> rw [h] at hfirst
      · rw [Walk.gather_of_error h]
        -- If failures do not stop them, the others go on from the trail that this one has left.
        cases persist with
        | false => exact hfirst
        | true => exact d.trans hfirst (ih hrest t)
      · have hothers := d.trans hfirst (ih hrest t)
        rw [Walk.gather_of_ok h]
        rcases hrest : Walk.gather persist rest t with ⟨fault | others, u⟩ <;>
          rw [hrest] at hothers <;> exact hothers

/-! ### Operations of tokens -/

theorem moves_access (focus : Focus) (name : String) (intent : Intent) (create : Bool) :
    (access focus name intent create).Moves d.one := by
  cases intent with
  | write value => exact d.moves_assign focus name value
  | read =>
      intro s
      cases h : focus.child? s.document name with
      | some found =>
          rw [access_read_of_some h]
          exact d.refl s.trail
      | none =>
          rw [access_read_of_none h]
          cases create with
          | false => exact d.refl s.trail
          | true => exact d.moves_assign focus name (.object []) s

theorem moves_wildcard (focus : Focus) (glob : Glob) (intent : Intent) :
    (wildcard focus glob intent).Moves d.one := by
  refine d.moves_bind (d.moves_asking _) fun names => ?_
  refine d.moves_bind (d.moves_gather _ fun walk hwalk => ?_) fun found => d.moves_pure _
  obtain ⟨name, -, rfl⟩ := List.mem_map.mp hwalk
  exact d.moves_map (d.moves_access focus name intent false) some

/-- Only a root modifier drops contexts. -/
theorem moves_origin (modifiers : Modifiers)
    (hroot : modifiers.root = true → ∀ trail, d.one trail (trail.take 1)) (focus : Focus) :
    (origin modifiers focus).Moves d.one := by
  refine d.moves_bind ?_ fun focus => ?_
  · split
    · exact d.moves_ancestor _
    · exact d.moves_pure _
  · cases hflag : modifiers.root with
    | true => exact fun s => hroot hflag s.trail
    | false => exact d.moves_pure _

theorem moves_word (env : Env) (w : Word)
    (hroot : w.modifiers.root = true → ∀ trail, d.one trail (trail.take 1)) (intent : Intent)
    (create : Bool) (focus : Focus) : (word env w intent create focus).Moves d.one := by
  refine d.moves_bind (d.moves_origin w.modifiers hroot focus) fun focus => ?_
  cases w.modifiers.context with
  | true =>
      cases intent with
      | write value => exact d.moves_fail _
      | read => exact d.moves_bind (d.moves_ofExcept _) fun value => d.moves_pure _
  | false =>
      refine d.moves_bind (d.moves_ofExcept _) fun name => ?_
      refine d.moves_bind (d.moves_ofExcept _) fun glob? => ?_
      cases glob? with
      | some glob => exact d.moves_wildcard focus glob intent
      | none => exact d.moves_access focus name intent create

theorem moves_computedName (found : Focus) : (computedName found).Moves d.one := by
  refine d.moves_bind (d.moves_asking _) fun value => ?_
  cases value.key? with
  | some name => exact d.moves_pure name
  | none => exact d.moves_fail _

theorem moves_spreadArguments (found : Focus) : (spreadArguments found).Moves d.one := by
  cases found with
  | fan items => exact d.moves_asking _
  | _ =>
      refine d.moves_bind (d.moves_asking _) fun value => ?_
      cases value <;> exact d.moves_pure _

theorem moves_receiver : receiver.Moves d.one := by
  refine d.moves_bind (d.moves_of_eq fun _ => rfl) fun frame? => ?_
  cases frame? with
  | some frame => exact d.moves_asking _
  | none => exact d.moves_pure _

theorem moves_call (env : Env) (focus : Focus) {arguments : Walk (List Value)}
    (h : arguments.Moves d.one) : (call env focus arguments).Moves d.one := by
  refine d.moves_bind (d.moves_asking _) fun callee => ?_
  cases callee with
  | function name =>
      refine d.moves_bind d.moves_receiver fun receiver => d.moves_bind h fun values => ?_
      cases env.functions name receiver values with
      | some answer => exact d.moves_pure _
      | none => exact d.moves_fail _
  | _ => exact d.moves_fail _

/-- A broadcast puts every element on the trail and takes it off again. -/
theorem moves_spread (each : Bool) (intent : Intent) {apply : Focus → Walk Focus}
    (h : ∀ focus, (apply focus).Moves d.one) (focus : Focus) :
    (spread each intent focus apply).Moves d.one := by
  cases each with
  | false => exact h focus
  | true =>
      refine d.moves_bind (d.moves_asking _) fun elements => ?_
      refine d.moves_bind (d.moves_gather _ fun walk hwalk => ?_) fun found => d.moves_pure _
      obtain ⟨element, -, rfl⟩ := List.mem_map.mp hwalk
      refine d.moves_map (d.moves_enclosed ?_) some
      exact d.moves_many_bind (d.moves_many_push element) fun _ s => d.many_of_one (h element s)

/-! ### Tokens -/

/-- If each of several tokens keeps to a discipline, they do so in sequence. -/
theorem advance_moves_of_forall (env : Env) {tokens : List Token}
    (h : ∀ token ∈ tokens, ∀ intent create focus, (step env token intent create focus).Moves d.one)
    (intent : Intent) (create : Bool) (focus : Focus) :
    (advance env tokens intent create focus).Moves d.many := by
  induction tokens generalizing create focus with
  | nil => exact fun s => d.many_of_one (d.moves_pure focus s)
  | cons token rest ih =>
      obtain ⟨htoken, hrest⟩ := List.forall_mem_cons.mp h
      cases rest with
      | nil =>
          rw [advance_singleton]
          refine d.moves_many_bind (fun s => d.many_of_one (htoken _ _ _ s)) fun found => ?_
          exact d.moves_many_bind (d.moves_many_push found) fun _ s =>
            d.many_of_one (d.moves_pure found s)
      | cons next others =>
          rw [advance_cons_cons]
          refine d.moves_many_bind (fun s => d.many_of_one (htoken _ _ _ s)) fun found => ?_
          exact d.moves_many_bind (d.moves_many_push found) fun _ => ih hrest _ _

/-- If each of several tokens keeps to a discipline, they do so side by side. -/
theorem members_moves_of_forall (env : Env) {items : List Token}
    (h : ∀ item ∈ items, ∀ intent create focus, (step env item intent create focus).Moves d.one)
    (intent : Intent) (focus : Focus) :
    ∀ walk ∈ members env items intent focus, walk.Moves d.one := by
  induction items with
  | nil => exact fun walk hwalk => nomatch hwalk
  | cons item rest ih =>
      obtain ⟨hitem, hrest⟩ := List.forall_mem_cons.mp h
      rw [members_cons]
      refine List.forall_mem_cons.mpr ⟨?_, ih hrest⟩
      exact d.moves_bind (hitem intent false focus) fun found => d.moves_pure _

/-- **Every token keeps to a discipline**; going back to the document has to be allowed only if the
token has a root modifier. -/
theorem step_moves (env : Env) (token : Token)
    (h : token.rewinds = true → ∀ trail, d.one trail (trail.take 1)) (intent : Intent)
    (create : Bool) (focus : Focus) : (step env token intent create focus).Moves d.one := by
  induction token generalizing intent create focus with
  | plain name => exact d.moves_access focus name intent create
  | word w =>
      rw [step_word]
      exact d.moves_spread _ _ (d.moves_word env w h intent create) focus
  | collection items each ih =>
      rw [step_collection]
      rw [Token.rewinds_collection] at h
      -- An item may go back to the document only if the collection may.
      have hitems : ∀ item ∈ items, ∀ intent create focus,
          (step env item intent create focus).Moves d.one := fun item hitem =>
        ih item hitem fun hrewinds => h (Token.anyRewinds_of_mem hitem hrewinds)
      refine d.moves_spread _ _ (fun focus => ?_) focus
      refine d.moves_bind (d.moves_gather _ ?_) fun found => d.moves_pure _
      exact d.members_moves_of_forall env hitems intent focus
  | container role inner each ih =>
      rw [Token.rewinds_container] at h
      have hinner : ∀ intent create focus,
          (advance env inner.tokens intent create focus).Moves d.many :=
        d.advance_moves_of_forall env fun token htoken =>
          ih token htoken fun hrewinds => h (Token.anyRewinds_of_mem htoken hrewinds)
      cases role with
      | call =>
          cases intent with
          | write value =>
              rw [step_call_write]
              exact d.moves_spread _ _ (fun _ => d.moves_fail _) focus
          | read =>
              rw [step_call_read]
              refine d.moves_spread _ _ (fun focus => d.moves_call env focus ?_) focus
              split
              · exact d.moves_pure _
              · exact d.moves_bind (d.moves_enclosed (hinner _ _ _)) d.moves_spreadArguments
      | evalProperty =>
          rw [step_computed]
          refine d.moves_spread _ _ (fun focus => ?_) focus
          refine d.moves_bind (d.moves_enclosed (hinner _ _ _)) fun found => ?_
          exact d.moves_bind (d.moves_computedName found) fun name => d.moves_access _ _ _ _
      | property | singleQuote | doubleQuote =>
          exact d.moves_spread _ _ (fun focus => d.moves_enclosed (hinner _ _ _)) focus

/-- **Tokens in sequence keep to a discipline.** -/
theorem advance_moves (env : Env) (tokens : List Token)
    (h : Token.anyRewinds tokens = true → ∀ trail, d.one trail (trail.take 1)) (intent : Intent)
    (create : Bool) (focus : Focus) : (advance env tokens intent create focus).Moves d.many :=
  d.advance_moves_of_forall env
    (fun token htoken => d.step_moves env token fun hrewinds =>
      h (Token.anyRewinds_of_mem htoken hrewinds))
    intent create focus

/-! ### Two disciplines -/

/-- One token leaves the trail as it was; tokens in sequence leave it below what they add. -/
def steady : Discipline where
  one before after := after = before
  many before after := before <+: after
  refl _ := rfl
  trans hfirst hsecond := hsecond.trans hfirst
  many_of_one h := h ▸ List.prefix_rfl
  many_trans := List.IsPrefix.trans
  push trail focus := List.prefix_append trail [focus]
  cut h := (List.prefix_iff_eq_take.mp h).symm

/-- The document stays at the bottom, and one token leaves the trail no longer than it was. -/
def rooted : Discipline where
  one before after :=
    (before.head? = some Focus.root → after.head? = some Focus.root) ∧ after.length ≤ before.length
  many before after := before.head? = some Focus.root → after.head? = some Focus.root
  refl _ := ⟨id, Nat.le_refl _⟩
  trans hfirst hsecond := ⟨hsecond.1 ∘ hfirst.1, Nat.le_trans hsecond.2 hfirst.2⟩
  many_of_one h := h.1
  many_trans hfirst hsecond := hsecond ∘ hfirst
  push trail focus h := by rw [List.head?_append, h, Option.some_or]
  cut {before after} h := by
    refine ⟨fun hroot => ?_, List.length_take_le _ _⟩
    have hne : before.length ≠ 0 := by
      intro hzero
      rw [List.length_eq_zero_iff.mp hzero] at hroot
      cases hroot
    rw [List.head?_take, if_neg hne]
    exact h hroot

end Discipline

/-- The document is at the bottom of the trail. -/
def State.Rooted (s : State) : Prop := s.trail.head? = some .root

theorem State.rooted_start (document : Value) : (State.start document).Rooted := rfl

section Trail

variable (env : Env) (intent : Intent) (create : Bool) (focus : Focus) (s : State)

/-- **Without a root modifier a token leaves the trail exactly as it was.** -/
theorem step_trail {token : Token} (h : token.rewinds = false) :
    (step env token intent create focus s).2.trail = s.trail :=
  Discipline.steady.step_moves env token (fun hroot => nomatch h.symm.trans hroot) intent create
    focus s

/-- To go back to the document is a way to leave the trail rooted, and no longer. -/
theorem rooted_take_one (trail : List Focus) : Discipline.rooted.one trail (trail.take 1) := by
  refine ⟨fun hroot => ?_, List.length_take_le' _ _⟩
  rw [List.head?_take, if_neg Nat.one_ne_zero]
  exact hroot

/-- **The document stays at the bottom of the trail**, whatever a token does. -/
theorem step_rooted (token : Token) (h : s.Rooted) :
    (step env token intent create focus s).2.Rooted :=
  (Discipline.rooted.step_moves env token (fun _ => rooted_take_one) intent create focus s).1 h

/-- **No token leaves the trail longer than it was.** -/
theorem length_trail_step_le (token : Token) :
    (step env token intent create focus s).2.trail.length ≤ s.trail.length :=
  (Discipline.rooted.step_moves env token (fun _ => rooted_take_one) intent create focus s).2

/-- If the document is alone on the trail, it still is behind any token. -/
theorem step_trail_of_alone (token : Token) (h : s.trail = [Focus.root]) :
    (step env token intent create focus s).2.trail = [Focus.root] := by
  have hrooted := step_rooted env intent create focus s token (congrArg List.head? h)
  have hlength := length_trail_step_le env intent create focus s token
  obtain ⟨rest, hrest⟩ := List.head?_eq_some_iff.mp hrooted
  rw [hrest, h, List.length_cons, List.length_singleton] at hlength
  have hempty : rest.length = 0 := by omega
  rw [hrest, List.eq_nil_of_length_eq_zero hempty]

/-- Tokens in sequence leave the document at the bottom of the trail. -/
theorem advance_rooted (tokens : List Token) (h : s.Rooted) :
    (advance env tokens intent create focus s).2.Rooted :=
  Discipline.rooted.advance_moves env tokens (fun _ => rooted_take_one) intent create focus s h

end Trail

/-! ### Resolutions inside one another -/

/-- **A resolution leaves the trail in order**, from whatever context and trail it starts, if the document
is at the bottom of that trail: whether it succeeds or fails, the document still is at the bottom, and the
trail is no longer than it was.  Without a root modifier it is the trail that it was. -/
theorem resolution_leaves_trail (env : Env) (tokens : List Token) (intent : Intent) (create : Bool)
    (focus : Focus) {s : State} (h : s.Rooted) :
    let t := (Walk.enclosed (advance env tokens intent create focus) s).2
    t.Rooted ∧ t.trail.length ≤ s.trail.length ∧
      (Token.anyRewinds tokens = false → t.trail = s.trail) := by
  intro t
  obtain ⟨hrooted, hlength⟩ := Discipline.rooted.moves_enclosed
    (Discipline.rooted.advance_moves env tokens (fun _ => rooted_take_one) intent create focus) s
  refine ⟨hrooted h, hlength, fun hsteady => ?_⟩
  exact Discipline.steady.moves_enclosed
    (Discipline.steady.advance_moves env tokens (fun hroot => nomatch hsteady.symm.trans hroot) intent
      create focus) s

/-- Two resolutions from the end of a trail: one that goes back to the document leaves contexts of its own
there, and one that fails on its way leaves none. -/
theorem resolution_leaves_trail_detour :
    let env : Env := ⟨[], fun _ _ _ => none, false⟩
    let document : Value := .object
      [("a", .object [("k", .null)]), ("p", .object [("q", .object [("n", .null)])])]
    let s : State := ⟨document, [.root, .place ["p"], .place ["p", "q"]]⟩
    let resolve (tokens : List Token) :=
      Walk.enclosed (advance env tokens .read false (.place ["p", "q"])) s
    let detour : List Token := [.word ⟨"a", { root := true }, none, false⟩, .plain "k"]
    let astray : List Token := [.plain "n", .plain "x"]
    s.Rooted ∧
      (resolve detour).2.trail = [.root, .place ["a"], .place ["a", "k"]] ∧
      (resolve astray).1 = .error (.notFound (.member "x")) ∧ Token.anyRewinds astray = false ∧
      (resolve astray).2.trail = s.trail := by
  intro env document s resolve detour astray
  have hrooted : s.Rooted := rfl
  have hsteady : Token.anyRewinds astray = false := rfl
  obtain ⟨-, -, htrail⟩ :=
    resolution_leaves_trail env astray .read false (.place ["p", "q"]) hrooted
  exact ⟨hrooted, rfl, rfl, hsteady, htrail hsteady⟩

end PathExpr.Resolve
