import Mathlib.Logic.Relation
import PathExpr.Proofs.Elementwise

/-!
# The course of a read

That no place dangles where a read begins and ends says nothing yet of what it comes through.  So the course
of a read is laid open: a *point* of it is something that is to be resolved, the context from which, and the
state it is resolved in (`Point`).  One point leads to another if to resolve the first is, at some stage, to
resolve the second (`Leads`): tokens in sequence lead to each of their tokens, a broadcast to its token on
each element, a collection to its items, a container to what it encloses, and a name with modifiers to the
name in the context that they say.  A point that comes after others is in the state that they have left.

One step of the course leads from a sound point to a sound one (`Point.Sound.of_leads`), so every point of a
read is sound (`Visits.sound`): it holds the document that the read began with, and whatever it holds has a
value, be it a context, on the trail, or a result (`Point.Sound.standing`), down to each place in it
(`Focus.Standing.lookup_eq_ok`).
-/

namespace PathExpr.Resolve

/-! ### Places in a focus -/

namespace Focus

mutual

/-- The places in a focus; those of a list of results are in its items, at any depth. -/
def places : Focus → List (List String)
  | .place path => [path]
  | .detached _ => []
  | .fan items => placesAmong items

/-- The places in several foci. -/
def placesAmong : List Focus → List (List String)
  | [] => []
  | focus :: rest => focus.places ++ placesAmong rest

end

/-- The places in several foci are those in each of them. -/
theorem mem_placesAmong {path : List String} {items : List Focus} :
    path ∈ placesAmong items ↔ ∃ item ∈ items, path ∈ item.places := by
  induction items with
  | nil => simp [placesAmong]
  | cons item rest ih => simp only [placesAmong, List.mem_append, ih, List.exists_mem_cons_iff]

/-- **Nothing dangles in a focus that has a value**: each place in it is found. -/
theorem Standing.lookup_eq_ok {document : Value} {focus : Focus} (h : focus.Standing document)
    {path : List String} (hpath : path ∈ focus.places) : ∃ value, lookup document path = .ok value := by
  match focus with
  | .place _ =>
      rw [List.mem_singleton.mp hpath]
      exact h
  | .detached _ => cases hpath
  | .fan items =>
      obtain ⟨item, hitem, hinside⟩ := mem_placesAmong.mp hpath
      exact (standing_fan_iff.mp h item hitem).lookup_eq_ok hinside

end Focus

/-! ### Points -/

/-- What is to be resolved. -/
inductive Task where
  /-- Tokens in sequence. -/
  | sequence (tokens : List Token)
  /-- One token. -/
  | token (token : Token)
  /-- A name, whatever modifiers have led to the context it is looked up in. -/
  | name (w : Word)

/-- **A point in the course of a read**: what is to be resolved, from which context, in which state. -/
structure Point where
  task : Task
  focus : Focus
  state : State

namespace Point

variable (env : Env)

/-- What the task of a point comes to. -/
def run (p : Point) : Except PathError Focus × State :=
  match p.task with
  | .sequence tokens => advance env tokens .read false p.focus p.state
  | .token token => step env token .read false p.focus p.state
  | .name w => named env w p.focus p.state

/-- **The foci at a point**: its context, those on the trail before and behind it, and what it finds. -/
inductive Holds (p : Point) : Focus → Prop where
  | context : Holds p p.focus
  | before {focus : Focus} (h : focus ∈ p.state.trail) : Holds p focus
  | behind {focus : Focus} (h : focus ∈ (p.run env).2.trail) : Holds p focus
  | result {focus : Focus} (h : (p.run env).1 = .ok focus) : Holds p focus

/-- The point at which a read begins. -/
def start (tokens : List Token) (document : Value) : Point :=
  ⟨.sequence tokens, .root, .start document⟩

end Point

/-- **One point leads to another**, which is to be resolved on its behalf. -/
inductive Leads (env : Env) : Point → Point → Prop where
  /-- The first of several tokens. -/
  | first (token : Token) (rest : List Token) (focus : Focus) (s : State) :
      Leads env ⟨.sequence (token :: rest), focus, s⟩ ⟨.token token, focus, s⟩
  /-- The other tokens, from what the first one finds. -/
  | rest {token : Token} (rest : List Token) {focus found : Focus} {s t : State}
      (h : step env token .read false focus s = (.ok found, t)) :
      Leads env ⟨.sequence (token :: rest), focus, s⟩
        ⟨.sequence rest, found, { t with trail := t.trail ++ [found] }⟩
  /-- A token on an element of the context, behind the elements before it. -/
  | element {token : Token} {focus element : Focus} {before after found : List Focus} {s t : State}
      (heach : token.each = true)
      (helements : focus.elements s.document = .ok (before ++ element :: after))
      (hbefore : Walk.gather false (before.map fun element =>
        some <$> onElement env token.single element) s = (.ok found, t)) :
      Leads env ⟨.token token, focus, s⟩
        ⟨.token token.single, element, { t with trail := t.trail ++ [element] }⟩
  /-- A name, in the context that its modifiers lead to. -/
  | name {w : Word} {focus found : Focus} {s t : State} (heach : w.each = false)
      (h : origin w.modifiers focus s = (.ok found, t)) :
      Leads env ⟨.token (.word w), focus, s⟩ ⟨.name w, found, t⟩
  /-- An item of a collection, behind the items before it. -/
  | item {item : Token} {before : List Token} (after : List Token) {focus : Focus} {found : List Focus}
      {s t : State} (h : Walk.gather false (members env before .read focus) s = (.ok found, t)) :
      Leads env ⟨.token (.collection (before ++ item :: after) false), focus, s⟩
        ⟨.token item, focus, t⟩
  /-- The tokens in a container that is no call. -/
  | inside {role : ContainerRole} (inner : TokenSet) (focus : Focus) (s : State) (hrole : role ≠ .call) :
      Leads env ⟨.token (.container role inner false), focus, s⟩ ⟨.sequence inner.tokens, focus, s⟩
  /-- The argument path of a call, when the function and its receiver are known. -/
  | arguments {name : String} {inner : TokenSet} {focus : Focus} {this : Value} {s : State}
      (hfunction : focus.value s.document = .ok (.function name)) (hthis : receiver s = (.ok this, s))
      (hne : inner.tokens ≠ []) :
      Leads env ⟨.token (.container .call inner false), focus, s⟩ ⟨.sequence inner.tokens, focus, s⟩

/-- **A read comes to a point** in its course. -/
def Visits (env : Env) (tokens : List Token) (document : Value) (p : Point) : Prop :=
  Relation.ReflTransGen (Leads env) (.start tokens document) p

/-! ### Sound points -/

/-- **A sound point**: the document is the one that the read began with, and nothing at the point
dangles. -/
structure Point.Sound (document : Value) (p : Point) : Prop where
  state : p.state.Sound document
  focus : p.focus.Standing document

section Sound

variable {env : Env} {document : Value} {p q : Point}

/-- What a sound point comes to is sound. -/
theorem Point.Sound.run (h : p.Sound document) :
    (p.run env).2.Sound document ∧ ∀ found, (p.run env).1 = .ok found → found.Standing document := by
  obtain ⟨task, focus, s⟩ := p
  cases task with
  | sequence tokens => exact advance_reads env tokens h.focus s h.state
  | token token => exact step_reads env token h.focus s h.state
  | name w => exact named_reads env w h.focus s h.state

/-- What a broadcast does with a standing element keeps the state sound. -/
theorem onElement_reads (token : Token) {element : Focus} (h : element.Standing document) :
    (onElement env token element).Reads document (Focus.Standing document) :=
  ((Walk.reads_push h).bind fun _ _ => step_reads env token h).enclosed

/-- The items of a collection are read as walks of the same form. -/
theorem members_read_eq_map (items : List Token) (focus : Focus) :
    members env items .read focus = items.map fun item => some <$> step env item .read false focus := by
  induction items with
  | nil => rfl
  | cons item rest ih =>
      rw [members_cons, ih]
      rfl

/-- **A sound point leads to sound points only.** -/
theorem Point.Sound.of_leads (h : p.Sound document) (hleads : Leads env p q) : q.Sound document := by
  cases hleads with
  | first token rest focus s => exact ⟨h.state, h.focus⟩
  | @rest token rest focus found s t hstep =>
      have hreads := step_reads env token h.focus s h.state
      rw [hstep] at hreads
      obtain ⟨hstate, hfound⟩ := hreads
      have hstanding := hfound found rfl
      exact ⟨(Walk.reads_push hstanding t hstate).1, hstanding⟩
  | @element token focus element before after found s t heach helements hbefore =>
      rw [h.state.document_eq] at helements
      have hstanding := Focus.standing_elements h.focus helements
      have helement := hstanding element (List.mem_append_right before List.mem_cons_self)
      have hreads := Walk.reads_gather_map before (onElement env token.single) (fun other hother =>
        onElement_reads token.single (hstanding other (List.mem_append_left _ hother))) s h.state
      rw [hbefore] at hreads
      exact ⟨(Walk.reads_push helement t hreads.1).1, helement⟩
  | @name w focus found s t heach horigin =>
      have hreads := origin_reads h.focus w.modifiers s h.state
      rw [horigin] at hreads
      exact ⟨hreads.1, hreads.2 found rfl⟩
  | @item item before after focus found s t hbefore =>
      rw [members_read_eq_map] at hbefore
      have hreads := Walk.reads_gather_map before (fun other => step env other .read false focus)
        (fun other _ => step_reads env other h.focus) s h.state
      rw [hbefore] at hreads
      exact ⟨hreads.1, h.focus⟩
  | inside inner focus s hrole => exact ⟨h.state, h.focus⟩
  | arguments hfunction hthis hne => exact ⟨h.state, h.focus⟩

/-- Wherever a sound point leads to, by however many steps, is sound. -/
theorem Point.Sound.of_reflTransGen (h : p.Sound document)
    (hleads : Relation.ReflTransGen (Leads env) p q) : q.Sound document := by
  induction hleads with
  | refl => exact h
  | tail _ hlast ih => exact ih.of_leads hlast

/-- **Every point of a read is sound.** -/
theorem Visits.sound {tokens : List Token} (h : Visits env tokens document p) : p.Sound document :=
  Point.Sound.of_reflTransGen ⟨State.sound_start document, Focus.standing_root document⟩ h

/-- **Whatever a sound point holds has a value.** -/
theorem Point.Sound.standing (h : p.Sound document) {focus : Focus} (hfocus : p.Holds env focus) :
    focus.Standing document := by
  cases hfocus with
  | context => exact h.focus
  | before hmem => exact h.state.standing focus hmem
  | behind hmem => exact h.run.1.standing focus hmem
  | result hfound => exact h.run.2 focus hfound

end Sound

end PathExpr.Resolve
