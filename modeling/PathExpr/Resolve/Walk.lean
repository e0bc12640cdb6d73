import PathExpr.Resolve.Focus

/-!
# Walking a document

A walk is a computation with two things at its side: the document, which assignments change, and the
*trail*, the contexts it has come through, with the document at its bottom and the current one on
top.  Modifiers look down the trail, and calls find on it what a function was taken from.

A walk that fails keeps what it has done so far, because a failed write may have changed part of the
document.  The trail on the other hand is put back: `Walk.enclosed` cuts it to the length it had
before, whether the walk inside succeeds or fails.  It is cut and never refilled, so a walk that went
back to the document leaves a shorter trail.
-/

namespace PathExpr.Resolve

/-- What a walk changes as it goes. -/
@[ext]
structure State where
  document : Value
  /-- The contexts from the document up to the current one. -/
  trail : List Focus

/-- The state in which every resolution begins. -/
def State.start (document : Value) : State := ⟨document, [.root]⟩

/-- A computation that may fail, and keeps its state in either case. -/
def Walk (α : Type) := State → Except PathError α × State

namespace Walk

variable {α β : Type}

instance : Monad Walk where
  pure a := fun s => (.ok a, s)
  bind walk next := fun s =>
    match walk s with
    | (.ok a, t) => next a t
    | (.error fault, t) => (.error fault, t)

theorem bind_apply (walk : Walk α) (next : α → Walk β) (s : State) :
    (walk >>= next) s =
      match walk s with
      | (.ok a, t) => next a t
      | (.error fault, t) => (.error fault, t) := rfl

/-- After a walk that finds something comes the next one. -/
theorem bind_of_ok {walk : Walk α} {next : α → Walk β} {a : α} {s t : State}
    (h : walk s = (.ok a, t)) : (walk >>= next) s = next a t := by
  rw [bind_apply, h]

/-- After a walk that fails comes nothing. -/
theorem bind_of_error {walk : Walk α} {next : α → Walk β} {fault : PathError} {s t : State}
    (h : walk s = (.error fault, t)) : (walk >>= next) s = (.error fault, t) := by
  rw [bind_apply, h]

/-- Walks in sequence find something only if each of them does. -/
theorem exists_of_bind_eq_ok {walk : Walk α} {next : α → Walk β} {b : β} {s u : State}
    (h : (walk >>= next) s = (.ok b, u)) : ∃ a t, walk s = (.ok a, t) ∧ next a t = (.ok b, u) := by
  rcases hwalk : walk s with ⟨fault | a, t⟩
  · rw [bind_of_error hwalk] at h
    cases h
  · rw [bind_of_ok hwalk] at h
    exact ⟨a, t, rfl, h⟩

/-- Walks in sequence fail if the first of them does, or the next one behind it. -/
theorem bind_eq_error_iff {walk : Walk α} {next : α → Walk β} {fault : PathError} {s : State} :
    ((walk >>= next) s).1 = .error fault ↔
      (walk s).1 = .error fault ∨ ∃ a t, walk s = (.ok a, t) ∧ (next a t).1 = .error fault := by
  constructor
  · intro h
    rcases hwalk : walk s with ⟨failed | a, t⟩
    · rw [bind_of_error hwalk] at h
      cases h
      exact .inl rfl
    · rw [bind_of_ok hwalk] at h
      exact .inr ⟨a, t, rfl, h⟩
  · rintro (hfault | ⟨a, t, hwalk, hnext⟩)
    · rw [bind_of_error (Prod.ext hfault rfl)]
    · rw [bind_of_ok hwalk]
      exact hnext

/-- A walk that hands on what it finds is that walk. -/
theorem id_map_walk (walk : Walk α) : id <$> walk = walk := by
  funext s
  show (match walk s with | (.ok a, t) => _ | (.error fault, t) => _) = walk s
  rcases walk s with ⟨_ | _, _⟩ <;> rfl

/-- Walks in sequence can be grouped either way. -/
theorem bind_assoc_walk {γ : Type} (walk : Walk α) (next : α → Walk β) (last : β → Walk γ) :
    walk >>= next >>= last = walk >>= fun a => next a >>= last := by
  funext s
  simp only [bind_apply]
  rcases walk s with ⟨_ | _, _⟩ <;> rfl

instance : LawfulMonad Walk := .mk' Walk id_map_walk (fun _ _ => rfl) bind_assoc_walk

/-- Fail. -/
def fail (fault : PathError) : Walk α := fun s => (.error fault, s)

/-- Take a result that does not depend on the state. -/
def ofExcept (result : Except PathError α) : Walk α := fun s => (result, s)

/-- Take a result that depends on the document. -/
def asking (question : Value → Except PathError α) : Walk α := fun s => (question s.document, s)

/-! ### The trail -/

/-- Make a focus the current context. -/
def push (focus : Focus) : Walk Unit := fun s => (.ok (), { s with trail := s.trail ++ [focus] })

/-- **Cut the trail back** to the length it has before a walk, when that walk is over. -/
def enclosed (walk : Walk α) : Walk α := fun s =>
  match walk s with
  | (result, t) => (result, { t with trail := t.trail.take s.trail.length })

theorem enclosed_apply (walk : Walk α) (s : State) :
    enclosed walk s =
      ((walk s).1, { (walk s).2 with trail := (walk s).2.trail.take s.trail.length }) := rfl

/-- The context a number of levels below the current one. -/
def ancestor (levels : Nat) : Walk Focus := fun s =>
  match if levels < s.trail.length then s.trail[s.trail.length - 1 - levels]? else none with
  | some focus => (.ok focus, s)
  | none => (.error (.notFound (.ancestor levels s.trail.length)), s)

/-- Drop every context but the document, and return to it. -/
def rewind : Walk Focus := fun s =>
  (.ok (s.trail.head?.getD .root), { s with trail := s.trail.take 1 })

/-- The context right below the current one, if there is one. -/
def below? : Walk (Option Focus) := fun s =>
  (.ok (if 2 ≤ s.trail.length then s.trail[s.trail.length - 2]? else none), s)

/-! ### The document -/

/-- The value of a focus. -/
def read (focus : Focus) : Walk Value := asking focus.value

/-- **Assign a member** of a focus. Only places can be assigned to. -/
def assign (focus : Focus) (key : String) (value : Value) : Walk Focus :=
  match focus with
  | .place path => fun s =>
      match s.document.setChildAt path key value with
      | .ok document => (.ok (.place (path ++ [key])), { s with document := document })
      | .error fault => (.error fault, s)
  | .detached target => fail (.assignment (.detached key target.kind))
  | .fan items => fail (.assignment (.results key items.length))

/-! ### Several walks -/

/-- **Walk one after the other** and gather what is found. After a failure the others are walked
only if `persist` is set; the first failure is reported in either case. -/
def gather (persist : Bool) : List (Walk (Option Focus)) → Walk (List Focus)
  | [] => pure []
  | walk :: rest => fun s =>
      match walk s with
      | (.ok found, t) =>
          match gather persist rest t with
          | (.ok others, u) => (.ok (found.toList ++ others), u)
          | (.error fault, u) => (.error fault, u)
      | (.error fault, t) => (.error fault, if persist then (gather persist rest t).2 else t)

theorem gather_cons_apply (persist : Bool) (walk : Walk (Option Focus))
    (rest : List (Walk (Option Focus))) (s : State) :
    gather persist (walk :: rest) s =
      match walk s with
      | (.ok found, t) =>
          match gather persist rest t with
          | (.ok others, u) => (.ok (found.toList ++ others), u)
          | (.error fault, u) => (.error fault, u)
      | (.error fault, t) =>
          (.error fault, if persist then (gather persist rest t).2 else t) := rfl

/-- After a walk that finds something come the others. -/
theorem gather_of_ok {persist : Bool} {walk : Walk (Option Focus)}
    {rest : List (Walk (Option Focus))} {found : Option Focus} {s t : State}
    (h : walk s = (.ok found, t)) :
    gather persist (walk :: rest) s =
      match gather persist rest t with
      | (.ok others, u) => (.ok (found.toList ++ others), u)
      | (.error fault, u) => (.error fault, u) := by
  rw [gather_cons_apply, h]

/-- After a walk that fails come the others only if failures do not stop them. -/
theorem gather_of_error {persist : Bool} {walk : Walk (Option Focus)}
    {rest : List (Walk (Option Focus))} {fault : PathError} {s t : State}
    (h : walk s = (.error fault, t)) :
    gather persist (walk :: rest) s =
      (.error fault, if persist then (gather persist rest t).2 else t) := by
  rw [gather_cons_apply, h]

/-- **Several walks find something** only if each of them does, one after the other. -/
theorem gather_cons_eq_ok_iff {persist : Bool} {walk : Walk (Option Focus)}
    {rest : List (Walk (Option Focus))} {all : List Focus} {s u : State} :
    gather persist (walk :: rest) s = (.ok all, u) ↔
      ∃ found others t, walk s = (.ok found, t) ∧ gather persist rest t = (.ok others, u) ∧
        found.toList ++ others = all := by
  constructor
  · intro h
    rcases hwalk : walk s with ⟨fault | found, t⟩
    · rw [gather_of_error hwalk] at h
      cases h
    · rw [gather_of_ok hwalk] at h
      rcases hrest : gather persist rest t with ⟨fault | others, v⟩
      · rw [hrest] at h
        cases h
      · rw [hrest] at h
        cases h
        exact ⟨found, others, t, rfl, hrest, rfl⟩
  · rintro ⟨found, others, t, hwalk, hrest, rfl⟩
    rw [gather_of_ok hwalk, hrest]

/-- **Several walks fail**, if the first failure is the last, where one of them does behind others that
find something. -/
theorem exists_of_gather_eq_error {walks : List (Walk (Option Focus))} {fault : PathError} {s : State}
    (h : (gather false walks s).1 = .error fault) :
    ∃ before walk after found t, walks = before ++ walk :: after ∧
      gather false before s = (.ok found, t) ∧ (walk t).1 = .error fault := by
  induction walks generalizing s with
  | nil => cases h
  | cons walk rest ih =>
      rcases hwalk : walk s with ⟨failed | found, t⟩
      · rw [gather_of_error hwalk] at h
        cases h
        exact ⟨[], walk, rest, [], s, rfl, rfl, congrArg Prod.fst hwalk⟩
      · have hrest : (gather false rest t).1 = .error fault := by
          rw [gather_of_ok hwalk] at h
          rcases hothers : gather false rest t with ⟨failed | others, u⟩ <;> rw [hothers] at h
          · exact h
          · cases h
        obtain ⟨before, failing, after, others, u, rfl, hbefore, hfault⟩ := ih hrest
        exact ⟨walk :: before, failing, after, found.toList ++ others, u, rfl,
          gather_cons_eq_ok_iff.mpr ⟨found, others, t, hwalk, hbefore, rfl⟩, hfault⟩

end Walk

end PathExpr.Resolve
