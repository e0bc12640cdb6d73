import PathExpr.Proofs.Likeness
import PathExpr.Proofs.Pointwise

/-!
# A broadcast is a map

A token with a broadcast is applied to every element of its context, and reads the list of what it reads
without the broadcast on each of them (`read_each_elementwise`).  The element is on top of the trail
meanwhile and what it is an element of is below it, as if an index had been looked up there.  So the token
may look down the trail as it likes: what it sees from an element is what it sees behind the index.

That every element finds the trail as the first one did is due to two cuts.  Without a root modifier a
token leaves the trail below what it adds (`step_trail`), and a broadcast takes the element off again, so
that the state is the same before each element (`onElement_snd`).  Walks that leave a state as it is read
in it one by one (`Walk.gather_of_still`).
-/

namespace PathExpr.Resolve

/-! ### Walks that leave the state as it is -/

/-- **Walks that leave a state as it is** find, one after the other, what each of them finds in it. -/
theorem Walk.gather_of_still {α : Type} {items : List α} {walk : α → Walk Focus} {s : State}
    (hstill : ∀ item ∈ items, (walk item s).2 = s) :
    Walk.gather false (items.map fun item => some <$> walk item) s =
      (items.mapM fun item => (walk item s).1, s) := by
  induction items with
  | nil => rfl
  | cons item rest ih =>
      obtain ⟨hsame, hothers⟩ := List.forall_mem_cons.mp hstill
      rw [List.map_cons, List.mapM_cons]
      rcases hwalk : walk item s with ⟨fault | found, t⟩ <;> rw [hwalk] at hsame <;> subst hsame
      · exact Walk.gather_of_error (Walk.bind_of_error hwalk)
      · have hfinds : (some <$> walk item) t = (.ok (some found), t) := Walk.bind_of_ok hwalk
        rw [Walk.gather_of_ok hfinds, ih hothers]
        cases rest.mapM fun item => (walk item t).1 <;> rfl

/-- The values of foci that are found one by one, if none of them dangles. -/
theorem mapM_bind_values {α : Type} {document : Value} {items : List α}
    {find : α → Except PathError Focus}
    (hstanding : ∀ item ∈ items, ∀ found, find item = .ok found → found.Standing document) :
    (items.mapM find).bind (Focus.values document) =
      items.mapM fun item => (find item).bind fun found => found.value document := by
  induction items with
  | nil => rfl
  | cons item rest ih =>
      obtain ⟨hfirst, hothers⟩ := List.forall_mem_cons.mp hstanding
      rw [List.mapM_cons, List.mapM_cons, ← ih hothers]
      cases hitem : find item with
      | error fault => rfl
      | ok found =>
          -- No failure of a later item comes before one of this value.
          obtain ⟨value, hvalue⟩ := hfirst found hitem
          have hbind : (Except.ok found).bind (fun found : Focus => found.value document) = .ok value :=
            hvalue
          rw [hbind]
          cases rest.mapM find with
          | error fault => rfl
          | ok others =>
              show Focus.values document (found :: others) =
                (Focus.values document others).bind fun values => .ok (value :: values)
              rw [Focus.values_cons_of_ok hvalue]
              cases Focus.values document others <;> rfl

/-! ### One element -/

section Element

variable (env : Env) {document : Value} {focus element : Focus} {s : State} {token : Token}

/-- What a broadcast does with one element: the token is applied with the element on top of the trail. -/
def onElement (token : Token) (element : Focus) : Walk Focus :=
  Walk.enclosed (do
    Walk.push element
    step env token .read false element)

/-- A focus that stands may be put on the trail of a read. -/
theorem State.Reading.push (h : s.Reading document) (helement : element.Standing document) :
    State.Reading document { s with trail := s.trail ++ [element] } :=
  ⟨(Walk.reads_push helement s h.sound).1, Discipline.rooted.push s.trail element h.rooted⟩

/-- The token finds what it finds from the element on top of the trail. -/
theorem onElement_fst :
    (onElement env token element s).1 =
      (step env token .read false element { s with trail := s.trail ++ [element] }).1 := rfl

/-- **The state is the same before and behind an element**: without a root modifier the token leaves the
element on top of what was there. -/
theorem onElement_snd (hroot : token.rewinds = false) (hs : s.Reading document)
    (helement : element.Standing document) : (onElement env token element s).2 = s := by
  have hpushed := hs.push helement
  have htrail := step_trail env .read false element { s with trail := s.trail ++ [element] } hroot
  have hdocument := (step_reading env hpushed token helement).document_eq hs
  refine State.ext hdocument ?_
  show (step env token .read false element { s with trail := s.trail ++ [element] }).2.trail.take
    s.trail.length = s.trail
  rw [htrail, List.take_left]

/-- **Behind the index of an element** the token reads what it finds from the element. -/
theorem readFrom_index_eq (hs : s.Reading document) (helement : element.Standing document)
    {name : String} (hname : focus.child? document name = some element) :
    (readFrom env [.plain name, token] focus s).1 =
      (onElement env token element s).1.bind fun found => found.value document := by
  rw [← hs.sound.document_eq] at hname
  have haccess : step env (.plain name) .read false focus s = (.ok element, s) :=
    access_read_of_some hname
  rw [readFrom_cons, Walk.bind_of_ok haccess, onElement_fst]
  exact readFrom_singleton_of_reading env (hs.push helement) helement token

end Element

/-! ### All elements -/

section Elements

variable (env : Env) {document : Value} {focus : Focus} {elements : List Focus} {s : State}
  {token : Token}

/-- A broadcast finds the list of what its token finds from each element. -/
theorem step_each_apply (heach : token.each = true)
    (helements : focus.elements s.document = .ok elements) :
    step env token .read false focus s =
      (Walk.gather false (elements.map fun element =>
        some <$> onElement env token.single element) >>= fun found => pure (.fan found)) s := by
  have hasking : Walk.asking focus.elements s = (.ok elements, s) := by
    rw [Walk.asking, helements]
  rw [step_eq_spread, heach]
  exact Walk.bind_of_ok hasking

/-- **A broadcast reads the list of what its token reads from each element**, all of them from the same
state. -/
theorem step_each_value (heach : token.each = true) (hroot : token.rewinds = false)
    (hs : s.Reading document) (hfocus : focus.Standing document)
    (helements : focus.elements document = .ok elements) :
    ((step env token .read false focus s).1.bind fun found => found.value document) =
      (elements.mapM fun element => (onElement env token.single element s).1.bind fun found =>
        found.value document).map .array := by
  have hstanding := Focus.standing_elements hfocus helements
  have hsingle : token.single.rewinds = false := (Token.rewinds_single token).trans hroot
  have hstill : ∀ element ∈ elements, (onElement env token.single element s).2 = s :=
    fun element helement => onElement_snd env hsingle hs (hstanding element helement)
  have hfound : ∀ element ∈ elements, ∀ found,
      (onElement env token.single element s).1 = .ok found → found.Standing document :=
    fun element helement =>
      have hpushed := hs.push (hstanding element helement)
      (step_reads env token.single (hstanding element helement) _ hpushed.sound).2
  rw [← hs.sound.document_eq] at helements
  rw [step_each_apply env heach helements, Walk.bind_apply, Walk.gather_of_still hstill,
    ← mapM_bind_values hfound]
  cases elements.mapM fun element => (onElement env token.single element s).1 with
  | error fault => rfl
  | ok found => exact Focus.value_fan document found

end Elements

/-- **A broadcast is a map.**  Where tokens read an array, a token with a broadcast behind them reads the
list of what it reads, without the broadcast, behind each index of that array, up to the first index behind
which it fails; whatever the token is, and however far it looks down the trail, as long as it does not go
back to the document. -/
theorem read_each_elementwise (env : Env) (first : List Token) {token : Token}
    (heach : token.each = true) (hroot : token.rewinds = false) {document : Value}
    {items : List Value} (hread : read env first document = .ok (.array items)) :
    read env (first ++ [token]) document =
      ((indexNames items.length).mapM fun index =>
        read env (first ++ [.plain index, token.single]) document).map .array := by
  obtain ⟨focus, s, hs, hvalue, hfrom⟩ := exists_focus_of_read env hread
  have harray : focus.StandsFor document (.array items) := hvalue
  have hfocus : focus.Standing document := ⟨_, hvalue⟩
  obtain ⟨elements, helements, hnames⟩ := harray.forall₂_child?_elements
  have hindices : List.Forall₂
      (fun index element => read env (first ++ [.plain index, token.single]) document =
        (onElement env token.single element s).1.bind fun found => found.value document)
      (indexNames items.length) elements := by
    refine hnames.imp fun index element hindex => ?_
    rw [hfrom]
    exact readFrom_index_eq env hs (Focus.standing_child? hfocus hindex) hindex
  rw [mapM_eq_of_forall₂ hindices, hfrom, readFrom_singleton_of_reading env hs hfocus]
  exact step_each_value env heach hroot hs hfocus helements

/-- A collection on every one of two results, with an item of the result and the first result of all. -/
theorem read_each_elementwise_beside :
    let first : List Token := [.plain "rows", .word ⟨"n", .none, none, true⟩]
    let items (each : Bool) : Token :=
      .collection [.plain "0", .word ⟨"0", { parent := 1 }, none, false⟩] each
    let document : Value := .object [("rows", .array
      [.object [("n", .array [.integer 1])], .object [("n", .array [.integer 2])]])]
    let results : List Value := [.array [.integer 1], .array [.integer 2]]
    (items true).each = true ∧ (items true).rewinds = false ∧
      read .bare first document = .ok (.array results) ∧
      read .bare (first ++ [items true]) document =
        ((indexNames results.length).mapM fun index =>
          read .bare (first ++ [.plain index, items false]) document).map .array ∧
      read .bare (first ++ [items true]) document =
        .ok (.array [.array [.integer 1, .array [.integer 1]],
          .array [.integer 2, .array [.integer 1]]]) := by
  intro first items document results
  have heach : (items true).each = true := rfl
  have hread : read .bare first document = .ok (.array results) := rfl
  have hmap := read_each_elementwise .bare first heach rfl hread
  refine ⟨heach, rfl, hread, hmap, ?_⟩
  rfl

end PathExpr.Resolve
