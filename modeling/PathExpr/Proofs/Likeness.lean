import PathExpr.Proofs.Standing

/-!
# Foci that stand for the same value

A place in a document, a value without a place and a list of results are three ways to point at a value.
A token asks three things of its context: what a name reaches, which elements there are, and which
names.  What it is told of a focus that stands for a value is what there is to say of the value
(`Focus.StandsFor.child?`, `Focus.StandsFor.elements`, `Focus.StandsFor.memberNames`).  So two foci that
stand for the same value answer alike, each in a document of its own: with the same failure, or with
foci that stand for the same values again (`Focus.Alike`).
-/

namespace PathExpr.Resolve

/-! ### Related item by item -/

section Related

variable {α β γ : Type} {related : α → γ → Prop} {reflected : β → γ → Prop}

/-- Lists that are related item by item are so at every index. -/
theorem forall₂_getElem? {left : List α} {right : List γ} (h : List.Forall₂ related left right)
    (index : Nat) : Option.Rel related left[index]? right[index]? := by
  induction h generalizing index with
  | nil => exact .none
  | cons hfirst _ ih =>
      cases index with
      | zero => exact .some hfirst
      | succ index => exact ih index

/-- What is related to the same option is related by it. -/
theorem optionRel_exists {left : Option α} {right : Option β} {middle : Option γ}
    (hleft : Option.Rel related left middle) (hright : Option.Rel reflected right middle) :
    Option.Rel (fun a b => ∃ c, related a c ∧ reflected b c) left right := by
  cases hleft with
  | none =>
      cases hright
      exact .none
  | some ha =>
      cases hright with
      | some hb => exact .some ⟨_, ha, hb⟩

/-- **Lists are related by the items of a third one** if both are related to it. -/
theorem forall₂_exists_iff {left : List α} {right : List β} :
    List.Forall₂ (fun a b => ∃ c, related a c ∧ reflected b c) left right ↔
      ∃ middle, List.Forall₂ related left middle ∧ List.Forall₂ reflected right middle := by
  constructor
  · intro h
    induction h with
    | nil => exact ⟨[], .nil, .nil⟩
    | cons hfirst _ ih =>
        obtain ⟨c, ha, hb⟩ := hfirst
        obtain ⟨middle, hleft, hright⟩ := ih
        exact ⟨c :: middle, .cons ha hleft, .cons hb hright⟩
  · rintro ⟨middle, hleft, hright⟩
    induction hleft generalizing right with
    | nil =>
        cases hright
        exact .nil
    | cons ha _ ih =>
        cases hright with
        | cons hb hrest => exact .cons ⟨_, ha, hb⟩ (ih hrest)

/-- What is done to lists item by item is the same if it is to each item. -/
theorem mapM_eq_of_forall₂ {left : List α} {right : List γ} {f : α → Except PathError β}
    {g : γ → Except PathError β} (h : List.Forall₂ (fun a c => f a = g c) left right) :
    left.mapM f = right.mapM g := by
  induction h with
  | nil => rfl
  | cons hfirst _ ih => rw [List.mapM_cons, List.mapM_cons, hfirst, ih]

end Related

/-- **The same outcome**: the same failure, or results that are related. -/
inductive SameOutcome {α β : Type} (related : α → β → Prop) :
    Except PathError α → Except PathError β → Prop where
  | error (fault : PathError) : SameOutcome related (.error fault) (.error fault)
  | ok {a : α} {b : β} (h : related a b) : SameOutcome related (.ok a) (.ok b)

/-- The same outcome up to equality is the same outcome. -/
theorem SameOutcome.eq {α : Type} {left right : Except PathError α}
    (h : SameOutcome Eq left right) : left = right := by
  cases h with
  | error fault => rfl
  | ok hrelated => rw [hrelated]

namespace Focus

/-! ### A focus and its value -/

/-- The focus stands for a value. -/
def StandsFor (document : Value) (focus : Focus) (value : Value) : Prop :=
  focus.value document = .ok value

section Value

variable {document value : Value} {focus : Focus}

/-- Several foci have values if each stands for its own. -/
theorem values_eq_ok_iff {items : List Focus} {found : List Value} :
    values document items = .ok found ↔ List.Forall₂ (StandsFor document) items found := by
  induction items generalizing found with
  | nil =>
      rw [values, List.forall₂_nil_left_iff, Except.ok.injEq]
      exact eq_comm
  | cons item rest ih =>
      rw [values, List.forall₂_cons_left_iff]
      constructor
      · intro h
        cases hitem : item.value document with
        | error fault =>
            rw [hitem] at h
            cases h
        | ok first =>
            rw [hitem] at h
            cases hrest : values document rest with
            | error fault =>
                rw [hrest] at h
                cases h
            | ok others =>
                rw [hrest] at h
                cases h
                exact ⟨first, others, hitem, ih.mp hrest, rfl⟩
      · rintro ⟨first, others, hitem, hrest, rfl⟩
        have hfirst : item.value document = .ok first := hitem
        rw [hfirst, ih.mpr hrest]

/-- A list of results stands for an array if each of them stands for its element. -/
theorem standsFor_fan_iff {items : List Focus} :
    (fan items).StandsFor document value ↔
      ∃ found, value = .array found ∧ List.Forall₂ (StandsFor document) items found := by
  rw [StandsFor, value_fan]
  cases hfound : values document items with
  | error fault =>
      refine iff_of_false (fun h => nomatch h) ?_
      rintro ⟨found, -, hitems⟩
      rw [values_eq_ok_iff.mpr hitems] at hfound
      cases hfound
  | ok found =>
      constructor
      · intro h
        cases h
        exact ⟨found, rfl, values_eq_ok_iff.mp hfound⟩
      · rintro ⟨expected, rfl, hitems⟩
        rw [values_eq_ok_iff.mpr hitems] at hfound
        cases hfound
        rfl

/-- A place stands for what is there. -/
theorem standsFor_place_iff {path : List String} :
    (place path).StandsFor document value ↔ document.at? path = some value := by
  rw [StandsFor, Focus.value, lookup]
  cases document.at? path <;> simp

namespace StandsFor

/-- **What a name reaches** from a focus stands for what it reaches from the value. -/
theorem child? (h : focus.StandsFor document value) (key : String) :
    Option.Rel (StandsFor document) (focus.child? document key) (value.child? key) := by
  cases focus with
  | place path =>
      have hplace := standsFor_place_iff.mp h
      rw [Focus.child?, hplace, Option.bind_some]
      cases hchild : value.child? key with
      | none => exact .none
      | some child => exact .some (standsFor_place_iff.mpr ((Value.at?_concat hplace key).trans hchild))
  | detached found =>
      cases h
      rw [Focus.child?]
      cases value.child? key with
      | none => exact .none
      | some child => exact .some rfl
  | fan items =>
      obtain ⟨found, rfl, hitems⟩ := standsFor_fan_iff.mp h
      rw [Focus.child?, Value.child?]
      cases arrayIndex? key with
      | none => exact .none
      | some index =>
          rw [Option.bind_some, Option.bind_some]
          exact forall₂_getElem? hitems index

/-- **The elements** of a focus that stands for an array are what the names of elements reach, in
order. -/
theorem forall₂_child?_elements {members : List Value}
    (h : focus.StandsFor document (.array members)) :
    ∃ elements, focus.elements document = .ok elements ∧
      List.Forall₂ (fun name element => focus.child? document name = some element)
        (indexNames members.length) elements := by
  cases focus with
  | place path =>
      have hplace := standsFor_place_iff.mp h
      refine ⟨(indexNames members.length).map fun name => place (path ++ [name]), ?_, ?_⟩
      · rw [Focus.elements, lookup, hplace]
      · rw [List.forall₂_map_right_iff]
        refine List.forall₂_same.mpr fun name hname => ?_
        obtain ⟨item, -, hitem⟩ := Value.exists_child?_of_mem_indexNames hname
        rw [Focus.child?, hplace, Option.bind_some, hitem]
        rfl
  | detached found =>
      cases h
      refine ⟨_, rfl, List.forall₂_map_right_iff.mpr ?_⟩
      refine (Value.forall₂_child?_indexNames members).imp fun name item hname => ?_
      rw [Focus.child?, hname]
      rfl
  | fan items =>
      obtain ⟨found, hfound, hitems⟩ := standsFor_fan_iff.mp h
      cases hfound
      refine ⟨_, rfl, ?_⟩
      rw [← hitems.length_eq]
      exact forall₂_indexNames items

/-- **The elements** of a focus that stands for an array stand for its elements. -/
theorem elements {members : List Value} (h : focus.StandsFor document (.array members)) :
    ∃ elements, focus.elements document = .ok elements ∧
      List.Forall₂ (StandsFor document) elements (members.take indexBound) := by
  obtain ⟨elements, helements, hnames⟩ := h.forall₂_child?_elements
  -- Both are what the same names reach, one from the focus and one from the value.
  have hsame := forall₂_exists_iff.mpr
    ⟨_, hnames.flip, (Value.forall₂_child?_indexNames members).flip⟩
  refine ⟨elements, helements, hsame.imp fun element item hreached => ?_⟩
  obtain ⟨name, helement, hitem⟩ := hreached
  have hchild := h.child? name
  rw [helement, hitem] at hchild
  cases hchild with
  | some hstands => exact hstands

/-- A focus that stands for anything but an array has no elements. -/
theorem elements_eq_error (h : focus.StandsFor document value)
    (hvalue : ∀ members, value ≠ .array members) :
    focus.elements document = .error (.mismatch (.each value.kind)) := by
  cases focus with
  | place path =>
      rw [Focus.elements, lookup, standsFor_place_iff.mp h]
      cases value with
      | array members => exact absurd rfl (hvalue members)
      | _ => rfl
  | detached found =>
      cases h
      cases value with
      | array members => exact absurd rfl (hvalue members)
      | _ => rfl
  | fan items =>
      obtain ⟨found, rfl, -⟩ := standsFor_fan_iff.mp h
      exact absurd rfl (hvalue found)

/-- **The names** that reach something from a focus are those that do from the value. -/
theorem memberNames (h : focus.StandsFor document value) :
    focus.memberNames document = valueNames value := by
  cases focus with
  | place path =>
      rw [Focus.memberNames, lookup, standsFor_place_iff.mp h]
      rfl
  | detached found =>
      cases h
      rfl
  | fan items =>
      obtain ⟨found, rfl, hitems⟩ := standsFor_fan_iff.mp h
      rw [Focus.memberNames, hitems.length_eq]
      rfl

end StandsFor

end Value

/-! ### Two foci of the same value -/

/-- **Two foci are alike**, each in a document of its own: they stand for the same value. -/
def Alike (document other : Value) (focus mirror : Focus) : Prop :=
  ∃ value, focus.StandsFor document value ∧ mirror.StandsFor other value

section Alike

variable {document other : Value} {focus mirror : Focus}

/-- A value without a place stands for itself in any document. -/
theorem alike_detached (value : Value) : Alike document other (.detached value) (.detached value) :=
  ⟨value, rfl, rfl⟩

/-- Lists of results are alike if their results are. -/
theorem alike_fan {items mirrors : List Focus}
    (h : List.Forall₂ (Alike document other) items mirrors) :
    Alike document other (.fan items) (.fan mirrors) := by
  obtain ⟨found, hleft, hright⟩ := forall₂_exists_iff.mp h
  exact ⟨.array found, standsFor_fan_iff.mpr ⟨found, rfl, hleft⟩,
    standsFor_fan_iff.mpr ⟨found, rfl, hright⟩⟩

namespace Alike

/-- **What a name reaches** from foci that are alike is alike. -/
theorem child? (h : Alike document other focus mirror) (key : String) :
    Option.Rel (Alike document other) (focus.child? document key) (mirror.child? other key) := by
  obtain ⟨value, hfocus, hmirror⟩ := h
  exact optionRel_exists (hfocus.child? key) (hmirror.child? key)

/-- **The elements** of foci that are alike are alike, or neither has any. -/
theorem elements (h : Alike document other focus mirror) :
    SameOutcome (List.Forall₂ (Alike document other)) (focus.elements document)
      (mirror.elements other) := by
  obtain ⟨value, hfocus, hmirror⟩ := h
  by_cases harray : ∃ members, value = .array members
  · obtain ⟨members, rfl⟩ := harray
    obtain ⟨elements, helements, hleft⟩ := hfocus.elements
    obtain ⟨reflected, hreflected, hright⟩ := hmirror.elements
    rw [helements, hreflected]
    exact .ok (forall₂_exists_iff.mpr ⟨_, hleft, hright⟩)
  · have hvalue : ∀ members, value ≠ .array members := fun members heq => harray ⟨members, heq⟩
    rw [hfocus.elements_eq_error hvalue, hmirror.elements_eq_error hvalue]
    exact .error _

/-- The names that reach something are the same from foci that are alike. -/
theorem memberNames (h : Alike document other focus mirror) :
    focus.memberNames document = mirror.memberNames other := by
  obtain ⟨value, hfocus, hmirror⟩ := h
  rw [hfocus.memberNames, hmirror.memberNames]

end Alike

end Alike

end Focus

end PathExpr.Resolve
