import PathExpr.Proofs.Indices

/-!
# What a replacement at a place leaves

A write that goes down a document one name at a time puts the new inner value back under each name on
its way up; a write that holds an address replaces at the whole place at once.  The laws here say that
these are the same, and that the value put last at a place is the one that counts.  All of them need
the place to exist: `Value.replaceAt` at any other place changes nothing.

* `Value.setChild_of_setChild`, `Value.child?_setChild_of_ne` — one level: what is set under a name is a
  replacement of whatever is set there, and no other name sees it.
* `Value.at?_replaceAt`, `Value.replaceAt_replaceAt` — read after write, and write after write.
* `Value.replaceAt_append` — a place below a place is replaced in two steps.
-/

namespace PathExpr

/-- The value put last under a name is the one that counts. -/
theorem Members.put_put {α : Type} (key : String) (first second : α) (members : Members α) :
    (members.put key first).put key second = members.put key second := by
  induction members with
  | nil => rw [put_nil, put_nil, put_cons, if_pos rfl]
  | cons entry rest ih =>
      obtain ⟨name, old⟩ := entry
      rw [put_cons, put_cons]
      by_cases h : name = key
      · rw [if_pos h, if_pos h, put_cons, if_pos h]
      · rw [if_neg h, if_neg h, put_cons, if_neg h, ih]

namespace Value

/-! ### One level -/

/-- What is put under a name that reaches something is found under it. -/
theorem child?_replaceChild {parent old : Value} {key : String} (h : parent.child? key = some old)
    (value : Value) : (parent.replaceChild key value).child? key = some value := by
  cases parent with
  | object members => exact Members.lookup_put_self key value members
  | array items =>
      simp only [child?] at h
      obtain ⟨index, hindex, hget⟩ := Option.bind_eq_some_iff.mp h
      have hlt : index < items.length := (List.getElem?_eq_some_iff.mp hget).1
      simp [replaceChild, child?, hindex, hlt]
  | _ => cases h

/-- The value put last under a name is the one that counts. -/
theorem replaceChild_replaceChild (parent : Value) (key : String) (first second : Value) :
    (parent.replaceChild key first).replaceChild key second = parent.replaceChild key second := by
  cases parent with
  | object members => exact congrArg Value.object (Members.put_put key first second members)
  | array items =>
      cases hindex : arrayIndex? key with
      | none => simp [replaceChild, hindex]
      | some index => simp [replaceChild, hindex]
  | _ => rfl

/-- To set what is under a name that reaches something is to replace it. -/
theorem setChild_of_child? {parent child : Value} {key : String} (h : parent.child? key = some child)
    (value : Value) : parent.setChild key value = .ok (parent.replaceChild key value) := by
  cases parent with
  | object members => rfl
  | array items =>
      obtain ⟨index, hindex, hget⟩ := Option.bind_eq_some_iff.mp h
      have hlt : index < items.length := (List.getElem?_eq_some_iff.mp hget).1
      simp [setChild, replaceChild, hindex, hlt]
  | _ => cases h

/-- **Whether a value can be set does not depend on the value**, and what one value leaves differs from
what another one leaves only under the name. -/
theorem setChild_of_setChild {parent changed first : Value} {key : String}
    (h : parent.setChild key first = .ok changed) (second : Value) :
    parent.setChild key second = .ok (changed.replaceChild key second) := by
  cases parent with
  | object members =>
      cases h
      simp only [setChild, replaceChild, Members.put_put]
  | array items =>
      obtain ⟨index, hindex, ⟨hlt, rfl⟩ | ⟨rfl, rfl⟩⟩ := setChild_array_eq_ok_iff.mp h
      · simp [setChild, replaceChild, hindex, hlt]
      · simp [setChild, replaceChild, hindex]
  | _ => cases h

/-- **What is set under a name is not seen under another.**  In an array that is because different texts
are never the same index. -/
theorem child?_setChild_of_ne {parent changed value : Value} {key other : String} (hne : other ≠ key)
    (h : parent.setChild key value = .ok changed) : changed.child? other = parent.child? other := by
  cases parent with
  | object members =>
      cases h
      exact Members.lookup_put_of_ne hne value members
  | array items =>
      obtain ⟨index, hindex, hchanged⟩ := setChild_array_eq_ok_iff.mp h
      cases hother : arrayIndex? other with
      | none => rcases hchanged with ⟨-, rfl⟩ | ⟨-, rfl⟩ <;> simp [child?, hother]
      | some place =>
          have hplace : place ≠ index := by
            rintro rfl
            exact hne (arrayIndex?_inj hother hindex)
          rcases hchanged with ⟨-, rfl⟩ | ⟨rfl, rfl⟩
          · simp [child?, hother, List.getElem?_set_ne hplace.symm]
          · simp only [child?, hother, Option.bind_some]
            rcases Nat.lt_or_gt_of_ne hplace with hbefore | hbehind
            · rw [List.getElem?_append_left hbefore]
            · rw [List.getElem?_eq_none (by simp; omega), List.getElem?_eq_none (by omega)]
  | _ => cases h

/-! ### All levels of a place -/

/-- **Is there anything at a place?** -/
def HasPlace (document : Value) (path : List String) : Prop := ∃ found, document.at? path = some found

theorem hasPlace_nil (document : Value) : document.HasPlace [] := ⟨document, rfl⟩

/-- What a place is below is there, too. -/
theorem HasPlace.of_append {document : Value} {first second : List String}
    (h : document.HasPlace (first ++ second)) : document.HasPlace first := by
  obtain ⟨found, hfound⟩ := h
  rw [at?_append] at hfound
  obtain ⟨inner, hinner, -⟩ := Option.bind_eq_some_iff.mp hfound
  exact ⟨inner, hinner⟩

theorem HasPlace.take {document : Value} {path : List String} (h : document.HasPlace path)
    (count : Nat) : document.HasPlace (path.take count) := by
  rw [← List.take_append_drop count path] at h
  exact h.of_append

/-- At a place whose first name reaches something, the replacement is made below it. -/
theorem replaceAt_cons_of_child? {parent child : Value} {key : String}
    (h : parent.child? key = some child) (rest : List String) (value : Value) :
    parent.replaceAt (key :: rest) value = parent.replaceChild key (child.replaceAt rest value) := by
  rw [replaceAt_cons, h]

/-- What is put at a place is found there. -/
theorem at?_replaceAt {document old : Value} {path : List String} (h : document.at? path = some old)
    (value : Value) : (document.replaceAt path value).at? path = some value := by
  induction path generalizing document with
  | nil => rfl
  | cons key rest ih =>
      rw [at?_cons] at h
      obtain ⟨child, hchild, hrest⟩ := Option.bind_eq_some_iff.mp h
      rw [replaceAt_cons_of_child? hchild, at?_cons, child?_replaceChild hchild, Option.bind_some]
      exact ih hrest

/-- The value put last at a place is the one that counts. -/
theorem replaceAt_replaceAt {document old : Value} {path : List String}
    (h : document.at? path = some old) (first second : Value) :
    (document.replaceAt path first).replaceAt path second = document.replaceAt path second := by
  induction path generalizing document with
  | nil => rfl
  | cons key rest ih =>
      rw [at?_cons] at h
      obtain ⟨child, hchild, hrest⟩ := Option.bind_eq_some_iff.mp h
      rw [replaceAt_cons_of_child? hchild, replaceAt_cons_of_child? hchild,
        replaceAt_cons_of_child? (child?_replaceChild hchild _), replaceChild_replaceChild,
        ih hrest]

/-- **A place below a place is replaced in two steps**: inside the value that is there, and that value
where it was. -/
theorem replaceAt_append {document inner : Value} {first : List String}
    (h : document.at? first = some inner) (second : List String) (value : Value) :
    document.replaceAt (first ++ second) value =
      document.replaceAt first (inner.replaceAt second value) := by
  induction first generalizing document with
  | nil =>
      cases h
      rfl
  | cons key rest ih =>
      rw [at?_cons] at h
      obtain ⟨child, hchild, hrest⟩ := Option.bind_eq_some_iff.mp h
      rw [List.cons_append, replaceAt_cons_of_child? hchild, replaceAt_cons_of_child? hchild,
        ih hrest]

/-- A member of the value at a place. -/
theorem at?_concat {document parent : Value} {path : List String}
    (h : document.at? path = some parent) (key : String) :
    document.at? (path ++ [key]) = parent.child? key := by
  rw [at?_append, h, Option.bind_some, at?_cons]
  exact Option.bind_fun_some _

/-- To replace a member of the value at a place is to replace that value. -/
theorem replaceAt_concat {document parent child : Value} {path : List String} {key : String}
    (h : document.at? path = some parent) (hchild : parent.child? key = some child)
    (value : Value) :
    document.replaceAt (path ++ [key]) value =
      document.replaceAt path (parent.replaceChild key value) := by
  rw [replaceAt_append h, replaceAt_cons_of_child? hchild, replaceAt_nil]

end Value

end PathExpr
