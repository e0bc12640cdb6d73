import PathExpr.Error

/-!
# Members, elements and places

How a name reaches into a value, and how a value is put back under a name.  Both work on one level
at a time; a *place* is a list of such names from the root of the document, so a place is an address
and never a reference, and stays meaningful while the document around it changes.

* `arrayIndex?` — the names that address array elements: canonical decimal numbers of 64 bits.
* `Value.child?` / `Value.at?` — one level down, and all levels of a place.
* `Value.setChild` — the only elementary write: replace or add a member, replace an element or
  append one right after the last.  Everything else is refused and changes nothing.
* `Value.replaceAt` — put a value at a place that exists.
-/

namespace PathExpr

/-! ### Array indices -/

/-- Is the character one of the ten ASCII digits? -/
def isDigit (c : Char) : Bool := '0' ≤ c && c ≤ '9'

/-- The value of a run of digits, most significant first. -/
def ofDigits (digits : List Char) : Nat :=
  digits.foldl (fun n c => 10 * n + (c.toNat - '0'.toNat)) 0

/-- The bound that counts and indices stay below: 2 to the power of 64. -/
def indexBound : Nat := 18446744073709551616

/-- **The index a name stands for**: digits only, no leading zero unless the name is just `0`, and
below `indexBound`.  So each index has one spelling. -/
def arrayIndex? (key : String) : Option Nat :=
  match key.toList with
  | [] => none
  | first :: rest =>
      if (first :: rest).all isDigit && (first != '0' || rest.isEmpty) then
        let index := ofDigits (first :: rest)
        if index < indexBound then some index else none
      else none

/-- **The names of elements**, given their number. An array has fewer elements than there are indices,
so all of them are named; of a longer list it would be those that an index reaches. -/
def indexNames (count : Nat) : List String := (List.range (min count indexBound)).map toString

namespace Value

/-! ### Reading -/

/-- The member or element a name reaches. -/
def child? (key : String) : Value → Option Value
  | .object members => members.lookup key
  | .array items => (arrayIndex? key).bind fun index => items[index]?
  | _ => none

/-- The value at a place. -/
def at? : Value → List String → Option Value
  | value, [] => some value
  | value, key :: rest => (value.child? key).bind fun child => child.at? rest

@[simp] theorem at?_nil (value : Value) : value.at? [] = some value := rfl

theorem at?_cons (value : Value) (key : String) (rest : List String) :
    value.at? (key :: rest) = (value.child? key).bind fun child => child.at? rest := rfl

/-- A place below a place is reached in two steps. -/
theorem at?_append (value : Value) (first second : List String) :
    value.at? (first ++ second) = (value.at? first).bind fun inner => inner.at? second := by
  induction first generalizing value with
  | nil => rfl
  | cons key rest ih =>
      rw [List.cons_append, at?_cons, at?_cons]
      cases value.child? key with
      | none => rfl
      | some child => exact ih child

/-- The names that reach something: member names in document order, or the indices of an array. -/
def memberNames? : Value → Option (List String)
  | .object members => some (Members.names members)
  | .array items => some (indexNames items.length)
  | _ => none

/-! ### Writing -/

/-- **The elementary write.**  An object takes any name; an array takes the index of an element, to
replace it, or its own length, to append; nothing else has members to write. -/
def setChild (parent : Value) (key : String) (value : Value) : Except PathError Value :=
  match parent with
  | .object members => .ok (.object (Members.put key value members))
  | .array items =>
      match arrayIndex? key with
      | some index =>
          if index < items.length then .ok (.array (items.set index value))
          else if index = items.length then .ok (.array (items ++ [value]))
          else .error (.assignment (.element key items.length))
      | none => .error (.assignment (.element key items.length))
  | other => .error (.assignment (.member key other.kind))

/-- Put a value under a name that reaches something; any other name changes nothing. -/
def replaceChild (parent : Value) (key : String) (value : Value) : Value :=
  match parent with
  | .object members => .object (Members.put key value members)
  | .array items =>
      match arrayIndex? key with
      | some index => .array (items.set index value)
      | none => .array items
  | other => other

/-- **What an array takes**: a value for one of its elements, or one behind the last. -/
theorem setChild_array_eq_ok_iff {items : List Value} {key : String} {value changed : Value} :
    (array items).setChild key value = .ok changed ↔
      ∃ index, arrayIndex? key = some index ∧
        (index < items.length ∧ changed = array (items.set index value) ∨
          index = items.length ∧ changed = array (items ++ [value])) := by
  rw [setChild]
  cases arrayIndex? key with
  | none => simp
  | some index =>
      rcases Nat.lt_trichotomy index items.length with hlt | rfl | hgt
      · simp [hlt, Nat.ne_of_lt hlt, eq_comm]
      · simp [eq_comm]
      · simp [Nat.not_lt_of_gt hgt, Nat.ne_of_gt hgt]

/-- What was set under a name is found under it. -/
theorem child?_setChild {parent changed value : Value} {key : String}
    (h : parent.setChild key value = .ok changed) : changed.child? key = some value := by
  cases parent with
  | object members =>
      cases h
      exact Members.lookup_put_self key value members
  | array items =>
      obtain ⟨index, hindex, ⟨hlt, rfl⟩ | ⟨rfl, rfl⟩⟩ := setChild_array_eq_ok_iff.mp h
      · simp [child?, hindex, hlt]
      · simp [child?, hindex]
  | _ => cases h

/-- To put back what is there changes nothing. -/
theorem replaceChild_child? {parent child : Value} {key : String}
    (h : parent.child? key = some child) : parent.replaceChild key child = parent := by
  cases parent with
  | object members => exact congrArg Value.object (Members.put_lookup h)
  | array items =>
      simp only [child?] at h
      cases hindex : arrayIndex? key with
      | none => simp [replaceChild, hindex]
      | some index =>
          rw [hindex, Option.bind_some] at h
          obtain ⟨hlt, hget⟩ := List.getElem?_eq_some_iff.mp h
          simp [replaceChild, hindex, ← hget]
  | _ => cases h

/-- Put a value at a place; a place that does not exist changes nothing. -/
def replaceAt : Value → List String → Value → Value
  | _, [], value => value
  | parent, key :: rest, value =>
      match parent.child? key with
      | some child => parent.replaceChild key (child.replaceAt rest value)
      | none => parent

@[simp] theorem replaceAt_nil (parent value : Value) : parent.replaceAt [] value = value := rfl

theorem replaceAt_cons (parent : Value) (key : String) (rest : List String) (value : Value) :
    parent.replaceAt (key :: rest) value =
      match parent.child? key with
      | some child => parent.replaceChild key (child.replaceAt rest value)
      | none => parent := rfl

/-- To put back what is at a place changes nothing. -/
theorem replaceAt_at? {document value : Value} {path : List String}
    (h : document.at? path = some value) : document.replaceAt path value = document := by
  induction path generalizing document with
  | nil =>
      cases h
      rfl
  | cons key rest ih =>
      rw [at?_cons] at h
      obtain ⟨child, hchild, hrest⟩ := Option.bind_eq_some_iff.mp h
      rw [replaceAt_cons, hchild]
      simp only [ih hrest]
      exact replaceChild_child? hchild

/-- **Assign a member of the value at a place**, which has to be there. -/
def setChildAt (document : Value) (path : List String) (key : String) (value : Value) :
    Except PathError Value :=
  match document.at? path with
  | none => .error (.notFound (.place path))
  | some parent => (parent.setChild key value).map (document.replaceAt path)

end Value

/-- **What a write leaves**: its outcome, and the document, which a failed write may have changed
before it failed. -/
structure Written where
  outcome : Except PathError Unit
  document : Value

end PathExpr
