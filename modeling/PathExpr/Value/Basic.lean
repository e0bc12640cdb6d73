/-!
# Documents and the values in them

A document is a `Value`: the six shapes of JSON, with whole numbers kept apart from floating point
ones, and callable functions.  Objects are lists of members in document order (`Members`), so that
what a write does to the order can be stated; the invariant that no name occurs twice is the
predicate `Value.WellFormed` beside the type, because every operation of the library keeps it.

A function is known by its name alone.  What a name does when it is called is decided by the
environment of a resolution (`Resolve.Env`), so a document is plain data and two occurrences of one
name are the same function.

* `Members.put` — replace in place or append: the only way a member is ever written.
* `Value.same` — equality as a search sees it: member order does not count, numbers of different
  kinds differ, floating point numbers compare by value (a NaN is never the same, `0.0` and `-0.0` are).
-/

namespace PathExpr

/-- The members of an object in document order. -/
abbrev Members (α : Type) := List (String × α)

namespace Members

variable {α : Type}

/-- **Write a member**: an existing name keeps its position, a new one goes to the end. -/
def put (key : String) (value : α) : Members α → Members α
  | [] => [(key, value)]
  | (name, old) :: rest =>
      if name = key then (name, value) :: rest else (name, old) :: put key value rest

@[simp] theorem put_nil (key : String) (value : α) : put key value [] = [(key, value)] := rfl

theorem put_cons (key : String) (value : α) (name : String) (old : α) (rest : Members α) :
    put key value ((name, old) :: rest) =
      if name = key then (name, value) :: rest else (name, old) :: put key value rest := rfl

/-- The names in document order. -/
def names (members : Members α) : List String := members.map (·.1)

/-- Members given in sequence: a repeated name keeps its first position and takes its last value. -/
def ofList (entries : List (String × α)) : Members α :=
  entries.foldl (fun members entry => members.put entry.1 entry.2) []

/-- What was put under a name is found under it. -/
theorem lookup_put_self (key : String) (value : α) (members : Members α) :
    (members.put key value).lookup key = some value := by
  induction members with
  | nil => exact List.lookup_cons_self
  | cons entry rest ih =>
      obtain ⟨name, old⟩ := entry
      rw [put_cons]
      by_cases h : name = key
      · rw [if_pos h, h, List.lookup_cons_self]
      · rw [if_neg h, List.lookup_cons, beq_false_of_ne (Ne.symm h)]
        exact ih

/-- A write under one name is not seen under another. -/
theorem lookup_put_of_ne {key other : String} (h : other ≠ key) (value : α)
    (members : Members α) : (members.put key value).lookup other = members.lookup other := by
  induction members with
  | nil => rw [put_nil, List.lookup_cons, beq_false_of_ne h]
  | cons entry rest ih =>
      obtain ⟨name, old⟩ := entry
      rw [put_cons]
      by_cases hn : name = key
      · rw [if_pos hn, List.lookup_cons, List.lookup_cons, beq_false_of_ne (hn ▸ h)]
      · rw [if_neg hn, List.lookup_cons, List.lookup_cons, ih]

/-- To put back what is there changes nothing. -/
theorem put_lookup {key : String} {value : α} {members : Members α}
    (h : members.lookup key = some value) : members.put key value = members := by
  induction members with
  | nil => cases h
  | cons entry rest ih =>
      obtain ⟨name, old⟩ := entry
      rw [List.lookup_cons] at h
      rw [put_cons]
      by_cases hn : name = key
      · subst hn
        rw [beq_self_eq_true] at h
        cases h
        rw [if_pos rfl]
      · rw [beq_false_of_ne (Ne.symm hn)] at h
        rw [if_neg hn, ih h]

end Members

/-- A document, or any value inside one. -/
inductive Value where
  | null
  | boolean (truth : Bool)
  | integer (number : Int64)
  | float (number : Float)
  | string (text : String)
  | array (items : List Value)
  | object (members : List (String × Value))
  | function (name : String)
  deriving Inhabited

/-- The eight kinds of value, as error messages and type queries name them. -/
inductive Kind where
  | null | boolean | integer | float | string | array | object | function
  deriving Repr, DecidableEq, Inhabited

/-- The name of a kind. -/
def Kind.name : Kind → String
  | .null => "null"
  | .boolean => "boolean"
  | .integer => "integer"
  | .float => "float"
  | .string => "string"
  | .array => "array"
  | .object => "object"
  | .function => "function"

namespace Value

/-- The kind of a value. -/
def kind : Value → Kind
  | .null => .null
  | .boolean _ => .boolean
  | .integer _ => .integer
  | .float _ => .float
  | .string _ => .string
  | .array _ => .array
  | .object _ => .object
  | .function _ => .function

mutual

/-- **Equality of values.**  Objects are equal when they have as many members and every member of
the first is found, equal, in the second; numbers of different kinds are never equal, and floating
point numbers are compared by value. -/
def same : Value → Value → Bool
  | .null, .null => true
  | .boolean a, .boolean b => a == b
  | .integer a, .integer b => a == b
  | .float a, .float b => a == b
  | .string a, .string b => a == b
  | .array as, .array bs => sameItems as bs
  | .object as, .object bs => as.length == bs.length && sameMembers as bs
  | .function a, .function b => a == b
  | _, _ => false

/-- Item by item equality of two lists of values. -/
def sameItems : List Value → List Value → Bool
  | [], [] => true
  | a :: as, b :: bs => a.same b && sameItems as bs
  | _, _ => false

/-- Every member of the first list is found, equal, in the second. -/
def sameMembers : List (String × Value) → List (String × Value) → Bool
  | [], _ => true
  | (key, a) :: as, bs =>
      (match bs.lookup key with
        | some b => a.same b
        | none => false) && sameMembers as bs

end

mutual

/-- **No name occurs twice** in any object of the value. -/
def WellFormed : Value → Prop
  | .array items => WellFormedItems items
  | .object members => (Members.names members).Nodup ∧ WellFormedMembers members
  | _ => True

/-- Every item is well formed. -/
def WellFormedItems : List Value → Prop
  | [] => True
  | item :: rest => item.WellFormed ∧ WellFormedItems rest

/-- The value of every member is well formed. -/
def WellFormedMembers : List (String × Value) → Prop
  | [] => True
  | (_, value) :: rest => value.WellFormed ∧ WellFormedMembers rest

end

end Value

end PathExpr
