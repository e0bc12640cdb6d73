import PathExpr.Value.Access

/-!
# What a resolution points at

A *focus* is what the tokens read so far have reached: a place in the document, a value without a
place — an argument or the result of a call — or a list of results, each of them a focus again.  A
place is an address: it is looked up anew whenever its value is needed, so a write can reach
everything a read can, and a place taken before a write is still a place after it.
-/

namespace PathExpr.Resolve

/-- What a resolution points at. -/
inductive Focus where
  /-- A place in the document, as names from the root. -/
  | place (path : List String)
  /-- A value that has no place in the document. -/
  | detached (value : Value)
  /-- The results of a collection, a broadcast or a wildcard. -/
  | fan (items : List Focus)
  deriving Inhabited

namespace Focus

/-- The document itself. -/
def root : Focus := .place []

/-- The value at a place, which is there unless the document has changed. -/
def lookup (document : Value) (path : List String) : Except PathError Value :=
  match document.at? path with
  | some value => .ok value
  | none => .error (.notFound (.place path))

mutual

/-- **The value that a focus stands for**; a list of results stands for the array of their
values. -/
def value (document : Value) : Focus → Except PathError Value
  | .place path => lookup document path
  | .detached value => .ok value
  | .fan items =>
      match values document items with
      | .ok found => .ok (.array found)
      | .error fault => .error fault

/-- The values of several foci, up to the first that has none. -/
def values (document : Value) : List Focus → Except PathError (List Value)
  | [] => .ok []
  | focus :: rest =>
      match focus.value document with
      | .error fault => .error fault
      | .ok found =>
          match values document rest with
          | .ok others => .ok (found :: others)
          | .error fault => .error fault

end

theorem value_fan (document : Value) (items : List Focus) :
    (fan items).value document = (values document items).map .array := by
  rw [value]
  cases values document items <;> rfl

/-- A focus with a value adds it to those of the others. -/
theorem values_cons_of_ok {document found : Value} {focus : Focus}
    (h : focus.value document = .ok found) (rest : List Focus) :
    values document (focus :: rest) = (values document rest).map (found :: ·) := by
  rw [values, h]
  cases values document rest <;> rfl

/-- The member or element that a name reaches. -/
def child? (document : Value) (key : String) : Focus → Option Focus
  | .place path =>
      ((document.at? path).bind fun value => value.child? key).map fun _ => .place (path ++ [key])
  | .detached value => (value.child? key).map .detached
  | .fan items => (arrayIndex? key).bind fun index => items[index]?

/-- The elements of an array or of a list of results, as far as an index reaches: all of them, since
neither is that long. -/
def elements (document : Value) : Focus → Except PathError (List Focus)
  | .place path =>
      match lookup document path with
      | .ok (.array items) =>
          .ok ((indexNames items.length).map fun name => .place (path ++ [name]))
      | .ok other => .error (.mismatch (.each other.kind))
      | .error fault => .error fault
  | .detached (.array items) => .ok ((items.take indexBound).map .detached)
  | .detached other => .error (.mismatch (.each other.kind))
  | .fan items => .ok (items.take indexBound)

/-- The names of the members of a value. -/
def valueNames (value : Value) : Except PathError (List String) :=
  match value.memberNames? with
  | some names => .ok names
  | none => .error (.mismatch (.wildcard value.kind))

/-- The names that reach something. -/
def memberNames (document : Value) : Focus → Except PathError (List String)
  | .place path => (lookup document path).bind valueNames
  | .detached value => valueNames value
  | .fan items => .ok (indexNames items.length)

end Focus

end PathExpr.Resolve
