import PathExpr.Path.Segments
import PathExpr.Value.Access

/-!
# Reading and writing along plain names

A run of plain names goes down the document one name at a time.  A read ends with the value it
reaches; a write assigns under the last name, and with `force` it makes an empty object wherever a
name before the last is missing.  Both are by recursion on the names and the document together; no
token, no trail of contexts and no address is involved.
-/

namespace PathExpr.Plain

/-- **Read along names.** -/
def read : Value → List String → Except PathError Value
  | value, [] => .ok value
  | value, name :: rest =>
      match value.child? name with
      | some child => read child rest
      | none => .error (.notFound (.member name))

@[simp] theorem read_nil (value : Value) : read value [] = .ok value := rfl

theorem read_cons (value : Value) (name : String) (rest : List String) :
    read value (name :: rest) =
      match value.child? name with
      | some child => read child rest
      | none => .error (.notFound (.member name)) := rfl

/-- The member under a name of a value, and the value with the member; a missing member is made, as
an empty object, if `force` is set. -/
def descend (force : Bool) (name : String) (parent : Value) : Except PathError (Value × Value) :=
  match parent.child? name with
  | some child => .ok (child, parent)
  | none =>
      if force then
        match parent.setChild name (.object []) with
        | .ok parent => .ok (.object [], parent)
        | .error fault => .error fault
      else .error (.notFound (.member name))

/-- **Write along names.** -/
def write (force : Bool) (value : Value) : List String → Value → Written
  | [], document => ⟨.error (.assignment .noTarget), document⟩
  | [name], document =>
      match document.setChild name value with
      | .ok changed => ⟨.ok (), changed⟩
      | .error fault => ⟨.error fault, document⟩
  | name :: next :: rest, document =>
      match descend force name document with
      | .error fault => ⟨.error fault, document⟩
      | .ok (child, parent) =>
          let inner := write force value (next :: rest) child
          ⟨inner.outcome, parent.replaceChild name inner.document⟩

/-- Read along the names of a path expression that is cut at its separators. -/
def readText (separator : Char) (path : String) (document : Value) : Except PathError Value :=
  match Segments.split separator 0 path.toList with
  | .error fault => .error (.invalid fault)
  | .ok names => read document names

/-- Write along the names of a path expression that is cut at its separators. -/
def writeText (separator : Char) (force : Bool) (value : Value) (path : String) (document : Value) :
    Written :=
  match Segments.split separator 0 path.toList with
  | .error fault => ⟨.error (.invalid fault), document⟩
  | .ok names => write force value names document

end PathExpr.Plain
