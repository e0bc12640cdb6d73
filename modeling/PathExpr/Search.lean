import PathExpr.Dialect.Quote
import PathExpr.Value.Access

/-!
# From a value to the path expressions that reach it

A search goes through a document from the top, members in the order of their names and elements by
index, and reports the places whose values equal the target: all of them, or only the first, and then it
goes no further.  The document itself is no place, and below a match nothing more is looked for.  Each
place is written as the path expression of its names, quoted where the dialect needs it.

* `Search.searchBelow` — the search below a value; a place is a list of names from there.
* `Search.find` — the path expressions of what is found in a document.
-/

namespace PathExpr.Search

/-- How many places are wanted. -/
inductive Mode where
  | one
  | many
  deriving Repr, DecidableEq, Inhabited

/-- Put members in the order of their names. -/
def sortByName {α : Type} (members : List (String × α)) : List (String × α) :=
  members.mergeSort fun a b => decide (a.1 ≤ b.1)

/-! ### How far a search has come -/

/-- **How far a search has come**: the places that are found, and whether the search has stopped. -/
structure Progress where
  places : List (List String)
  stopped : Bool
  deriving Repr, DecidableEq

namespace Progress

/-- Nothing is found, and the search goes on. -/
def nothing : Progress := ⟨[], false⟩

/-- The place at hand is found; with it a search for one place stops. -/
def record : Mode → Progress
  | .one => ⟨[[]], true⟩
  | .many => ⟨[[]], false⟩

/-- What is found below a name, as seen from above it. -/
def under (key : String) (progress : Progress) : Progress :=
  { progress with places := progress.places.map (key :: ·) }

/-- Go on with the next part of a search, unless the search has stopped. -/
def andThen (progress : Progress) (next : Unit → Progress) : Progress :=
  if progress.stopped then progress
  else
    let later := next ()
    ⟨progress.places ++ later.places, later.stopped⟩

/-- The parts of a search in turn, until the search stops. -/
def inTurn : List (Unit → Progress) → Progress
  | [] => nothing
  | part :: rest => (part ()).andThen fun _ => inTurn rest

end Progress

/-! ### The search -/

/-- **Visit a value under its name**: it is found, or what is found inside it is. -/
def visit (mode : Mode) (target : Value) (key : String) (value : Value) (inside : Unit → Progress) :
    Progress :=
  (if value.same target then .record mode else inside ()).under key

mutual

/-- **The search below a value**: its members in the order of their names, or its elements by index. -/
def searchBelow (mode : Mode) (target : Value) : Value → Progress
  | .array items => searchElements mode target 0 items
  | .object members => .inTurn ((sortByName (memberSearches mode target members)).map (·.2))
  | _ => .nothing

/-- The search of elements from an index on. -/
def searchElements (mode : Mode) (target : Value) (index : Nat) : List Value → Progress
  | [] => .nothing
  | item :: rest =>
      (visit mode target (toString index) item fun _ => searchBelow mode target item).andThen
        fun _ => searchElements mode target (index + 1) rest

/-- The search of each member, under its name. -/
def memberSearches (mode : Mode) (target : Value) :
    List (String × Value) → List (String × (Unit → Progress))
  | [] => []
  | (key, value) :: rest =>
      (key, fun _ => visit mode target key value fun _ => searchBelow mode target value)
      :: memberSearches mode target rest

end

/-! ### What is reported -/

/-- **The path expression of a place.** -/
def render (dialect : Dialect) (place : List String) : String :=
  String.intercalate (String.singleton dialect.property)
    (place.map fun name => String.ofList (dialect.quote name.toList))

/-- **Search a document for a value.** -/
def find (dialect : Dialect) (mode : Mode) (target document : Value) : List String :=
  (searchBelow mode target document).places.map (render dialect)

end PathExpr.Search
