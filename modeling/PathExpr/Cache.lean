import PathExpr.Token.Basic

/-!
# The cache of compiled path expressions

Entries are kept under the exact text of the path expression, most recently used first.  To look an
entry up is to use it; to store one is, too, and drops the least recently used entry when there are
more than the capacity.  A capacity of zero counts as one.
-/

namespace PathExpr

/-- Compiled path expressions, most recently used first. -/
structure Cache where
  capacity : Nat
  entries : List (String × TokenSet)
  deriving Inhabited

namespace Cache

/-- The usual capacity. -/
def defaultCapacity : Nat := 1024

/-- An empty cache. -/
def empty (capacity : Nat) : Cache := ⟨max capacity 1, []⟩

/-- How many entries there are. -/
def size (cache : Cache) : Nat := cache.entries.length

/-- Drop every entry. -/
def clear (cache : Cache) : Cache := { cache with entries := [] }

/-- The entries without the one of a path. -/
def without (cache : Cache) (path : String) : List (String × TokenSet) :=
  cache.entries.filter fun entry => entry.1 != path

/-- **Store an entry** in front, and keep as many as fit. -/
def put (cache : Cache) (path : String) (set : TokenSet) : Cache :=
  { cache with entries := ((path, set) :: cache.without path).take cache.capacity }

/-- **Look an entry up**, and bring it to the front if it is there. -/
def get? (cache : Cache) (path : String) : Option TokenSet × Cache :=
  match cache.entries.lookup path with
  | some set => (some set, { cache with entries := (path, set) :: cache.without path })
  | none => (none, cache)

@[simp] theorem size_empty (capacity : Nat) : (empty capacity).size = 0 := rfl

@[simp] theorem size_clear (cache : Cache) : cache.clear.size = 0 := rfl

/-- A store never leaves more entries than the capacity. -/
theorem size_put_le (cache : Cache) (path : String) (set : TokenSet) :
    (cache.put path set).size ≤ cache.capacity := by
  simp only [size, put, List.length_take]
  omega

end Cache

end PathExpr
