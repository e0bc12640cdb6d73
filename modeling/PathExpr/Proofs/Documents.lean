import PathExpr.Proofs.Indices
import PathExpr.Proofs.Lookup

/-!
# Documents as trees

A name reaches one member of a value at most, and a member is smaller than the value that it is in, so
what is to be shown of a value may be assumed of its members (`Value.induction_on_child`).

`Value.Proper` is what every document is by the way documents are held: members have names of their
own, and an array is no longer than there are indices.  In a proper document an array reaches each of
its elements under its index, and under nothing else (`Value.Proper.child?_array_iff`).
-/

namespace PathExpr

namespace Value

/-! ### Members -/

/-- A member is smaller than the value that it is in. -/
theorem sizeOf_lt_of_child? {value child : Value} {key : String}
    (h : value.child? key = some child) : sizeOf child < sizeOf value := by
  cases value with
  | object members =>
      have hlt := List.sizeOf_lt_of_mem (mem_of_lookup h)
      simp only [Value.object.sizeOf_spec, Prod.mk.sizeOf_spec] at hlt ⊢
      omega
  | array items =>
      obtain ⟨index, -, hget⟩ := Option.bind_eq_some_iff.mp h
      have hlt := List.sizeOf_lt_of_mem (List.mem_of_getElem? hget)
      simp only [Value.array.sizeOf_spec]
      omega
  | _ => cases h

/-- **Induction on members**: what holds of a value if it holds of its members holds of every value. -/
theorem induction_on_child {motive : Value → Prop}
    (step : ∀ value, (∀ key child, value.child? key = some child → motive child) → motive value)
    (value : Value) : motive value :=
  step value fun _ child _ => induction_on_child step child
termination_by sizeOf value
decreasing_by exact sizeOf_lt_of_child? (by assumption)

theorem wellFormedItems_iff {items : List Value} :
    WellFormedItems items ↔ ∀ item ∈ items, item.WellFormed := by
  induction items with
  | nil => simp [WellFormedItems]
  | cons item rest ih => rw [WellFormedItems, ih, List.forall_mem_cons]

theorem wellFormedMembers_iff {members : List (String × Value)} :
    WellFormedMembers members ↔ ∀ member ∈ members, member.2.WellFormed := by
  induction members with
  | nil => simp [WellFormedMembers]
  | cons member rest ih => rw [WellFormedMembers, ih, List.forall_mem_cons]

/-- A member of a well formed value is well formed. -/
theorem WellFormed.child? {value child : Value} {key : String} (hvalue : value.WellFormed)
    (h : value.child? key = some child) : child.WellFormed := by
  cases value with
  | object members =>
      rw [WellFormed, wellFormedMembers_iff] at hvalue
      exact hvalue.2 (key, child) (mem_of_lookup h)
  | array items =>
      rw [WellFormed, wellFormedItems_iff] at hvalue
      obtain ⟨index, -, hget⟩ := Option.bind_eq_some_iff.mp h
      exact hvalue child (List.mem_of_getElem? hget)
  | _ => cases h

/-! ### Proper documents -/

/-- **What documents are** by the way they are held: no name occurs twice in an object, and no array
has more elements than there are indices. -/
structure Proper (document : Value) : Prop where
  wellFormed : document.WellFormed
  bounded : ∀ path items, document.at? path = some (.array items) → items.length ≤ indexBound

namespace Proper

variable {document child : Value}

/-- A member of a proper document is proper. -/
theorem child? (hdocument : document.Proper) {key : String}
    (h : document.child? key = some child) : child.Proper where
  wellFormed := hdocument.wellFormed.child? h
  bounded path items hitems := by
    refine hdocument.bounded (key :: path) items ?_
    rw [at?_cons, h]
    exact hitems

/-- An object reaches its members under their names. -/
theorem child?_object_iff {members : List (String × Value)} (h : (Value.object members).Proper)
    {key : String} : (Value.object members).child? key = some child ↔ (key, child) ∈ members :=
  lookup_eq_some_iff h.wellFormed.1

/-- **An array reaches its elements under their indices**, and under nothing else. -/
theorem child?_array_iff {items : List Value} (h : (Value.array items).Proper) {key : String} :
    (Value.array items).child? key = some child ↔
      ∃ index : Nat, items[index]? = some child ∧ key = toString index := by
  constructor
  · intro hchild
    obtain ⟨index, hindex, hget⟩ := Option.bind_eq_some_iff.mp hchild
    exact ⟨index, hget, (toString_of_arrayIndex? hindex).symm⟩
  · rintro ⟨index, hget, rfl⟩
    have hlt : index < indexBound :=
      Nat.lt_of_lt_of_le (List.getElem?_eq_some_iff.mp hget).1 (h.bounded [] items rfl)
    rw [Value.child?, arrayIndex?_toString hlt, Option.bind_some]
    exact hget

/-- The members of an object and nothing else make it proper. -/
theorem object_iff {members : List (String × Value)} :
    (Value.object members).Proper ↔
      (Members.names members).Nodup ∧ ∀ member ∈ members, member.2.Proper := by
  constructor
  · intro h
    refine ⟨h.wellFormed.1, fun member hmember => ?_⟩
    exact h.child? (h.child?_object_iff.mpr hmember)
  · rintro ⟨hnodup, hmembers⟩
    constructor
    · rw [WellFormed, wellFormedMembers_iff]
      exact ⟨hnodup, fun member hmember => (hmembers member hmember).wellFormed⟩
    · intro path items hitems
      cases path with
      | nil => cases hitems
      | cons key rest =>
          obtain ⟨child, hchild, hrest⟩ := Option.bind_eq_some_iff.mp hitems
          exact (hmembers (key, child) (mem_of_lookup hchild)).bounded rest items hrest

/-- The number of its elements and the elements make an array proper. -/
theorem array_iff {items : List Value} :
    (Value.array items).Proper ↔ items.length ≤ indexBound ∧ ∀ item ∈ items, item.Proper := by
  constructor
  · intro h
    refine ⟨h.bounded [] items rfl, fun item hitem => ?_⟩
    obtain ⟨index, hget⟩ := List.getElem?_of_mem hitem
    exact h.child? (h.child?_array_iff.mpr ⟨index, hget, rfl⟩)
  · rintro ⟨hlength, hitems⟩
    constructor
    · rw [WellFormed, wellFormedItems_iff]
      exact fun item hitem => (hitems item hitem).wellFormed
    · intro path inner hinner
      cases path with
      | nil =>
          cases hinner
          exact hlength
      | cons key rest =>
          obtain ⟨child, hchild, hrest⟩ := Option.bind_eq_some_iff.mp hinner
          obtain ⟨index, -, hget⟩ := Option.bind_eq_some_iff.mp hchild
          exact (hitems child (List.mem_of_getElem? hget)).bounded rest inner hrest

/-- A value without members is proper. -/
theorem of_no_child {leaf : Value} (hwellFormed : leaf.WellFormed) (hkind : leaf.kind ≠ .array)
    (hchild : ∀ key, leaf.child? key = none) : leaf.Proper where
  wellFormed := hwellFormed
  bounded path items hitems := by
    cases path with
    | nil =>
        cases hitems
        exact absurd rfl hkind
    | cons key rest =>
        rw [at?_cons, hchild] at hitems
        cases hitems

end Proper

end Value

end PathExpr
