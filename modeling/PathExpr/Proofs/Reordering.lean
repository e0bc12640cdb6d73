import PathExpr.Proofs.Matches

/-!
# The order of members does not show

Two documents may differ in nothing but the order in which their objects hold their members, at any depth
(`Value.Reordered`).  No comparison tells them apart, whichever side they stand on: one side of a
comparison is gone through member by member, all of which have to agree, and in the other side members are
looked up by names that do not repeat (`Value.Reordered.same_left`, `Value.Reordered.same_right`).

A search sorts members by their names before it goes on, and decides by comparisons alone where it stops.
So it takes the same way through both documents, and gives the same path expressions
(`Search.find_reordered`).
-/

namespace PathExpr

/-- Where no key occurs twice, the order of the entries does not matter to a look-up. -/
theorem lookup_eq_of_perm {α β : Type} [BEq α] [LawfulBEq α] {entries others : List (α × β)}
    (h : entries.Perm others) (hnodup : (entries.map (·.1)).Nodup) (key : α) :
    entries.lookup key = others.lookup key := by
  refine Option.ext fun value => ?_
  rw [lookup_eq_some_iff hnodup, lookup_eq_some_iff ((h.map _).nodup_iff.mp hnodup), h.mem_iff]

/-- Where no name occurs twice, sorting by name leaves nothing of the order. -/
theorem Search.sortByName_eq_of_perm {α : Type} {members others : List (String × α)}
    (h : members.Perm others) (hnodup : (members.map (·.1)).Nodup) :
    sortByName members = sortByName others := by
  have hmembers : (sortByName members).Perm members := List.mergeSort_perm _ _
  have hothers : (sortByName others).Perm others := List.mergeSort_perm _ _
  refine List.Perm.eq_of_pairwise ?_ (pairwise_sortByName members) (pairwise_sortByName others)
    (hmembers.trans (h.trans hothers.symm))
  intro first second hfirst hsecond hle hge
  exact List.inj_on_of_nodup_map hnodup (hmembers.subset hfirst)
    (h.symm.subset (hothers.subset hsecond)) (String.le_antisymm hle hge)

namespace Value

/-- **A value with the members of objects put in another order**, at any depth: at the top, in the value
of a member or in an item, and so on from there. -/
inductive Reordered : Value → Value → Prop where
  | refl (value : Value) : Reordered value value
  | trans {first second third : Value} (h : Reordered first second) (h' : Reordered second third) :
      Reordered first third
  | object {members others : List (String × Value)} (h : members.Perm others) :
      Reordered (.object members) (.object others)
  | member (before : List (String × Value)) (key : String) {value other : Value}
      (h : Reordered value other) (after : List (String × Value)) :
      Reordered (.object (before ++ (key, value) :: after)) (.object (before ++ (key, other) :: after))
  | item (before : List Value) {value other : Value} (h : Reordered value other)
      (after : List Value) :
      Reordered (.array (before ++ value :: after)) (.array (before ++ other :: after))

/-- A member of a well formed object is well formed. -/
theorem WellFormed.of_member {before after : List (String × Value)} {key : String} {value : Value}
    (h : (Value.object (before ++ (key, value) :: after)).WellFormed) : value.WellFormed := by
  rw [WellFormed, wellFormedMembers_iff] at h
  exact h.2 (key, value) (List.mem_append_right before List.mem_cons_self)

/-- An item of a well formed array is well formed. -/
theorem WellFormed.of_item {before after : List Value} {value : Value}
    (h : (Value.array (before ++ value :: after)).WellFormed) : value.WellFormed := by
  rw [WellFormed, wellFormedItems_iff] at h
  exact h value (List.mem_append_right before List.mem_cons_self)

/-! ### Comparisons -/

theorem sameMembers_eq_all (members others : List (String × Value)) :
    sameMembers members others =
      members.all fun member => (others.lookup member.1).any member.2.same := by
  induction members with
  | nil => rfl
  | cons member rest ih =>
      rw [sameMembers, List.all_cons, ih]
      cases others.lookup member.1 <;> rfl

/-- What is found under a name compares by the value of a member that is found. -/
theorem any_lookup_congr {value other : Value} (h : ∀ third : Value, third.same value = third.same other)
    (before after : List (String × Value)) (key name : String) (third : Value) :
    ((before ++ (key, value) :: after).lookup name).any third.same =
      ((before ++ (key, other) :: after).lookup name).any third.same := by
  rw [List.lookup_append, List.lookup_append, List.lookup_cons, List.lookup_cons]
  cases before.lookup name with
  | some found => rfl
  | none =>
      cases name == key with
      | true => exact h third
      | false => rfl

/-- Items compare by their parts, in the first list. -/
theorem sameItems_congr_left {value other : Value} (h : ∀ third, value.same third = other.same third)
    (before after items : List Value) :
    sameItems (before ++ value :: after) items = sameItems (before ++ other :: after) items := by
  induction before generalizing items with
  | nil => cases items <;> simp [sameItems, h]
  | cons first rest ih => cases items <;> simp [sameItems, ih]

/-- Items compare by their parts, in the second list. -/
theorem sameItems_congr_right {value other : Value} (h : ∀ third : Value, third.same value = third.same other)
    (before after items : List Value) :
    sameItems items (before ++ value :: after) = sameItems items (before ++ other :: after) := by
  induction before generalizing items with
  | nil => cases items <;> simp [sameItems, h]
  | cons first rest ih => cases items <;> simp [sameItems, ih]

namespace Reordered

variable {value other : Value}

/-- **No comparison tells the first sides apart.** -/
theorem same_left (h : Reordered value other) (third : Value) : value.same third = other.same third := by
  induction h generalizing third with
  | refl value => rfl
  | trans _ _ ih ih' => rw [ih, ih']
  | object h =>
      cases third with
      | object members =>
          simp only [same, sameMembers_eq_all, h.length_eq, h.all_eq]
      | _ => rfl
  | member before key _ after ih =>
      cases third with
      | object members =>
          have hsame := funext ih
          simp only [same, sameMembers_eq_all, List.length_append, List.length_cons, List.all_append,
            List.all_cons, hsame]
      | _ => rfl
  | item before _ after ih =>
      cases third with
      | array items => exact sameItems_congr_left ih before after items
      | _ => rfl

/-- A reordered value is well formed if the value is. -/
theorem wellFormed (h : Reordered value other) (hvalue : value.WellFormed) : other.WellFormed := by
  induction h with
  | refl value => exact hvalue
  | trans _ _ ih ih' => exact ih' (ih hvalue)
  | object h =>
      rw [WellFormed, wellFormedMembers_iff] at hvalue ⊢
      refine ⟨(h.map _).nodup_iff.mp hvalue.1, fun member hmember => ?_⟩
      exact hvalue.2 member (h.symm.subset hmember)
  | member before key _ after ih =>
      rw [WellFormed, wellFormedMembers_iff, List.forall_mem_append, List.forall_mem_cons] at hvalue ⊢
      obtain ⟨hnodup, hbefore, hmember, hafter⟩ := hvalue
      refine ⟨?_, hbefore, ih hmember, hafter⟩
      simpa only [Members.names, List.map_append, List.map_cons] using hnodup
  | item before _ after ih =>
      rw [WellFormed, wellFormedItems_iff, List.forall_mem_append, List.forall_mem_cons] at hvalue ⊢
      exact ⟨hvalue.1, ih hvalue.2.1, hvalue.2.2⟩

/-- **No comparison tells the second sides apart**, where no name occurs twice. -/
theorem same_right (h : Reordered value other) (hvalue : value.WellFormed) (third : Value) :
    third.same value = third.same other := by
  induction h generalizing third with
  | refl value => rfl
  | trans h _ ih ih' => rw [ih hvalue, ih' (h.wellFormed hvalue)]
  | object h =>
      cases third with
      | object members =>
          simp only [same, sameMembers_eq_all, h.length_eq, lookup_eq_of_perm h hvalue.1]
      | _ => rfl
  | member before key _ after ih =>
      have hfound := any_lookup_congr (ih hvalue.of_member)
      cases third with
      | object members =>
          simp only [same, sameMembers_eq_all, List.length_append, List.length_cons, hfound]
      | _ => rfl
  | item before _ after ih =>
      cases third with
      | array items => exact sameItems_congr_right (ih hvalue.of_item) before after items
      | _ => rfl

end Reordered

end Value

namespace Search

open Value (Reordered)

/-! ### Searches -/

/-- **Of the target a search sees nothing but comparisons.** -/
theorem placesBelow_congr_target {target other : Value}
    (h : ∀ value : Value, value.same target = value.same other) (root : Value) :
    placesBelow target root = placesBelow other root := by
  rw [placesBelow_eq_flatMap, placesBelow_eq_flatMap]
  refine List.flatMap_congr fun member hmember => ?_
  have ih := placesBelow_congr_target h member.2
  rw [placesOf, placesOf, h, ih]
termination_by sizeOf root
decreasing_by exact Value.sizeOf_lt_of_mem_inOrder hmember

/-- Of a member a search sees how it compares to the target and what it finds in it. -/
theorem placesOf_congr {target value other : Value} (hsame : value.same target = other.same target)
    (hplaces : placesBelow target value = placesBelow target other) (key : String) :
    placesOf target (key, value) = placesOf target (key, other) := by
  rw [placesOf, placesOf, hsame, hplaces]

/-- **A search goes the same way through a reordered document.** -/
theorem placesBelow_of_reordered {root other : Value} (h : Reordered root other)
    (hroot : root.WellFormed) (target : Value) : placesBelow target root = placesBelow target other := by
  induction h with
  | refl value => rfl
  | trans h _ ih ih' => rw [ih hroot, ih' (h.wellFormed hroot)]
  | object h =>
      rw [placesBelow_eq_flatMap, placesBelow_eq_flatMap, Value.inOrder, Value.inOrder,
        sortByName_eq_of_perm h hroot.1]
  | member before key h after ih =>
      have hplaces := placesOf_congr (h.same_left target) (ih hroot.of_member) key
      simp only [placesBelow_object, List.map_append, List.map_cons, hplaces]
  | item before h after ih =>
      have hplaces := placesOf_congr (h.same_left target) (ih hroot.of_item)
      simp only [placesBelow_eq_flatMap, Value.inOrder, List.zipIdx_append, List.zipIdx_cons,
        List.map_append, List.map_cons, List.flatMap_append, List.flatMap_cons, hplaces]

/-- **The order of members does not show in a search**, neither that of the document nor that of the
target, in any dialect and for one place or all. -/
theorem find_reordered {root reorderedRoot target reorderedTarget : Value}
    (hroot : root.WellFormed) (htarget : target.WellFormed) (h : Reordered root reorderedRoot)
    (h' : Reordered target reorderedTarget) (dialect : Dialect) (mode : Mode) :
    find dialect mode reorderedTarget reorderedRoot = find dialect mode target root := by
  have hplaces : placesBelow reorderedTarget reorderedRoot = placesBelow target root := by
    rw [placesBelow_of_reordered h hroot, placesBelow_congr_target (h'.same_right htarget)]
  simp only [find, searchBelow_eq_upTo, hplaces]

/-- A document and a target with their members reversed, and in the document those of an object in an
array, too. -/
theorem find_reordered_reversed :
    let target : Value := .object [("x", .integer 1), ("y", .null)]
    let reorderedTarget : Value := .object [("y", .null), ("x", .integer 1)]
    let root : Value := .object [("b", .array [target, .null]), ("a", target)]
    let reorderedRoot : Value := .object [("a", target), ("b", .array [reorderedTarget, .null])]
    root.WellFormed ∧ target.WellFormed ∧ Reordered root reorderedRoot ∧
      Reordered target reorderedTarget ∧
      find .standard .many reorderedTarget reorderedRoot = find .standard .many target root := by
  intro target reorderedTarget root reorderedRoot
  have htarget : target.WellFormed := by
    simp [target, Value.WellFormed, Value.WellFormedMembers, Members.names]
  have hroot : root.WellFormed := by
    simp [root, Value.WellFormed, Value.WellFormedMembers, Value.WellFormedItems, Members.names, htarget]
  have hreordered : Reordered target reorderedTarget := .object (List.Perm.swap _ _ _)
  have hroots : Reordered root reorderedRoot :=
    .trans (.member [] "b" (.item [] hreordered [.null]) [("a", target)])
      (.object (List.Perm.swap _ _ _))
  exact ⟨hroot, htarget, hroots, hreordered, find_reordered hroot htarget hroots hreordered _ _⟩

end Search

end PathExpr
