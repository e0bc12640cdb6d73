import PathExpr.Proofs.Likeness

/-!
# Which texts name elements

A text *names an element* of an array if the element is what is read under it, and is what a write under
it replaces (`Value.NamesElement`).  A text that *names nothing* in an array reads nothing there, and
every write under it is refused, one behind the last element included (`Value.NamesNothing`).  Neither
notion mentions how a text becomes an index.  Both are decided by that index alone
(`Value.namesElement_iff`, `Value.namesNothing_iff`), and an index has only one text
(`arrayIndex?_eq_some_iff`).

* `Resolve.Focus.getElem?_indexNames_iff_namesElement` — the names that are listed for an array are those
  of its elements, in their order.
* `Resolve.Focus.StandsFor.exists_elements_named` — from a place, from a value without a place and from a
  list of results alike, each of them reaches its own element.
* `Value.namesNothing_of_toList_ne` — what is not the text of an index names nothing: numbers that are too
  large, signs, and zeros in front.
-/

namespace PathExpr

/-- Indices are numbers of 64 bits. -/
theorem indexBound_eq : indexBound = UInt64.size := rfl

namespace Value

variable {items : List Value} {key : String} {index : Nat}

/-! ### Elements under names -/

/-- **A text names an element** of an array: the element at the index is read under it, and replaced by
what is written under it. -/
structure NamesElement (items : List Value) (key : String) (index : Nat) : Prop where
  lt_length : index < items.length
  child?_eq : (array items).child? key = items[index]?
  setChild_eq : ∀ value, (array items).setChild key value = .ok (array (items.set index value))

/-- **A text names nothing** in any array: nothing is read under it, and nothing can be written. -/
def NamesNothing (key : String) : Prop :=
  ∀ items : List Value, (array items).child? key = none ∧
    ∀ value, (array items).setChild key value = .error (.assignment (.element key items.length))

/-- An index at which every value is put as at another one is that other one. -/
theorem eq_of_set_eq_set {place : Nat} (hlt : index < items.length)
    (h : ∀ value, items.set index value = items.set place value) : index = place := by
  by_contra hne
  -- Whatever is put there would be what was there before, and that is only one value.
  have hold : ∀ value, some value = items[index]? := by
    intro value
    rw [← List.getElem?_set_self hlt, h value, List.getElem?_set_ne (Ne.symm hne)]
  cases (hold .null).trans (hold (.boolean true)).symm

/-- **An element is named by the text that is read as its index**, and by no other. -/
theorem namesElement_iff :
    NamesElement items key index ↔ arrayIndex? key = some index ∧ index < items.length := by
  constructor
  · intro h
    obtain ⟨place, hplace, ⟨hlt, -⟩ | ⟨-, hadded⟩⟩ :=
      setChild_array_eq_ok_iff.mp (h.setChild_eq .null)
    · have hset : ∀ value, items.set place value = items.set index value := by
        intro value
        simpa [setChild, hplace, hlt] using h.setChild_eq value
      rw [← eq_of_set_eq_set hlt hset]
      exact ⟨hplace, hlt⟩
    · -- There would be one element more, but to replace one adds none.
      have hlength := congrArg List.length (array.inj hadded)
      simp at hlength
  · rintro ⟨hindex, hlt⟩
    exact ⟨hlt, by simp [child?, hindex], fun value => by simp [setChild, hindex, hlt]⟩

/-- **A text names nothing if it is not read as an index**; any index can be written at, at the end of an
array that is as long. -/
theorem namesNothing_iff : NamesNothing key ↔ arrayIndex? key = none := by
  constructor
  · intro h
    cases hindex : arrayIndex? key with
    | none => rfl
    | some index =>
        have hset := (h (List.replicate index .null)).2 .null
        simp [setChild, hindex] at hset
  · intro h items
    exact ⟨by simp [child?, h], fun value => by simp [setChild, h]⟩

/-- An element has only one name. -/
theorem NamesElement.unique {first second : String} (hfirst : NamesElement items first index)
    (hsecond : NamesElement items second index) : first = second :=
  arrayIndex?_inj (namesElement_iff.mp hfirst).1 (namesElement_iff.mp hsecond).1

/-! ### What names nothing -/

/-- **What is not the text of an index names nothing.** -/
theorem namesNothing_of_toList_ne (h : ∀ index < indexBound, key.toList ≠ Nat.toDigits 10 index) :
    NamesNothing key := by
  rw [namesNothing_iff, Option.eq_none_iff_forall_ne_some]
  intro index hindex
  obtain ⟨hlt, rfl⟩ := arrayIndex?_eq_some_iff.mp hindex
  exact h index hlt Nat.toList_repr

/-- A number that is too large names nothing, however it is written. -/
theorem namesNothing_of_indexBound_le (h : indexBound ≤ Nat.ofDigitChars 10 key.toList 0) :
    NamesNothing key := by
  refine namesNothing_of_toList_ne fun index hlt hdigits => ?_
  rw [hdigits, Nat.ofDigitChars_ten_toDigits] at h
  omega

/-- What begins with a sign, or with anything else that is no digit, names nothing. -/
theorem namesNothing_of_not_digit {first : Char} {rest : List Char} (hkey : key.toList = first :: rest)
    (hfirst : isDigit first = false) : NamesNothing key := by
  refine namesNothing_of_toList_ne fun index _ hdigits => ?_
  have hall := all_isDigit_toDigits index
  rw [← hdigits, hkey, List.all_cons, hfirst] at hall
  cases hall

/-- What begins with a zero and goes on names nothing. -/
theorem namesNothing_of_zero_cons {rest : List Char} (hkey : key.toList = '0' :: rest)
    (hrest : rest ≠ []) : NamesNothing key := by
  refine namesNothing_of_toList_ne fun index _ hdigits => ?_
  rw [hkey] at hdigits
  rcases Nat.eq_zero_or_pos index with rfl | hpos
  · rw [Nat.toDigits_zero] at hdigits
    exact hrest (List.cons.inj hdigits).2
  · have hhead := head?_toDigits_ne hpos
    rw [← hdigits] at hhead
    exact hhead rfl

end Value

namespace Resolve.Focus

open Value

variable {document : Value} {focus : Focus} {items : List Value}

/-! ### The names that are listed -/

/-- **The names that are listed for an array** are those of its elements, each at its index. -/
theorem getElem?_indexNames_iff_namesElement {index : Nat} {name : String} :
    (indexNames items.length)[index]? = some name ↔ NamesElement items name index :=
  getElem?_indexNames_eq_some_iff.trans namesElement_iff.symm

/-- **The name of an element reaches it** from every focus that stands for the array. -/
theorem StandsFor.exists_elements_named (h : focus.StandsFor document (.array items)) :
    ∃ elements, focus.elements document = .ok elements ∧
      ∀ index name, NamesElement items name index →
        ∃ element item, elements[index]? = some element ∧ items[index]? = some item ∧
          focus.child? document name = some element ∧ element.StandsFor document item := by
  obtain ⟨elements, helements, hreached⟩ := h.forall₂_child?_elements
  refine ⟨elements, helements, fun index name hname => ?_⟩
  have hlt := hname.lt_length
  have hitem : items[index]? = some items[index] := List.getElem?_eq_getElem hlt
  have hat := forall₂_getElem? hreached index
  rw [getElem?_indexNames_iff_namesElement.mpr hname] at hat
  generalize helement : elements[index]? = found at hat
  cases hat with
  | @some _ element hchild =>
      have hstands := h.child? name
      rw [hchild, hname.child?_eq, hitem] at hstands
      cases hstands with
      | some hstands => exact ⟨element, _, rfl, hitem, hchild, hstands⟩

/-- **The names of elements are canonical.**  A text is read as an index exactly if it is the decimal
notation of that index, which has 64 bits.  So different texts never name the same element of an array,
and what is set under one is not seen under another.  The names that are listed for an array are those of
its elements, in their order, and each reaches its own.  Numbers beyond 64 bits, signs and zeros in front
name nothing. -/
theorem element_names_canonical :
    (∀ (key : String) (index : Nat),
      arrayIndex? key = some index ↔ index < UInt64.size ∧ key = toString index) ∧
    (∀ (items : List Value) (first second : String), first ≠ second →
      (∀ index, ¬(NamesElement items first index ∧ NamesElement items second index)) ∧
      ∀ value changed, (Value.array items).setChild first value = .ok changed →
        changed.child? second = (Value.array items).child? second) ∧
    (∀ (document : Value) (focus : Focus) (items : List Value),
      focus.StandsFor document (.array items) →
        ∃ names elements, (Value.array items).memberNames? = some names ∧
          focus.memberNames document = .ok names ∧ focus.elements document = .ok elements ∧
          ∀ index name, (names[index]? = some name ↔ NamesElement items name index) ∧
            (names[index]? = some name →
              ∃ element item, elements[index]? = some element ∧ items[index]? = some item ∧
                focus.child? document name = some element ∧ element.StandsFor document item)) ∧
    (∀ key : String, UInt64.size ≤ Nat.ofDigitChars 10 key.toList 0 → NamesNothing key) ∧
    (∀ rest : String, NamesNothing ("+" ++ rest) ∧ NamesNothing ("-" ++ rest)) ∧
    ∀ rest : String, rest ≠ "" → NamesNothing ("0" ++ rest) := by
  rw [← indexBound_eq]
  refine ⟨fun key index => arrayIndex?_eq_some_iff, fun items first second hne => ⟨?_, ?_⟩,
    fun document focus items h => ?_, fun key => namesNothing_of_indexBound_le, fun rest => ⟨?_, ?_⟩,
    fun rest hrest => ?_⟩
  · rintro index ⟨hfirst, hsecond⟩
    exact hne (hfirst.unique hsecond)
  · intro value changed hset
    exact child?_setChild_of_ne hne.symm hset
  · obtain ⟨elements, helements, hreached⟩ := h.exists_elements_named
    refine ⟨indexNames items.length, elements, rfl, h.memberNames, helements,
      fun index name => ⟨getElem?_indexNames_iff_namesElement, fun hname => ?_⟩⟩
    exact hreached index name (getElem?_indexNames_iff_namesElement.mp hname)
  · exact namesNothing_of_not_digit String.toList_append (by decide)
  · exact namesNothing_of_not_digit String.toList_append (by decide)
  · refine namesNothing_of_zero_cons String.toList_append ?_
    exact fun hnil => hrest (String.toList_eq_nil_iff.mp hnil)

/-- The largest index and the first number beyond it, and two rows of a document under their names. -/
theorem element_names_canonical_at_bound :
    let rows : List Value := [.null, .boolean true]
    let document : Value := .object [("rows", .array rows)]
    let changed : Value := .array [.integer 7, .boolean true]
    arrayIndex? "18446744073709551615" = some 18446744073709551615 ∧
      UInt64.size ≤ Nat.ofDigitChars 10 "18446744073709551616".toList 0 ∧
      NamesNothing "18446744073709551616" ∧
      NamesNothing "+7" ∧ "7" ≠ "" ∧ NamesNothing "07" ∧
      "0" ≠ "1" ∧ (Value.array rows).setChild "0" (.integer 7) = .ok changed ∧
      changed.child? "1" = (Value.array rows).child? "1" ∧
      (place ["rows"]).StandsFor document (.array rows) ∧ NamesElement rows "1" 1 ∧
      ∃ element, (place ["rows"]).child? document "1" = some element ∧
        element.StandsFor document (.boolean true) := by
  intro rows document changed
  obtain ⟨hindex, hapart, hlisted, hlarge, hsigned, hzero⟩ := element_names_canonical
  have hbeyond : UInt64.size ≤ Nat.ofDigitChars 10 "18446744073709551616".toList 0 := by decide
  have hrest : "7" ≠ "" := by decide
  have hne : "0" ≠ "1" := by decide
  have hset : (Value.array rows).setChild "0" (.integer 7) = .ok changed := rfl
  have hrows : (place ["rows"]).StandsFor document (.array rows) := rfl
  obtain ⟨names, elements, hnames, -, -, hnamed⟩ := hlisted document (place ["rows"]) rows hrows
  cases hnames
  obtain ⟨element, item, -, hitem, hchild, hstands⟩ := (hnamed 1 "1").2 rfl
  cases hitem
  exact ⟨(hindex _ _).mpr ⟨by decide, by decide⟩, hbeyond, hlarge _ hbeyond, (hsigned "7").1, hrest,
    hzero "7" hrest, hne, hset, (hapart rows "0" "1" hne).2 _ changed hset, hrows,
    (hnamed 1 "1").1.mp rfl, element, hchild, hstands⟩

end Resolve.Focus

end PathExpr
