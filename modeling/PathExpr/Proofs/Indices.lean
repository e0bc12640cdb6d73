import Mathlib.Data.List.Forall2
import Mathlib.Data.List.Induction
import PathExpr.Value.Access

/-!
# The names of elements

An element is named by its index in decimal.  That text reads back as the index
(`arrayIndex?_toString`), so the names that are given to the elements of an array reach them
(`Value.exists_child?_of_mem_indexNames`), one after the other (`forall₂_indexNames`), and no other text
does (`toString_of_arrayIndex?`, `arrayIndex?_eq_some_iff`).
-/

namespace PathExpr

/-! ### Decimal texts -/

/-- The text of a number has digits only. -/
theorem all_isDigit_toDigits (n : Nat) : (Nat.toDigits 10 n).all isDigit = true := by
  rw [List.all_eq_true]
  intro c hc
  have hdigit := Nat.isDigit_of_mem_toDigits (by decide) (by decide) hc
  simpa [isDigit, Char.isDigit, Char.le_def] using hdigit

/-- Digits read back as the number that they are the text of. -/
theorem ofDigits_toDigits (n : Nat) : ofDigits (Nat.toDigits 10 n) = n :=
  Nat.ofDigitChars_ten_toDigits

/-- The text of a number other than zero does not begin with a zero. -/
theorem head?_toDigits_ne {n : Nat} (h : 0 < n) : (Nat.toDigits 10 n).head? ≠ some '0' := by
  induction n using Nat.base_induction 10 (by decide) with
  | single m hm =>
      have hdigits : ∀ m < 10, 0 < m → [Nat.digitChar m].head? ≠ some '0' := by decide
      rw [Nat.toDigits_of_lt_base hm]
      exact hdigits m hm h
  | digit m k hk hm ih =>
      rw [← Nat.toDigits_append_toDigits (by decide) hm hk]
      have hhead : (Nat.toDigits 10 m).head? = some ((Nat.toDigits 10 m).head Nat.toDigits_ne_nil) :=
        List.head?_eq_some_head Nat.toDigits_ne_nil
      have hzero := ih hm
      rw [List.head?_append, hhead, Option.some_or]
      rwa [hhead] at hzero

/-- **An index reads back from its text.** -/
theorem arrayIndex?_toString {index : Nat} (h : index < indexBound) :
    arrayIndex? (toString index) = some index := by
  have htext : (toString index).toList = Nat.toDigits 10 index := Nat.toList_repr
  unfold arrayIndex?
  rw [htext]
  cases hdigits : Nat.toDigits 10 index with
  | nil => exact absurd hdigits Nat.toDigits_ne_nil
  | cons first rest =>
      have hall := all_isDigit_toDigits index
      have hvalue := ofDigits_toDigits index
      have hfirst : (first != '0' || rest.isEmpty) = true := by
        rcases Nat.eq_zero_or_pos index with rfl | hpos
        · rw [Nat.toDigits_zero] at hdigits
          cases hdigits
          rfl
        · have hhead := head?_toDigits_ne hpos
          rw [hdigits, List.head?_cons] at hhead
          have hne : first ≠ '0' := fun heq => hhead (congrArg some heq)
          rw [bne_iff_ne.mpr hne, Bool.true_or]
      rw [hdigits] at hall hvalue
      simp only [hall, hfirst, hvalue, Bool.and_self, if_true, if_pos h]

/-- A digit is the text of its value. -/
theorem toDigits_of_isDigit {c : Char} (h : isDigit c = true) :
    Nat.toDigits 10 (c.toNat - '0'.toNat) = [c] ∧ c.toNat - '0'.toNat < 10 := by
  have hall : ∀ n < 10, Nat.digitChar n = Char.ofNat (48 + n) := by decide
  have hrange : 48 ≤ c.toNat ∧ c.toNat ≤ 57 := by
    simpa [isDigit, Char.le_def, UInt32.le_iff_toNat_le] using h
  have hzero : '0'.toNat = 48 := rfl
  have hlt : c.toNat - '0'.toNat < 10 := by omega
  refine ⟨?_, hlt⟩
  rw [Nat.toDigits_of_lt_base hlt, hall _ hlt, hzero, Nat.add_sub_cancel' hrange.1,
    Char.ofNat_toNat]

/-- **Digits are the text of the number that they are read as**, unless there is a zero too many in
front of them. -/
theorem toDigits_ofDigits {digits : List Char} (hne : digits ≠ [])
    (hall : digits.all isDigit = true) (hzero : digits.head? ≠ some '0' ∨ digits.length = 1) :
    Nat.toDigits 10 (ofDigits digits) = digits := by
  -- The number grows by its last digit, as its text does.
  induction digits using List.reverseRecOn with
  | nil => exact absurd rfl hne
  | append_singleton front c ih =>
      rw [List.all_append, List.all_cons, List.all_nil, Bool.and_true, Bool.and_eq_true] at hall
      obtain ⟨hc, hlt⟩ := toDigits_of_isDigit hall.2
      have hstep : ofDigits (front ++ [c]) = 10 * ofDigits front + (c.toNat - '0'.toNat) := by
        simp [ofDigits]
      cases front with
      | nil =>
          rw [hstep]
          exact (congrArg (Nat.toDigits 10) (Nat.zero_add _)).trans hc
      | cons first others =>
          have hhead : first ≠ '0' := by simpa using hzero
          have hfront := ih (List.cons_ne_nil first others) hall.1 (.inl (by simpa using hhead))
          have hpos : 0 < ofDigits (first :: others) := by
            rcases Nat.eq_zero_or_pos (ofDigits (first :: others)) with hnone | hpos
            · rw [hnone, Nat.toDigits_zero] at hfront
              exact absurd (List.cons.inj hfront).1.symm hhead
            · exact hpos
          rw [hstep, ← Nat.toDigits_append_toDigits (by decide) hpos hlt, hfront, hc]

/-- **An index has no other text than its own.** -/
theorem toString_of_arrayIndex? {key : String} {index : Nat} (h : arrayIndex? key = some index) :
    toString index = key := by
  unfold arrayIndex? at h
  cases hkey : key.toList with
  | nil =>
      rw [hkey] at h
      cases h
  | cons first rest =>
      rw [hkey] at h
      have hparts : ((first :: rest).all isDigit = true ∧ (first ≠ '0' ∨ rest = [])) ∧
          ofDigits (first :: rest) < indexBound ∧ ofDigits (first :: rest) = index := by
        simpa using h
      obtain ⟨⟨hall, hzero⟩, -, rfl⟩ := hparts
      have hcanonical : (first :: rest).head? ≠ some '0' ∨ (first :: rest).length = 1 := by
        simpa using hzero
      have htext := toDigits_ofDigits (List.cons_ne_nil first rest) hall hcanonical
      exact String.toList_inj.mp (Nat.toList_repr.trans (htext.trans hkey.symm))

/-- Different texts are different indices. -/
theorem arrayIndex?_inj {first second : String} {index : Nat} (hfirst : arrayIndex? first = some index)
    (hsecond : arrayIndex? second = some index) : first = second :=
  (toString_of_arrayIndex? hfirst).symm.trans (toString_of_arrayIndex? hsecond)

/-- What is read as an index is one. -/
theorem lt_indexBound_of_arrayIndex? {key : String} {index : Nat} (h : arrayIndex? key = some index) :
    index < indexBound := by
  unfold arrayIndex? at h
  split at h
  · cases h
  · split at h
    · dsimp only at h
      split at h
      · next hlt =>
          cases h
          exact hlt
      · cases h
    · cases h

/-- **An index has one text**, its decimal notation, and nothing else is read as an index. -/
theorem arrayIndex?_eq_some_iff {key : String} {index : Nat} :
    arrayIndex? key = some index ↔ index < indexBound ∧ key = toString index := by
  constructor
  · intro h
    exact ⟨lt_indexBound_of_arrayIndex? h, (toString_of_arrayIndex? h).symm⟩
  · rintro ⟨hlt, rfl⟩
    exact arrayIndex?_toString hlt

/-- **The names of elements stand in the order of the elements**, each at its own index. -/
theorem getElem?_indexNames_eq_some_iff {count index : Nat} {name : String} :
    (indexNames count)[index]? = some name ↔ arrayIndex? name = some index ∧ index < count := by
  rw [indexNames, List.getElem?_map, Option.map_eq_some_iff]
  constructor
  · rintro ⟨place, hplace, rfl⟩
    obtain ⟨hlt, rfl⟩ : index < min count indexBound ∧ index = place := by
      simpa [List.getElem?_eq_some_iff] using hplace
    exact ⟨arrayIndex?_toString (by omega), by omega⟩
  · rintro ⟨hindex, hlt⟩
    have hbound := lt_indexBound_of_arrayIndex? hindex
    exact ⟨index, List.getElem?_range (by omega), toString_of_arrayIndex? hindex⟩

/-- **The names of elements** are the texts of their indices. -/
theorem mem_indexNames_iff {count : Nat} {key : String} :
    key ∈ indexNames count ↔ ∃ index, arrayIndex? key = some index ∧ index < count := by
  rw [List.mem_iff_getElem?]
  exact exists_congr fun index => getElem?_indexNames_eq_some_iff

theorem length_indexNames (count : Nat) : (indexNames count).length = min count indexBound := by
  rw [indexNames, List.length_map, List.length_range]

/-- Every index has an element, whose name comes with it. -/
theorem map_fst_zip_indexNames {α : Type} (items : List α) :
    ((indexNames items.length).zip items).map (·.1) = indexNames items.length := by
  refine List.map_fst_zip ?_
  rw [length_indexNames]
  exact Nat.min_le_left _ _

/-- **The name of an element is read as its index.** -/
theorem getElem?_of_mem_zip_indexNames {α : Type} {items : List α} {element : String × α}
    (h : element ∈ (indexNames items.length).zip items) :
    ((arrayIndex? element.1).bind fun index => items[index]?) = some element.2 := by
  obtain ⟨index, hget⟩ := List.mem_iff_getElem?.mp h
  obtain ⟨hname, hitem⟩ := List.getElem?_zip_eq_some.mp hget
  obtain ⟨hindex, -⟩ := getElem?_indexNames_eq_some_iff.mp hname
  rw [hindex, Option.bind_some, hitem]

/-- **The names of elements are read as their indices**, in order. -/
theorem forall₂_indexNames {α : Type} (items : List α) :
    List.Forall₂ (fun name item => ((arrayIndex? name).bind fun index => items[index]?) = some item)
      (indexNames items.length) (items.take indexBound) := by
  have hlength : (indexNames items.length).length = (items.take indexBound).length := by
    rw [length_indexNames, List.length_take, Nat.min_comm]
  refine List.forall₂_iff_zip.mpr ⟨hlength, fun {name item} hmem => ?_⟩
  -- There is no name for what an index does not reach.
  have hnames : (indexNames items.length).take indexBound = indexNames items.length :=
    List.take_of_length_le (length_indexNames _ ▸ Nat.min_le_right _ _)
  rw [← hnames, List.zip, ← List.take_zipWith] at hmem
  have hread := getElem?_of_mem_zip_indexNames (List.mem_of_mem_take hmem)
  exact hread

/-- The names given to the elements of an array reach them. -/
theorem Value.exists_child?_of_mem_indexNames {items : List Value} {name : String}
    (h : name ∈ indexNames items.length) :
    ∃ item ∈ items, (Value.array items).child? name = some item := by
  rw [← map_fst_zip_indexNames items] at h
  obtain ⟨element, helement, rfl⟩ := List.mem_map.mp h
  exact ⟨element.2, (List.of_mem_zip helement).2, getElem?_of_mem_zip_indexNames helement⟩

/-- **The names of elements reach them in order.** -/
theorem Value.forall₂_child?_indexNames (items : List Value) :
    List.Forall₂ (fun name item => (Value.array items).child? name = some item)
      (indexNames items.length) (items.take indexBound) :=
  forall₂_indexNames items

end PathExpr
