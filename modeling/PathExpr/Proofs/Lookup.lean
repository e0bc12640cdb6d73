/-!
# Look-ups in lists of pairs

The tables of a dialect, the members of an object and the entries of a cache are lists of pairs, in
which the first pair of a key counts.
-/

namespace PathExpr

variable {α β : Type} [BEq α] [LawfulBEq α] {entries : List (α × β)} {key : α} {value : β}

/-- What is found under a key is an entry. -/
theorem mem_of_lookup (h : entries.lookup key = some value) : (key, value) ∈ entries := by
  obtain ⟨before, after, hentries, -⟩ := List.lookup_eq_some_iff.mp h
  rw [hentries]
  exact List.mem_append_right before List.mem_cons_self

/-- An entry is not missed. -/
theorem lookup_ne_none (h : (key, value) ∈ entries) : entries.lookup key ≠ none := by
  intro hnone
  have hne := List.lookup_eq_none_iff.mp hnone (key, value) h
  simp at hne

/-- Where no key occurs twice, every entry is found. -/
theorem lookup_eq_some_iff (hnodup : (entries.map (·.1)).Nodup) :
    entries.lookup key = some value ↔ (key, value) ∈ entries := by
  constructor
  · exact mem_of_lookup
  · intro h
    induction entries with
    | nil => cases h
    | cons entry rest ih =>
        obtain ⟨hfresh, hrest⟩ := List.nodup_cons.mp hnodup
        rcases List.mem_cons.mp h with hfirst | hmem
        · subst hfirst
          exact List.lookup_cons_self
        · have hne : key ≠ entry.1 := by
            rintro rfl
            exact hfresh (List.mem_map.mpr ⟨(entry.1, value), hmem, rfl⟩)
          rw [List.lookup_cons, beq_false_of_ne hne]
          exact ih hrest hmem

end PathExpr
