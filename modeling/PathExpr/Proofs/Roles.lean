import PathExpr.Dialect.Basic
import PathExpr.Proofs.Lookup

/-!
# Every character has one role

`Dialect.ofTables` checks the bindings of its tables one after the other.  What it accepts is a
*consistent* dialect (`Dialect.Consistent`): no reserved character is bound, and none is bound twice.
So the tables may be read in any order, and a character has a role in the dialect exactly if a table
gives it that role (`Dialect.Consistent.roleOf?_eq_some_iff`).

The test for runs of plain names has a list of its own, which holds exactly the special characters
other than the property separator (`Dialect.Consistent.mem_complications`).
-/

namespace PathExpr

/-- A list of lists without repetition tells from an item in which of them it is. -/
theorem eq_of_mem_flatMap {α β : Type} {f : α → List β} {l : List α} (h : (l.flatMap f).Nodup)
    {x y : α} (hx : x ∈ l) (hy : y ∈ l) {b : β} (hbx : b ∈ f x) (hby : b ∈ f y) : x = y := by
  induction l with
  | nil => cases hx
  | cons z rest ih =>
      rw [List.flatMap_cons, List.nodup_append] at h
      obtain ⟨-, hrest, hne⟩ := h
      rcases List.mem_cons.mp hx with hxz | hx <;> rcases List.mem_cons.mp hy with hyz | hy
      · rw [hxz, hyz]
      · exact absurd rfl (hne b (hxz ▸ hbx) b (List.mem_flatMap.mpr ⟨y, hy, hby⟩))
      · exact absurd rfl (hne b (hyz ▸ hby) b (List.mem_flatMap.mpr ⟨x, hx, hbx⟩))
      · exact ih hrest hx hy

/-! ### Tables -/

namespace Tables

/-- **What the check of bindings asks for**: no character is reserved, taken, or bound twice. -/
theorem checkBindings_eq_ok_iff {taken rest : List (Char × Binding)} :
    checkBindings taken rest = .ok () ↔
      (rest.map (·.1)).Nodup ∧
        ∀ entry ∈ rest, entry.1 ≠ wildcardMark ∧ entry.1 ≠ escapeMark ∧
          taken.lookup entry.1 = none := by
  induction rest generalizing taken with
  | nil => simp [checkBindings]
  | cons entry rest ih =>
      obtain ⟨c, binding⟩ := entry
      rw [checkBindings]
      by_cases hreserved : c = wildcardMark ∨ c = escapeMark
      · rw [if_pos hreserved]
        constructor
        · intro h
          cases h
        · rintro ⟨-, h⟩
          have hc := h (c, binding) List.mem_cons_self
          exact absurd hreserved (not_or.mpr ⟨hc.1, hc.2.1⟩)
      · rw [if_neg hreserved]
        cases htaken : taken.lookup c with
        | some first =>
            constructor
            · intro h
              cases h
            · rintro ⟨-, h⟩
              have hc := h (c, binding) List.mem_cons_self
              exact nomatch htaken.symm.trans hc.2.2
        | none =>
            have hfree : c ≠ wildcardMark ∧ c ≠ escapeMark := not_or.mp hreserved
            simp only [ih, List.map_cons, List.nodup_cons, List.forall_mem_cons, htaken]
            constructor
            · rintro ⟨hnodup, hrest⟩
              refine ⟨⟨?_, hnodup⟩, ⟨hfree.1, hfree.2, trivial⟩, fun other hother => ?_⟩
              · intro hmem
                obtain ⟨other, hother, rfl⟩ := List.mem_map.mp hmem
                have hlookup := (hrest other hother).2.2
                simp at hlookup
              · obtain ⟨hwildcard, hescape, hlookup⟩ := hrest other hother
                rw [List.lookup_cons] at hlookup
                split at hlookup
                · cases hlookup
                · exact ⟨hwildcard, hescape, hlookup⟩
            · rintro ⟨⟨hnew, hnodup⟩, -, hrest⟩
              refine ⟨hnodup, fun other hother => ?_⟩
              obtain ⟨hwildcard, hescape, hlookup⟩ := hrest other hother
              have hne : other.1 ≠ c := by
                rintro rfl
                exact hnew (List.mem_map_of_mem hother)
              exact ⟨hwildcard, hescape, by rw [List.lookup_cons, beq_false_of_ne hne]; exact hlookup⟩

/-- **The role that tables give to a character.** -/
def Gives (tables : Tables) (c : Char) : CharRole → Prop
  | .modifier role => (c, role) ∈ tables.modifiers
  | .separator role => (c, role) ∈ tables.separators
  | .opener role closer => (c, role, closer) ∈ tables.containers
  | .closer role => ∃ opener, opener ≠ c ∧ (opener, role, c) ∈ tables.containers

/-- An entry of one of the three tables. -/
inductive Entry where
  | modifier (c : Char) (role : ModifierRole)
  | separator (c : Char) (role : SeparatorRole)
  | container (opener : Char) (role : ContainerRole) (closer : Char)

namespace Entry

/-- The characters that an entry binds. -/
def marks : Entry → List Char
  | .modifier c _ | .separator c _ => [c]
  | .container opener _ closer => opener :: if closer = opener then [] else [closer]

/-- The role that an entry gives to a character. -/
def roleOf? (c : Char) : Entry → Option CharRole
  | .modifier d role => if d = c then some (.modifier role) else none
  | .separator d role => if d = c then some (.separator role) else none
  | .container opener role closer =>
      if opener = c then some (.opener role closer)
      else if closer = c then some (.closer role) else none

/-- An entry gives a role only to what it binds. -/
theorem mem_marks_of_roleOf? {entry : Entry} {c : Char} {role : CharRole}
    (h : entry.roleOf? c = some role) : c ∈ entry.marks := by
  cases entry with
  | modifier d role => simp_all [roleOf?, marks]
  | separator d role => simp_all [roleOf?, marks]
  | container opener role closer =>
      unfold roleOf? at h
      by_cases hopener : opener = c
      · simp [marks, hopener]
      · by_cases hcloser : closer = c
        · subst hcloser
          simp [marks, Ne.symm hopener]
        · simp [hopener, hcloser] at h

end Entry

/-- The entries of all three tables. -/
def entries (tables : Tables) : List Entry :=
  tables.modifiers.map (fun (c, role) => .modifier c role) ++
  tables.separators.map (fun (c, role) => .separator c role) ++
  tables.containers.map fun (opener, role, closer) => .container opener role closer

/-- What is bound is what the entries bind. -/
theorem bindings_map_fst (tables : Tables) :
    tables.bindings.map (·.1) = tables.entries.flatMap Entry.marks := by
  have hmarks : ∀ entry : Char × ContainerRole × Char,
      ((entry.1, Binding.opener entry.2.1) ::
        if entry.2.2 = entry.1 then [] else [(entry.2.2, Binding.closer entry.2.1)]).map (·.1) =
      (Entry.container entry.1 entry.2.1 entry.2.2).marks := by
    intro entry
    unfold Entry.marks
    split <;> simp_all
  unfold bindings entries
  simp only [List.map_append, List.map_map, List.map_flatMap, List.flatMap_append,
    List.flatMap_map, hmarks]
  congr 2 <;> exact List.map_eq_flatMap ..

/-- What gives a character its role is an entry. -/
theorem Gives.exists_entry {tables : Tables} {c : Char} {role : CharRole}
    (h : tables.Gives c role) : ∃ entry ∈ tables.entries, entry.roleOf? c = some role := by
  simp only [entries, List.mem_append, List.mem_map]
  cases role with
  | modifier role => exact ⟨.modifier c role, .inl (.inl ⟨_, h, rfl⟩), if_pos rfl⟩
  | separator role => exact ⟨.separator c role, .inl (.inr ⟨_, h, rfl⟩), if_pos rfl⟩
  | opener role closer => exact ⟨.container c role closer, .inr ⟨_, h, rfl⟩, if_pos rfl⟩
  | closer role =>
      obtain ⟨opener, hne, h⟩ := h
      refine ⟨.container opener role c, .inr ⟨_, h, rfl⟩, ?_⟩
      simp [Entry.roleOf?, hne]

/-- A character with a role is bound. -/
theorem Gives.mem_bindings {tables : Tables} {c : Char} {role : CharRole} (h : tables.Gives c role) :
    c ∈ tables.bindings.map (·.1) := by
  obtain ⟨entry, hentry, hrole⟩ := h.exists_entry
  rw [bindings_map_fst]
  exact List.mem_flatMap.mpr ⟨entry, hentry, Entry.mem_marks_of_roleOf? hrole⟩

/-- **If no character is bound twice, a character is given one role at most.** -/
theorem Gives.unique {tables : Tables} (hnodup : (tables.bindings.map (·.1)).Nodup) {c : Char}
    {role other : CharRole} (h : tables.Gives c role) (hother : tables.Gives c other) :
    role = other := by
  obtain ⟨entry, hentry, hrole⟩ := h.exists_entry
  obtain ⟨entry', hentry', hrole'⟩ := hother.exists_entry
  rw [bindings_map_fst] at hnodup
  have heq : entry = entry' := eq_of_mem_flatMap hnodup hentry hentry'
    (Entry.mem_marks_of_roleOf? hrole) (Entry.mem_marks_of_roleOf? hrole')
  rw [heq, hrole'] at hrole
  exact (Option.some.inj hrole).symm

end Tables

/-! ### Dialects -/

namespace Dialect

/-- **A consistent dialect**: no reserved character is bound, none is bound twice, and the property
separator is one. -/
structure Consistent (dialect : Dialect) : Prop where
  nodup : (dialect.tables.bindings.map (·.1)).Nodup
  unreserved : ∀ entry ∈ dialect.tables.bindings, entry.1 ≠ wildcardMark ∧ entry.1 ≠ escapeMark
  property_mem : (dialect.property, .property) ∈ dialect.tables.separators

/-- **Accepted tables make a consistent dialect** that is not simple. -/
theorem of_ofTables {tables : Tables} {dialect : Dialect} (h : ofTables tables = .ok dialect) :
    dialect.Consistent ∧ dialect.tables = tables ∧ dialect.simple = false := by
  unfold ofTables at h
  split at h
  · cases h
  · next hcheck =>
      split at h
      · next property hproperty =>
          cases h
          obtain ⟨hnodup, hfree⟩ := Tables.checkBindings_eq_ok_iff.mp hcheck
          obtain ⟨entry, hfind, rfl⟩ := Option.map_eq_some_iff.mp hproperty
          have hrole : entry.2 = SeparatorRole.property := by simpa using List.find?_some hfind
          refine ⟨⟨hnodup, fun entry hentry => ?_, ?_⟩, rfl, rfl⟩
          · exact ⟨(hfree entry hentry).1, (hfree entry hentry).2.1⟩
          · have hmem := List.mem_of_find?_eq_some hfind
            rwa [← hrole]
      · cases h

/-- Tables that give fewer roles, and the same to separators, are accepted as well. -/
theorem ofTables_of_sublist {tables fewer : Tables} {dialect : Dialect}
    (h : ofTables tables = .ok dialect) (hseparators : fewer.separators = tables.separators)
    (hbindings : fewer.bindings.Sublist tables.bindings) :
    ofTables fewer = .ok ⟨fewer, dialect.property, false⟩ := by
  unfold ofTables at h ⊢
  split at h
  · cases h
  · next hcheck =>
      obtain ⟨hnodup, hfree⟩ := Tables.checkBindings_eq_ok_iff.mp hcheck
      have hfewer : Tables.checkBindings [] fewer.bindings = .ok () :=
        Tables.checkBindings_eq_ok_iff.mpr
          ⟨(hbindings.map _).nodup hnodup, fun entry hentry => hfree entry (hbindings.subset hentry)⟩
      have hproperty : fewer.property? = tables.property? := by
        rw [Tables.property?, Tables.property?, hseparators]
      rw [hfewer, hproperty]
      split at h
      · next property hfound =>
          cases h
          rfl
      · cases h

/-- The default dialect is consistent. -/
theorem consistent_standard : standard.Consistent := (of_ofTables ofTables_standardTables).1

/-- What the look-up of a role finds is given by a table. -/
theorem gives_of_roleOf? {dialect : Dialect} {c : Char} {role : CharRole}
    (h : dialect.roleOf? c = some role) : dialect.tables.Gives c role := by
  unfold roleOf? at h
  split at h
  · next found hfound =>
      cases h
      exact mem_of_lookup hfound
  · split at h
    · next found hfound =>
        cases h
        exact mem_of_lookup hfound
    · split at h
      · next found closer hfound =>
          cases h
          exact mem_of_lookup hfound
      · next hopener =>
          obtain ⟨found, hfound, rfl⟩ := Option.map_eq_some_iff.mp h
          obtain ⟨⟨opener, role, closer⟩, hmem, hentry⟩ :=
            List.mem_map.mp (mem_of_lookup hfound)
          cases hentry
          refine ⟨opener, ?_, hmem⟩
          rintro rfl
          exact lookup_ne_none hmem hopener

/-- A character that a table gives a role is not found without one. -/
theorem roleOf?_ne_none {dialect : Dialect} {c : Char} {role : CharRole}
    (h : dialect.tables.Gives c role) : dialect.roleOf? c ≠ none := by
  unfold roleOf?
  split
  · simp
  · next hmodifier =>
      split
      · simp
      · next hseparator =>
          split
          · simp
          · next hopener =>
              cases role with
              | modifier role => exact absurd hmodifier (lookup_ne_none h)
              | separator role => exact absurd hseparator (lookup_ne_none h)
              | opener role closer => exact absurd hopener (lookup_ne_none h)
              | closer role =>
                  obtain ⟨opener, -, h⟩ := h
                  have hcloser : (c, role) ∈ dialect.tables.closers :=
                    List.mem_map.mpr ⟨_, h, rfl⟩
                  simpa using lookup_ne_none hcloser

namespace Consistent

variable {dialect : Dialect}

/-- **A character has the role that a table gives it.** -/
theorem roleOf?_eq_some_iff (h : dialect.Consistent) {c : Char} {role : CharRole} :
    dialect.roleOf? c = some role ↔ dialect.tables.Gives c role := by
  constructor
  · exact gives_of_roleOf?
  · intro hgives
    obtain ⟨found, hfound⟩ := Option.ne_none_iff_exists'.mp (roleOf?_ne_none hgives)
    rw [hfound, Tables.Gives.unique h.nodup hgives (gives_of_roleOf? hfound)]

/-- A character with a role is not reserved. -/
theorem ne_reserved (h : dialect.Consistent) {c : Char} {role : CharRole}
    (hrole : dialect.roleOf? c = some role) : c ≠ wildcardMark ∧ c ≠ escapeMark := by
  obtain ⟨entry, hentry, rfl⟩ := List.mem_map.mp (gives_of_roleOf? hrole).mem_bindings
  exact h.unreserved entry hentry

/-- The closer of a container is not reserved. -/
theorem closer_ne_escapeMark (h : dialect.Consistent) {opener closer : Char} {role : ContainerRole}
    (hrole : dialect.roleOf? opener = some (.opener role closer)) : closer ≠ escapeMark := by
  by_cases hsame : opener = closer
  · rw [← hsame]
    exact (h.ne_reserved hrole).2
  · have hgives : dialect.tables.Gives closer (.closer role) :=
      ⟨opener, hsame, gives_of_roleOf? hrole⟩
    exact (h.ne_reserved (h.roleOf?_eq_some_iff.mpr hgives)).2

/-- The property separator separates properties. -/
theorem roleOf?_property (h : dialect.Consistent) :
    dialect.roleOf? dialect.property = some (.separator .property) :=
  h.roleOf?_eq_some_iff.mpr h.property_mem

/-- The opener of a container opens it. -/
theorem roleOf?_of_container? (h : dialect.Consistent) {role : ContainerRole} {opener closer : Char}
    (hcontainer : dialect.container? role = some (opener, closer)) :
    dialect.roleOf? opener = some (.opener role closer) := by
  obtain ⟨⟨found, foundRole, foundCloser⟩, hfind, hentry⟩ := Option.map_eq_some_iff.mp hcontainer
  cases hentry
  have hrole : foundRole = role := by simpa using List.find?_some hfind
  refine h.roleOf?_eq_some_iff.mpr ?_
  rw [← hrole]
  exact List.mem_of_find?_eq_some hfind

end Consistent

/-! ### Special characters -/

/-- What it is not to be special. -/
theorem isSpecial_eq_false_iff {dialect : Dialect} (hsimple : dialect.simple = false) {c : Char} :
    dialect.isSpecial c = false ↔
      c ≠ wildcardMark ∧ c ≠ escapeMark ∧ dialect.roleOf? c = none := by
  simp [isSpecial, hsimple, and_assoc]

/-- A character with a role is special. -/
theorem isSpecial_of_roleOf? {dialect : Dialect} (hsimple : dialect.simple = false) {c : Char}
    {role : CharRole} (h : dialect.roleOf? c = some role) : dialect.isSpecial c = true := by
  simp [isSpecial, hsimple, h]

/-- **What keeps a path expression from being split at once** are the special characters, the property
separator apart. -/
theorem Consistent.mem_complications {dialect : Dialect} (h : dialect.Consistent)
    (hsimple : dialect.simple = false) {c : Char} :
    c ∈ dialect.complications ↔ dialect.isSpecial c = true ∧ c ≠ dialect.property := by
  constructor
  · intro hmem
    -- Each of the lists is of characters with a role, and another one than the separator has.
    have hgiven : ∀ role, role ≠ .separator .property → dialect.tables.Gives c role →
        dialect.isSpecial c = true ∧ c ≠ dialect.property := by
      intro role hne hgives
      have hrole := h.roleOf?_eq_some_iff.mpr hgives
      refine ⟨isSpecial_of_roleOf? hsimple hrole, ?_⟩
      rintro rfl
      exact hne (Option.some.inj (hrole.symm.trans h.roleOf?_property))
    simp only [complications, List.mem_append, or_assoc] at hmem
    rcases hmem with hmem | hmem | hmem | hmem | hmem
    · obtain ⟨⟨_, role⟩, hentry, rfl⟩ := List.mem_map.mp hmem
      exact hgiven (.modifier role) nofun hentry
    · obtain ⟨hmem, hne⟩ := List.mem_filter.mp hmem
      obtain ⟨⟨c, role⟩, hentry, rfl⟩ := List.mem_map.mp hmem
      have hgives : dialect.tables.Gives c (.separator role) := hentry
      have hrole := h.roleOf?_eq_some_iff.mpr hgives
      exact ⟨isSpecial_of_roleOf? hsimple hrole, by simpa using hne⟩
    · obtain ⟨⟨_, role, closer⟩, hentry, rfl⟩ := List.mem_map.mp hmem
      exact hgiven (.opener role closer) nofun hentry
    · obtain ⟨_, hentry, rfl⟩ := List.mem_map.mp hmem
      obtain ⟨⟨opener, role, closer⟩, hcontainer, rfl⟩ := List.mem_map.mp hentry
      by_cases hsame : opener = closer
      · subst hsame
        exact hgiven (.opener role opener) nofun hcontainer
      · exact hgiven (.closer role) nofun ⟨opener, hsame, hcontainer⟩
    · have hreserved : c = wildcardMark ∨ c = escapeMark := by simpa using hmem
      refine ⟨by rcases hreserved with rfl | rfl <;> simp [isSpecial, hsimple], ?_⟩
      rintro rfl
      obtain ⟨hwildcard, hescape⟩ := h.ne_reserved h.roleOf?_property
      exact absurd hreserved (not_or.mpr ⟨hwildcard, hescape⟩)
  · rintro ⟨hspecial, hne⟩
    simp only [complications, List.mem_append, or_assoc]
    cases hrole : dialect.roleOf? c with
    | none =>
        have hreserved : c = wildcardMark ∨ c = escapeMark := by
          simpa [isSpecial, hsimple, hrole] using hspecial
        simp [hreserved]
    | some role =>
        have hgives := gives_of_roleOf? hrole
        cases role with
        | modifier role => exact .inl (List.mem_map_of_mem hgives)
        | separator role =>
            refine .inr (.inl (List.mem_filter.mpr ⟨List.mem_map_of_mem hgives, ?_⟩))
            simpa using hne
        | opener role closer => exact .inr (.inr (.inl (List.mem_map_of_mem hgives)))
        | closer role =>
            obtain ⟨opener, -, hmem⟩ := hgives
            have hcloser : (c, role) ∈ dialect.tables.closers := List.mem_map.mpr ⟨_, hmem, rfl⟩
            exact .inr (.inr (.inr (.inl (List.mem_map_of_mem hcloser))))

end Dialect

end PathExpr
