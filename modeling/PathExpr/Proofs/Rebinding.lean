import Mathlib.Data.List.Flatten
import Mathlib.Data.List.Nodup
import PathExpr.Proofs.Acceptance

/-!
# Rebinding one role

Modifiers, separators and containers are rebound by three operations that do the same to their tables:
the entries of the role go, and one new entry comes (`Tables.rebind`).  So what the new tables give is
said at once for all three (`Tables.gives_rebind_iff`): what the new entry gives, and what the old tables
give of other roles.

That an operation also looks at its own table, and refuses a character that has another role there, does
not change what is accepted (`Dialect.rebind_cases`).  With one role taken out, the check of the tables can
only fail on the new entry, that is on a character that is reserved or has another role.
-/

namespace PathExpr

/-- **A role of any kind.**  Both marks of a container have the role of the container. -/
inductive Role where
  | modifier (role : ModifierRole)
  | separator (role : SeparatorRole)
  | container (role : ContainerRole)
  deriving DecidableEq

/-- The role that a character is bound to by what it means. -/
def CharRole.role : CharRole → Role
  | .modifier role => .modifier role
  | .separator role => .separator role
  | .opener role _ | .closer role => .container role

/-! ### Tables with a role rebound -/

namespace Tables

/-- The role that an entry is of. -/
def Entry.role : Entry → Role
  | .modifier _ role => .modifier role
  | .separator _ role => .separator role
  | .container _ role _ => .container role

/-- The property separator that an entry brings. -/
def Entry.property? : Entry → Option Char
  | .separator c .property => some c
  | _ => none

/-- What an entry gives is of its role. -/
theorem Entry.role_of_roleOf? {entry : Entry} {c : Char} {held : CharRole}
    (h : entry.roleOf? c = some held) : held.role = entry.role := by
  cases entry with
  | modifier d role | separator d role =>
      simp only [Entry.roleOf?, Option.ite_none_right_eq_some, Option.some.injEq] at h
      rw [← h.2]
      rfl
  | container opener role closer =>
      simp only [Entry.roleOf?] at h
      split at h
      · cases h
        rfl
      · simp only [Option.ite_none_right_eq_some, Option.some.injEq] at h
        rw [← h.2]
        rfl

/-- An entry gives a role to all that it binds. -/
theorem Entry.exists_roleOf? {entry : Entry} {c : Char} (h : c ∈ entry.marks) :
    ∃ held, entry.roleOf? c = some held := by
  cases entry with
  | modifier d role | separator d role =>
      obtain rfl := List.mem_singleton.mp h
      exact ⟨_, if_pos rfl⟩
  | container opener role closer =>
      simp only [Entry.roleOf?]
      by_cases hopener : opener = c
      · exact ⟨_, if_pos hopener⟩
      · have hcloser : closer = c := by
          by_cases hsame : closer = opener <;> simp_all [Entry.marks, eq_comm]
        exact ⟨_, by rw [if_neg hopener, if_pos hcloser]⟩

/-- **The property separator that an entry brings** is what it makes one. -/
theorem Entry.property?_eq_some_iff {entry : Entry} {c : Char} :
    entry.property? = some c ↔ entry.roleOf? c = some (.separator .property) := by
  constructor
  · intro h
    cases entry with
    | separator d role =>
        cases role with
        | property =>
            cases h
            exact if_pos rfl
        | _ => cases h
    | _ => cases h
  · intro h
    have hrole := role_of_roleOf? h
    cases entry with
    | separator d role =>
        cases hrole
        obtain rfl := List.mem_singleton.mp (mem_marks_of_roleOf? h)
        rfl
    | _ => cases hrole

/-- An entry of the role of property separators brings one. -/
theorem Entry.exists_property? {entry : Entry} (h : entry.role = .separator .property) :
    ∃ c, entry.property? = some c := by
  cases entry with
  | separator c role =>
      cases h
      exact ⟨c, rfl⟩
  | _ => cases h

/-- No character is bound twice by one entry. -/
theorem Entry.nodup_marks (entry : Entry) : entry.marks.Nodup := by
  cases entry with
  | modifier c role | separator c role => exact List.pairwise_singleton _ c
  | container opener role closer =>
      by_cases hsame : closer = opener
      · simp [Entry.marks, hsame]
      · simp [Entry.marks, hsame, Ne.symm hsame]

/-- **What the tables give is what their entries give.** -/
theorem gives_iff_exists_entry {tables : Tables} {c : Char} {held : CharRole} :
    tables.Gives c held ↔ ∃ entry ∈ tables.entries, entry.roleOf? c = some held := by
  constructor
  · exact Gives.exists_entry
  · rintro ⟨entry, hentry, hheld⟩
    simp only [entries, List.mem_append, List.mem_map] at hentry
    rcases hentry with (⟨⟨d, role⟩, hmem, rfl⟩ | ⟨⟨d, role⟩, hmem, rfl⟩) |
      ⟨⟨opener, role, closer⟩, hmem, rfl⟩
    · simp only [Entry.roleOf?, Option.ite_none_right_eq_some, Option.some.injEq] at hheld
      obtain ⟨rfl, rfl⟩ := hheld
      exact hmem
    · simp only [Entry.roleOf?, Option.ite_none_right_eq_some, Option.some.injEq] at hheld
      obtain ⟨rfl, rfl⟩ := hheld
      exact hmem
    · simp only [Entry.roleOf?] at hheld
      split at hheld
      · next hopener =>
          cases hheld
          exact hopener ▸ hmem
      · next hopener =>
          simp only [Option.ite_none_right_eq_some, Option.some.injEq] at hheld
          obtain ⟨rfl, rfl⟩ := hheld
          exact ⟨opener, hopener, hmem⟩

/-- **The tables with the role of an entry rebound** to what the entry binds. -/
def rebind (tables : Tables) : Entry → Tables
  | .modifier c role =>
      { tables with modifiers := Table.rebind tables.modifiers (· == role) c role }
  | .separator c role =>
      { tables with separators := Table.rebind tables.separators (· == role) c role }
  | .container opener role closer =>
      { tables with
        containers := Table.rebind tables.containers (·.1 == role) opener (role, closer) }

section Entries

variable {α : Type} (table : Table α) {toEntry : Char × α → Entry} {entry : Entry}

/-- A table of another kind has no entry of the role. -/
theorem filter_map_of_role_ne (h : ∀ old, (toEntry old).role ≠ entry.role) :
    (table.map toEntry).filter (fun old => old.role ≠ entry.role) = table.map toEntry := by
  refine List.filter_eq_self.mpr fun old hold => ?_
  obtain ⟨inner, -, rfl⟩ := List.mem_map.mp hold
  exact decide_eq_true (h inner)

/-- The entries of a table in which the role is rebound. -/
theorem map_rebind {hasRole : α → Bool} {c : Char} {new : α} (hnew : toEntry (c, new) = entry)
    (hrole : ∀ old : Char × α, hasRole old.2 = true ↔ (toEntry old).role = entry.role) :
    (Table.rebind table hasRole c new).map toEntry =
      (table.map toEntry).filter (fun old => old.role ≠ entry.role) ++ [entry] := by
  have hkept : ∀ old : Char × α,
      (!hasRole old.2) = ((fun old : Entry => decide (old.role ≠ entry.role)) ∘ toEntry) old := by
    intro old
    rw [Function.comp_apply, decide_not]
    exact congrArg not (Bool.eq_iff_iff.mpr ((hrole old).trans decide_eq_true_iff.symm))
  rw [Table.rebind, List.map_append, List.map_singleton, hnew, List.filter_map,
    List.filter_congr fun old _ => hkept old]

end Entries

/-- **Every entry of the role goes, and the new one comes.** -/
theorem entries_rebind_perm (tables : Tables) (entry : Entry) :
    (tables.rebind entry).entries.Perm
      (entry :: tables.entries.filter fun old => old.role ≠ entry.role) := by
  cases entry with
  | modifier c role =>
      rw [entries, entries, rebind, List.filter_append, List.filter_append,
        filter_map_of_role_ne tables.separators fun old => by simp [Entry.role],
        filter_map_of_role_ne tables.containers fun old => by simp [Entry.role],
        map_rebind tables.modifiers rfl fun old => by simp [Entry.role]]
      simp only [List.append_assoc, List.singleton_append]
      exact List.perm_middle
  | separator c role =>
      rw [entries, entries, rebind, List.filter_append, List.filter_append,
        filter_map_of_role_ne tables.modifiers fun old => by simp [Entry.role],
        filter_map_of_role_ne tables.containers fun old => by simp [Entry.role],
        map_rebind tables.separators rfl fun old => by simp [Entry.role],
        ← List.append_assoc, List.append_assoc, List.singleton_append]
      exact List.perm_middle
  | container opener role closer =>
      rw [entries, entries, rebind, List.filter_append, List.filter_append,
        filter_map_of_role_ne tables.modifiers fun old => by simp [Entry.role],
        filter_map_of_role_ne tables.separators fun old => by simp [Entry.role],
        map_rebind tables.containers rfl fun old => by simp [Entry.role],
        ← List.append_assoc]
      exact List.perm_append_singleton _ _

/-- **What rebound tables give**: what the new entry gives, and the other roles as before. -/
theorem gives_rebind_iff {tables : Tables} {entry : Entry} {c : Char} {held : CharRole} :
    (tables.rebind entry).Gives c held ↔
      entry.roleOf? c = some held ∨ (tables.Gives c held ∧ held.role ≠ entry.role) := by
  simp only [gives_iff_exists_entry, (entries_rebind_perm tables entry).mem_iff, List.mem_cons,
    List.mem_filter, decide_eq_true_eq]
  constructor
  · rintro ⟨old, rfl | ⟨hold, hrole⟩, hheld⟩
    · exact .inl hheld
    · exact .inr ⟨⟨old, hold, hheld⟩, Entry.role_of_roleOf? hheld ▸ hrole⟩
  · rintro (hheld | ⟨⟨old, hold, hheld⟩, hrole⟩)
    · exact ⟨entry, .inl rfl, hheld⟩
    · exact ⟨old, .inr ⟨hold, Entry.role_of_roleOf? hheld ▸ hrole⟩, hheld⟩

/-- To rebind a role leaves one property separator at most. -/
theorem OneProperty.rebind {tables : Tables} (h : tables.OneProperty) (entry : Entry) :
    (tables.rebind entry).OneProperty := by
  intro c d hc hd
  have hseparates : ∀ {c}, (c, SeparatorRole.property) ∈ (tables.rebind entry).separators →
      entry.property? = some c ∨
        ((c, SeparatorRole.property) ∈ tables.separators ∧ entry.property? = none) := by
    intro c hc
    rcases gives_rebind_iff.mp (show Gives _ c (.separator .property) from hc) with hnew | ⟨hold, hne⟩
    · exact .inl (Entry.property?_eq_some_iff.mpr hnew)
    · refine .inr ⟨hold, Option.eq_none_iff_forall_ne_some.mpr fun d hd => hne ?_⟩
      exact Entry.role_of_roleOf? (Entry.property?_eq_some_iff.mp hd)
  rcases hseparates hc with hc | ⟨hc, hnone⟩ <;> rcases hseparates hd with hd | ⟨hd, hnone'⟩
  · exact Option.some.inj (hc.symm.trans hd)
  · exact nomatch hc.symm.trans hnone'
  · exact nomatch hd.symm.trans hnone
  · exact h c d hc hd

end Tables

/-! ### Dialects with a role rebound -/

namespace Dialect

/-- The role that a character is bound to. -/
def boundTo? (dialect : Dialect) (c : Char) : Option Role := (dialect.roleOf? c).map CharRole.role

/-- **Rebind the role of an entry** to what the entry binds. -/
def rebind (dialect : Dialect) : Tables.Entry → Except ConfigError Dialect
  | .modifier c role => dialect.withModifier role c
  | .separator c role => dialect.withSeparator role c
  | .container opener role closer => dialect.withContainer role opener closer

variable {dialect next : Dialect} {entry : Tables.Entry}

/-- **What rebinding a role can do**: refuse a mark that has another role, or have the rebound tables
checked. -/
theorem rebind_cases (h : dialect.Consistent) (entry : Tables.Entry) :
    (∃ fault, dialect.rebind entry = .error fault ∧
      ∃ c ∈ entry.marks, ∃ held, dialect.roleOf? c = some held ∧ held.role ≠ entry.role) ∨
      dialect.rebind entry = ofTables (dialect.tables.rebind entry) := by
  cases entry with
  | modifier c role =>
      simp only [rebind, withModifier]
      split
      · next existing hfilter =>
          obtain ⟨hlookup, hne⟩ := Option.filter_eq_some_iff.mp hfilter
          refine .inl ⟨_, rfl, c, List.mem_singleton_self c, .modifier existing, ?_, ?_⟩
          · exact h.roleOf?_eq_some_iff.mpr (mem_of_lookup hlookup)
          · simpa [CharRole.role, Tables.Entry.role] using hne
      · exact .inr rfl
  | separator c role =>
      simp only [rebind, withSeparator]
      split
      · next existing hfilter =>
          obtain ⟨hlookup, hne⟩ := Option.filter_eq_some_iff.mp hfilter
          refine .inl ⟨_, rfl, c, List.mem_singleton_self c, .separator existing, ?_, ?_⟩
          · exact h.roleOf?_eq_some_iff.mpr (mem_of_lookup hlookup)
          · simpa [CharRole.role, Tables.Entry.role] using hne
      · exact .inr rfl
  | container opener role closer =>
      simp only [rebind, withContainer]
      split
      · next existing old hfilter =>
          obtain ⟨hlookup, hne⟩ := Option.filter_eq_some_iff.mp hfilter
          refine .inl ⟨_, rfl, opener, List.mem_cons_self, .opener existing old, ?_, ?_⟩
          · exact h.roleOf?_eq_some_iff.mpr (mem_of_lookup hlookup)
          · simpa [CharRole.role, Tables.Entry.role] using hne
      · exact .inr rfl

/-- **What a rebound role leaves behind** are the rebound tables. -/
theorem of_rebind (h : dialect.Consistent) (hnext : dialect.rebind entry = .ok next) :
    next.Consistent ∧ next.tables = dialect.tables.rebind entry := by
  rcases rebind_cases h entry with ⟨fault, hfault, -⟩ | htables
  · rw [hfault] at hnext
    cases hnext
  · rw [htables] at hnext
    obtain ⟨hconsistent, htables, -⟩ := of_ofTables hnext
    exact ⟨hconsistent, htables⟩

/-- **What characters mean once a role is rebound**: what the new entry gives, and the other roles as
before. -/
theorem roleOf?_of_rebind (h : dialect.Consistent) (hnext : dialect.rebind entry = .ok next) {c : Char}
    {held : CharRole} :
    next.roleOf? c = some held ↔
      entry.roleOf? c = some held ∨ (dialect.roleOf? c = some held ∧ held.role ≠ entry.role) := by
  obtain ⟨hconsistent, htables⟩ := of_rebind h hnext
  rw [hconsistent.roleOf?_eq_some_iff, htables, Tables.gives_rebind_iff, h.roleOf?_eq_some_iff]

/-- **A mark that an entry may bind**: it is not reserved, and it has no role or that of the entry. -/
structure Free (dialect : Dialect) (entry : Tables.Entry) (c : Char) : Prop where
  ne_wildcardMark : c ≠ wildcardMark
  ne_escapeMark : c ≠ escapeMark
  boundTo? : dialect.boundTo? c = none ∨ dialect.boundTo? c = some entry.role

/-- What a free mark means is of the role of the entry. -/
theorem Free.role_eq {c : Char} (h : dialect.Free entry c) {held : CharRole}
    (hheld : dialect.roleOf? c = some held) : held.role = entry.role := by
  have hbound := h.boundTo?
  simpa [Dialect.boundTo?, hheld] using hbound

/-- The marks that a role is rebound to were free. -/
theorem free_of_rebind (h : dialect.Consistent) (hnext : dialect.rebind entry = .ok next) {c : Char}
    (hc : c ∈ entry.marks) : dialect.Free entry c := by
  obtain ⟨new, hnew⟩ := Tables.Entry.exists_roleOf? hc
  have hrole : next.roleOf? c = some new := (roleOf?_of_rebind h hnext).mpr (.inl hnew)
  obtain ⟨hwildcard, hescape⟩ := (of_rebind h hnext).1.ne_reserved hrole
  refine ⟨hwildcard, hescape, ?_⟩
  unfold boundTo?
  cases hheld : dialect.roleOf? c with
  | none => exact .inl rfl
  | some held =>
      refine .inr (congrArg some ?_)
      by_contra hne
      -- With another role the character would mean two things.
      have hkept := (roleOf?_of_rebind h hnext).mpr (.inr ⟨hheld, hne⟩)
      rw [hrole] at hkept
      cases hkept
      exact hne (Tables.Entry.role_of_roleOf? hnew)

/-- **Rebound tables are sound** if the marks that come are free. -/
theorem sound_rebind (h : dialect.Consistent) (hfree : ∀ c ∈ entry.marks, dialect.Free entry c) :
    (dialect.tables.rebind entry).Sound := by
  set kept := dialect.tables.entries.filter fun old => old.role ≠ entry.role
  have hmarks : (dialect.tables.rebind entry).marks.Perm
      (entry.marks ++ kept.flatMap Tables.Entry.marks) :=
    (Tables.entries_rebind_perm dialect.tables entry).flatMap_right _
  have hsub : (kept.flatMap Tables.Entry.marks).Sublist dialect.tables.marks :=
    List.filter_sublist.flatMap _
  refine ⟨?_, fun c hc => ?_, ?_⟩
  · by_cases hrole : entry.role = .separator .property
    · obtain ⟨c, hc⟩ := Tables.Entry.exists_property? hrole
      exact ⟨c, Tables.gives_rebind_iff.mpr (.inl (Tables.Entry.property?_eq_some_iff.mp hc))⟩
    · have hgives : dialect.tables.Gives dialect.property (.separator .property) := h.property_mem
      exact ⟨dialect.property, Tables.gives_rebind_iff.mpr (.inr ⟨hgives, Ne.symm hrole⟩)⟩
  · rcases List.mem_append.mp (hmarks.mem_iff.mp hc) with hnew | hold
    · exact ⟨(hfree c hnew).ne_wildcardMark, (hfree c hnew).ne_escapeMark⟩
    · exact h.sound.unreserved c (hsub.subset hold)
  · refine hmarks.nodup_iff.mpr
      (List.nodup_append'.mpr ⟨entry.nodup_marks, hsub.nodup h.sound.distinct, ?_⟩)
    intro c hnew hold
    obtain ⟨old, hmem, hc⟩ := List.mem_flatMap.mp hold
    obtain ⟨hentry, hrole⟩ := List.mem_filter.mp hmem
    obtain ⟨held, hheld⟩ := Tables.Entry.exists_roleOf? hc
    have hgives := Tables.gives_iff_exists_entry.mpr ⟨old, hentry, hheld⟩
    have hsame := (hfree c hnew).role_eq (h.roleOf?_eq_some_iff.mpr hgives)
    rw [Tables.Entry.role_of_roleOf? hheld] at hsame
    exact absurd hsame (of_decide_eq_true hrole)

/-- **A role is rebound exactly if the marks that come are free.** -/
theorem exists_rebind_iff (h : dialect.Consistent) :
    (∃ next, dialect.rebind entry = .ok next) ↔ ∀ c ∈ entry.marks, dialect.Free entry c := by
  constructor
  · rintro ⟨next, hnext⟩ c hc
    exact free_of_rebind h hnext hc
  · intro hfree
    rcases rebind_cases h entry with ⟨fault, -, c, hc, held, hheld, hne⟩ | htables
    · exact absurd ((hfree c hc).role_eq hheld) hne
    · rw [htables]
      exact exists_ofTables (sound_rebind h hfree)

/-- **Properties are separated** by the new character if their separator is rebound, and else by the old
one. -/
theorem property_of_rebind (h : dialect.Consistent) (hone : dialect.tables.OneProperty)
    (hnext : dialect.rebind entry = .ok next) :
    next.property = entry.property?.getD dialect.property := by
  obtain ⟨hconsistent, htables⟩ := of_rebind h hnext
  have honly : next.tables.OneProperty := by
    rw [htables]
    exact hone.rebind entry
  have hproperty : ∀ {c}, next.roleOf? c = some (.separator .property) → next.property = c := by
    intro c hc
    exact ((hconsistent.property_mem_iff honly).mp (hconsistent.roleOf?_eq_some_iff.mp hc)).symm
  cases hnew : entry.property? with
  | some c =>
      exact hproperty ((roleOf?_of_rebind h hnext).mpr (.inl (Tables.Entry.property?_eq_some_iff.mp hnew)))
  | none =>
      refine hproperty ((roleOf?_of_rebind h hnext).mpr (.inr ⟨h.roleOf?_property, fun hrole => ?_⟩))
      obtain ⟨c, hc⟩ := Tables.Entry.exists_property? hrole.symm
      exact nomatch hnew.symm.trans hc

/-- **To rebind one role does that and nothing else.**  In a dialect of tables with one property separator,
an entry — a modifier, a separator or a container, with its marks — is accepted exactly if each of its
marks is free.  Then the marks mean what the entry says, every other character that was bound to the role
is a letter, every other character means what it did, and properties are separated by the new character if
their separator is what is rebound, and else by the old one. -/
theorem rebinding_changes_one_role {tables : Tables} (hdialect : ofTables tables = .ok dialect)
    (hone : tables.OneProperty) (entry : Tables.Entry) :
    ((∃ next, dialect.rebind entry = .ok next) ↔
      ∀ c ∈ entry.marks, c ≠ wildcardMark ∧ c ≠ escapeMark ∧
        (dialect.boundTo? c = none ∨ dialect.boundTo? c = some entry.role)) ∧
    ∀ next, dialect.rebind entry = .ok next →
      (∀ c ∈ entry.marks, next.roleOf? c = entry.roleOf? c) ∧
      (∀ c, c ∉ entry.marks → dialect.boundTo? c = some entry.role → next.roleOf? c = none) ∧
      (∀ c, c ∉ entry.marks → dialect.boundTo? c ≠ some entry.role →
        next.roleOf? c = dialect.roleOf? c) ∧
      next.property = entry.property?.getD dialect.property := by
  obtain ⟨hconsistent, htables, -⟩ := of_ofTables hdialect
  constructor
  · rw [exists_rebind_iff hconsistent]
    exact forall₂_congr fun c _ => ⟨fun h => ⟨h.1, h.2, h.3⟩, fun h => ⟨h.1, h.2.1, h.2.2⟩⟩
  intro next hnext
  have hmeans := @roleOf?_of_rebind _ _ _ hconsistent hnext
  have hnone : ∀ c, c ∉ entry.marks → entry.roleOf? c = none := by
    intro c hc
    by_contra hsome
    obtain ⟨held, hheld⟩ := Option.ne_none_iff_exists'.mp hsome
    exact hc (Tables.Entry.mem_marks_of_roleOf? hheld)
  refine ⟨fun c hc => ?_, fun c hc hbound => ?_, fun c hc hbound => ?_, ?_⟩
  · obtain ⟨new, hnew⟩ := Tables.Entry.exists_roleOf? hc
    rw [hnew]
    exact hmeans.mpr (.inl hnew)
  · refine Option.eq_none_iff_forall_ne_some.mpr fun held hheld => ?_
    rcases hmeans.mp hheld with hnew | ⟨hold, hne⟩
    · rw [hnone c hc] at hnew
      cases hnew
    · rw [boundTo?, hold] at hbound
      exact hne (Option.some.inj hbound)
  · refine Option.ext fun held => ?_
    rw [hmeans, hnone c hc]
    constructor
    · rintro (hnew | ⟨hold, -⟩)
      · cases hnew
      · exact hold
    · intro hold
      refine .inr ⟨hold, fun hrole => hbound ?_⟩
      rw [boundTo?, hold, Option.map_some, hrole]
  · exact property_of_rebind hconsistent (htables ▸ hone) hnext

/-- The marks of a container changed for each other, and a property separator that takes the place of the
old one, which a name may then hold. -/
theorem rebinding_changes_one_role_swapped :
    (ofTables standardTables = .ok standard ∧ standardTables.OneProperty) ∧
    (∃ next, standard.rebind (.container ']' .property '[') = .ok next ∧
      next.roleOf? ']' = some (.opener .property '[') ∧
      next.roleOf? '[' = some (.closer .property) ∧
      next.roleOf? '(' = standard.roleOf? '(' ∧ next.property = '.') ∧
    (∃ next, standard.rebind (.separator '/' .property) = .ok next ∧
      next.roleOf? '.' = none ∧ next.property = '/') ∧
    ∀ next, standard.rebind (.modifier '.' .root) ≠ .ok next := by
  have hone : standardTables.OneProperty := by
    intro c d hc hd
    simp_all [standardTables]
  have hchanges := rebinding_changes_one_role ofTables_standardTables hone
  refine ⟨⟨ofTables_standardTables, hone⟩, ?_, ?_, ?_⟩
  · obtain ⟨next, hnext⟩ := (hchanges (.container ']' .property '[')).1.mpr
      (List.forall_mem_cons.mpr ⟨by decide, List.forall_mem_singleton.mpr (by decide)⟩)
    obtain ⟨hmarks, -, hothers, hproperty⟩ := (hchanges _).2 next hnext
    exact ⟨next, hnext, hmarks ']' (by decide), hmarks '[' (by decide),
      hothers '(' (by decide) (by decide), hproperty⟩
  · obtain ⟨next, hnext⟩ := (hchanges (.separator '/' .property)).1.mpr
      (List.forall_mem_singleton.mpr (by decide))
    obtain ⟨-, hfreed, -, hproperty⟩ := (hchanges _).2 next hnext
    exact ⟨next, hnext, hfreed '.' (by decide) rfl, hproperty⟩
  · intro next hnext
    have hfree := (hchanges (.modifier '.' .root)).1.mp ⟨next, hnext⟩ '.' (by decide)
    revert hfree
    decide

end Dialect

end PathExpr
