import PathExpr.Dialect.Change
import PathExpr.Proofs.Roles

/-!
# Which tables are accepted, and what they stay

Tables are *sound* if a character separates properties, none is reserved and none is bound twice
(`Tables.Sound`).  These are the tables that make a dialect (`Dialect.exists_ofTables_iff`).

A change of dialect does not repair what it finds: it makes new tables and has them checked as if they
were the first (`Dialect.consistent_of_change`).  So nothing has to be known of a dialect for its changes
to be consistent, and every dialect that accepted changes lead to is (`Dialect.Reached.consistent`).
What is left to ask of the tables is that they have one property separator only, since a dialect that
has several goes by one of them.
-/

namespace PathExpr

/-! ### Sound tables -/

namespace Tables

/-- **The characters that tables bind**: every modifier, separator, opener and closer.  A closer that is
the opener of its own container is bound once. -/
def marks (tables : Tables) : List Char := tables.entries.flatMap Entry.marks

/-- **Sound tables.** -/
structure Sound (tables : Tables) : Prop where
  /-- A character separates properties. -/
  separates : ∃ c, (c, SeparatorRole.property) ∈ tables.separators
  /-- No character is reserved. -/
  unreserved : ∀ c ∈ tables.marks, c ≠ wildcardMark ∧ c ≠ escapeMark
  /-- No character is bound twice. -/
  distinct : tables.marks.Nodup

/-- One character separates properties, at most. -/
def OneProperty (tables : Tables) : Prop :=
  ∀ c d, (c, SeparatorRole.property) ∈ tables.separators →
    (d, SeparatorRole.property) ∈ tables.separators → c = d

/-- The property separator is found if there is one. -/
theorem exists_property? {tables : Tables} {c : Char}
    (h : (c, SeparatorRole.property) ∈ tables.separators) : ∃ found, tables.property? = some found := by
  have hfind : (tables.separators.find? fun entry => entry.2 = .property).isSome = true :=
    List.find?_isSome.mpr ⟨_, h, by simp⟩
  obtain ⟨entry, hentry⟩ := Option.isSome_iff_exists.mp hfind
  exact ⟨entry.1, by rw [property?, hentry]; rfl⟩

end Tables

namespace Dialect

/-- The tables of a consistent dialect are sound. -/
theorem Consistent.sound {dialect : Dialect} (h : dialect.Consistent) : dialect.tables.Sound where
  separates := ⟨_, h.property_mem⟩
  unreserved := by
    intro c hc
    rw [Tables.marks, ← Tables.bindings_map_fst] at hc
    obtain ⟨entry, hentry, rfl⟩ := List.mem_map.mp hc
    exact h.unreserved entry hentry
  distinct := by
    rw [Tables.marks, ← Tables.bindings_map_fst]
    exact h.nodup

/-- **Sound tables are accepted.** -/
theorem exists_ofTables {tables : Tables} (h : tables.Sound) :
    ∃ dialect, ofTables tables = .ok dialect := by
  obtain ⟨c, hc⟩ := h.separates
  obtain ⟨property, hproperty⟩ := Tables.exists_property? hc
  have hmarks := tables.bindings_map_fst
  have hcheck : Tables.checkBindings [] tables.bindings = .ok () := by
    refine Tables.checkBindings_eq_ok_iff.mpr ⟨by rw [hmarks]; exact h.distinct, ?_⟩
    intro entry hentry
    have hmem : entry.1 ∈ tables.marks := by
      rw [Tables.marks, ← hmarks]
      exact List.mem_map_of_mem hentry
    exact ⟨(h.unreserved _ hmem).1, (h.unreserved _ hmem).2, rfl⟩
  exact ⟨⟨tables, property, false⟩, by rw [ofTables, hcheck, hproperty]⟩

/-- **Tables are accepted exactly if they are sound.** -/
theorem exists_ofTables_iff {tables : Tables} :
    (∃ dialect, ofTables tables = .ok dialect) ↔ tables.Sound := by
  constructor
  · rintro ⟨dialect, h⟩
    obtain ⟨hconsistent, rfl, -⟩ := of_ofTables h
    exact hconsistent.sound
  · exact exists_ofTables

/-! ### Changes -/

/-- The simple dialect of a separator is consistent and has no other separator. -/
theorem consistent_ofSeparator {separator : Char} {dialect : Dialect}
    (h : ofSeparator separator = .ok dialect) :
    dialect.Consistent ∧ dialect.tables = ⟨[], [(separator, .property)], []⟩ := by
  unfold ofSeparator at h
  cases hplain : ofTables ⟨[], [(separator, .property)], []⟩ with
  | error fault =>
      rw [hplain] at h
      cases h
  | ok plain =>
      rw [hplain] at h
      cases h
      obtain ⟨hconsistent, htables, -⟩ := of_ofTables hplain
      exact ⟨⟨hconsistent.nodup, hconsistent.unreserved, hconsistent.property_mem⟩, htables⟩

/-- **What an accepted change makes**: the dialect of some tables, or, if it enters a simple one, that of
its separator. -/
theorem change_cases {dialect next : Dialect} {change : Change} (h : dialect.change change = .ok next) :
    (∃ tables, ofTables tables = .ok next) ∨
      ∃ separator, change = .simple (some separator) ∧ ofSeparator separator = .ok next := by
  cases change with
  | modifiers table | separators table | containers table => exact .inl ⟨_, h⟩
  | modifier role c | separator role c | container role opener closer =>
      simp only [Dialect.change, withModifier, withSeparator, withContainer] at h
      -- A character that has another role of the same table is refused.
      split at h
      · cases h
      · exact .inl ⟨_, h⟩
  | simple separator =>
      cases separator with
      | some separator => exact .inr ⟨separator, rfl, h⟩
      | none =>
          cases h
          exact .inl ⟨_, ofTables_standardTables⟩
  | reset =>
      cases h
      exact .inl ⟨_, ofTables_standardTables⟩

/-- **An accepted change makes a consistent dialect**, whatever it is made to. -/
theorem consistent_of_change {dialect next : Dialect} {change : Change}
    (h : dialect.change change = .ok next) : next.Consistent := by
  rcases change_cases h with ⟨tables, htables⟩ | ⟨separator, -, hseparator⟩
  · exact (of_ofTables htables).1
  · exact (consistent_ofSeparator hseparator).1

/-! ### Dialects that changes lead to -/

/-- **A dialect to which accepted changes lead** from accepted tables, a simple dialect or the default
one, by way of tables with one property separator only. -/
inductive Reached : Dialect → Prop where
  | ofTables {tables : Tables} {dialect : Dialect} (h : ofTables tables = .ok dialect)
      (hone : tables.OneProperty) : Reached dialect
  | ofSeparator {separator : Char} {dialect : Dialect} (h : ofSeparator separator = .ok dialect) :
      Reached dialect
  | standard : Reached standard
  | change {dialect next : Dialect} {change : Change} (hreached : Reached dialect)
      (h : dialect.change change = .ok next) (hone : next.tables.OneProperty) : Reached next

namespace Reached

variable {dialect : Dialect}

theorem consistent (h : dialect.Reached) : dialect.Consistent := by
  cases h with
  | ofTables h => exact (of_ofTables h).1
  | ofSeparator h => exact (consistent_ofSeparator h).1
  | standard => exact consistent_standard
  | change _ h => exact consistent_of_change h

theorem oneProperty (h : dialect.Reached) : dialect.tables.OneProperty := by
  cases h with
  | ofTables h hone =>
      rw [(of_ofTables h).2.1]
      exact hone
  | ofSeparator h =>
      rw [(consistent_ofSeparator h).2]
      intro c d hc hd
      simp_all
  | standard =>
      intro c d hc hd
      simp_all [Dialect.standard, standardTables]
  | change _ _ hone => exact hone

end Reached

namespace Consistent

variable {dialect : Dialect}

/-- **A run of plain names** is what holds no special character but the property separator. -/
theorem isSimplePath_eq_true_iff (h : dialect.Consistent) {path : List Char} :
    dialect.isSimplePath path = true ↔
      ∀ c ∈ path, c ≠ dialect.property → dialect.isSpecial c = false := by
  cases hsimple : dialect.simple with
  | true => simp [isSimplePath, isSpecial, hsimple]
  | false =>
      have hpath : dialect.isSimplePath path = true ↔ ∀ c ∈ path, c ∉ dialect.complications := by
        simp [isSimplePath, hsimple]
      rw [hpath]
      refine forall₂_congr fun c _ => ?_
      rw [h.mem_complications hsimple, not_and', Bool.not_eq_true]

/-- The property separator is the one character that separates properties. -/
theorem property_mem_iff (h : dialect.Consistent) (hone : dialect.tables.OneProperty) {c : Char} :
    (c, SeparatorRole.property) ∈ dialect.tables.separators ↔ c = dialect.property := by
  constructor
  · intro hc
    exact hone _ _ hc h.property_mem
  · rintro rfl
    exact h.property_mem

end Consistent

/-- **Tables stay consistent.**  Tables are accepted exactly if they are sound, and then they are those
of the dialect.  In every dialect that accepted changes lead to, a character has the role that the tables
give it and no other, properties are separated by the one character that the tables name for it, and a
path expression is split at once exactly if it holds no special character but that one. -/
theorem tables_stay_consistent :
    (∀ tables : Tables, ((∃ dialect, ofTables tables = .ok dialect) ↔ tables.Sound) ∧
      ∀ dialect, ofTables tables = .ok dialect → dialect.tables = tables) ∧
    ∀ dialect : Dialect, dialect.Reached →
      (∀ c role, dialect.roleOf? c = some role ↔ dialect.tables.Gives c role) ∧
      (∀ c, (c, SeparatorRole.property) ∈ dialect.tables.separators ↔ c = dialect.property) ∧
      ∀ path, dialect.isSimplePath path = true ↔
        ∀ c ∈ path, c ≠ dialect.property → dialect.isSpecial c = false := by
  constructor
  · intro tables
    exact ⟨exists_ofTables_iff, fun dialect h => (of_ofTables h).2.1⟩
  · intro dialect hreached
    have hconsistent := hreached.consistent
    refine ⟨fun c role => hconsistent.roleOf?_eq_some_iff, fun c => ?_, fun path => ?_⟩
    · exact hconsistent.property_mem_iff hreached.oneProperty
    · exact hconsistent.isSimplePath_eq_true_iff

/-- A rebound separator frees its old character, which is then a letter like any other. -/
theorem tables_stay_consistent_rebound :
    ∃ dialect, standard.change (.separator .property '/') = .ok dialect ∧ dialect.Reached ∧
      dialect.roleOf? '/' = some (.separator .property) ∧ dialect.property = '/' ∧
      dialect.isSimplePath ['a', '.', 'b', '/', 'c'] = true := by
  let separators : Table SeparatorRole := [(',', .collection), ('<', .each), ('/', .property)]
  let dialect : Dialect := ⟨{ standardTables with separators := separators }, '/', false⟩
  have hchange : standard.change (.separator .property '/') = .ok dialect := rfl
  have hone : dialect.tables.OneProperty := by
    intro c d hc hd
    simp_all [dialect, separators]
  have hreached : dialect.Reached := .change .standard hchange hone
  obtain ⟨hrole, hproperty, hpath⟩ := tables_stay_consistent.2 dialect hreached
  have hmem : ('/', SeparatorRole.property) ∈ dialect.tables.separators := by decide
  have hplain : ∀ c ∈ ['a', '.', 'b', '/', 'c'], c ≠ dialect.property → dialect.isSpecial c = false := by
    simp only [List.forall_mem_cons]
    exact ⟨fun _ => rfl, fun _ => rfl, fun _ => rfl, fun hne => absurd rfl hne, fun _ => rfl, nofun⟩
  refine ⟨dialect, hchange, hreached, ?_, ?_, ?_⟩
  · exact (hrole '/' (.separator .property)).mpr hmem
  · exact ((hproperty '/').mp hmem).symm
  · exact (hpath _).mpr hplain

end Dialect

end PathExpr
