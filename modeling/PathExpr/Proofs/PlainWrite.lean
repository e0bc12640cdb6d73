import PathExpr.Proofs.PlainRoute

/-!
# What a write along names does

A write goes down the document name by name, makes what is missing on its way if it may, and puts the
new values back on its way up.  What it comes to is one elementary write at each name
(`Plain.Assigns`): under the last name the value is set, and under every name before it what the rest of
the write leaves of the member, or of a new empty object.  `Plain.write_eq_ok_iff` says that the writes
that succeed are exactly these.

Everything else follows level by level.

* `Plain.writes_obey_lens_laws` — what is written is read back, nothing is changed beside it, the value
  written last counts, and to write what is there changes nothing.
* `Plain.failed_write_leaves_document` — a write that fails has changed nothing.  It makes objects while it
  goes down, but from the first one that it makes it cannot fail any more
  (`Plain.exists_assigns_empty`): in an empty object every name can be set.
-/

namespace PathExpr.Plain

variable {force : Bool} {value document changed : Value} {name : String} {names rest : List String}

/-! ### One name -/

/-- A write under a name before the last goes on in what the descent finds. -/
theorem write_cons (hrest : rest ≠ []) :
    write force value (name :: rest) document =
      match descend force name document with
      | .error fault => ⟨.error fault, document⟩
      | .ok (child, parent) =>
          ⟨(write force value rest child).outcome,
            parent.replaceChild name (write force value rest child).document⟩ := by
  obtain ⟨next, others, rfl⟩ := List.exists_cons_of_ne_nil hrest
  rfl

/-! ### All names -/

/-- **A write under a place** that exists is a write in the value there. -/
theorem write_append {parent : Value} {path : List String} (hpath : document.at? path = some parent)
    (hnames : names ≠ []) :
    write force value (path ++ names) document =
      ⟨(write force value names parent).outcome,
        document.replaceAt path (write force value names parent).document⟩ := by
  induction path generalizing document with
  | nil =>
      cases hpath
      rfl
  | cons key rest ih =>
      rw [Value.at?_cons] at hpath
      obtain ⟨child, hchild, hrest⟩ := Option.bind_eq_some_iff.mp hpath
      have hdescend : descend force key document = .ok (child, document) :=
        descend_eq_ok_iff.mpr (.inl ⟨hchild, rfl⟩)
      rw [List.cons_append, write_cons (List.append_ne_nil_of_right_ne_nil rest hnames), hdescend,
        Value.replaceAt_cons_of_child? hchild]
      simp only [ih hrest]

/-- **A write as elementary writes**, one at each name, from the last name up. -/
inductive Assigns (force : Bool) (value : Value) : List String → Value → Value → Prop where
  /-- Under the last name the value is set. -/
  | last {name : String} {document changed : Value}
      (hset : document.setChild name value = .ok changed) : Assigns force value [name] document changed
  /-- Under a name before it, what the rest leaves of the member. -/
  | through {name : String} {rest : List String} {document child inner changed : Value}
      (hchild : document.child? name = some child) (hinner : Assigns force value rest child inner)
      (hset : document.setChild name inner = .ok changed) :
      Assigns force value (name :: rest) document changed
  /-- Where there is no member, what the rest leaves of a new object. -/
  | made {name : String} {rest : List String} {document inner changed : Value} (hforce : force = true)
      (hchild : document.child? name = none) (hinner : Assigns force value rest (.object []) inner)
      (hset : document.setChild name inner = .ok changed) :
      Assigns force value (name :: rest) document changed

namespace Assigns

/-- No value is written under no name. -/
theorem ne_nil (h : Assigns force value names document changed) : names ≠ [] := by
  cases h <;> exact List.cons_ne_nil _ _

end Assigns

/-- **The writes that succeed** are elementary writes at each name. -/
theorem write_eq_ok_iff :
    write force value names document = ⟨.ok (), changed⟩ ↔
      Assigns force value names document changed := by
  constructor
  · intro h
    induction names generalizing document changed with
    | nil => cases h
    | cons name rest ih =>
        by_cases hrest : rest = []
        · subst hrest
          rw [write] at h
          split at h
          · next hset =>
              cases h
              exact .last hset
          · cases h
        · rw [write_cons hrest] at h
          split at h
          · cases h
          · next child parent hdescend =>
              obtain ⟨houtcome, hdocument⟩ := Written.mk.inj h
              have hinner : Assigns force value rest child (write force value rest child).document :=
                ih (congrArg (Written.mk · _) houtcome)
              rcases descend_eq_ok_iff.mp hdescend with ⟨hchild, rfl⟩ | ⟨hforce, hnone, rfl, hmade⟩
              · exact .through hchild hinner ((Value.setChild_of_child? hchild _).trans (congrArg _ hdocument))
              · exact .made hforce hnone hinner
                  ((Value.setChild_of_setChild hmade _).trans (congrArg _ hdocument))
  · intro h
    induction h with
    | last hset => rw [write, hset]
    | @through name rest document child inner changed hchild hinner hset ih =>
        have hdescend : descend force name document = .ok (child, document) :=
          descend_eq_ok_iff.mpr (.inl ⟨hchild, rfl⟩)
        rw [Value.setChild_of_child? hchild] at hset
        cases hset
        rw [write_cons hinner.ne_nil, hdescend]
        simp only [ih]
    | @made name rest document inner changed hforce hnone hinner hset ih =>
        have hmade := Value.setChild_of_setChild hset (.object [])
        have hdescend := descend_eq_ok_iff.mpr (.inr ⟨hforce, hnone, rfl, hmade⟩)
        have hagain := (Value.setChild_of_setChild hmade inner).symm.trans hset
        rw [write_cons hinner.ne_nil, hdescend]
        simp only [ih, Except.ok.inj hagain]

/-! ### The laws -/

namespace Assigns

/-- What is written is found where it was written. -/
theorem at?_self (h : Assigns force value names document changed) :
    changed.at? names = some value := by
  induction h with
  | last hset => rw [Value.at?_cons, Value.child?_setChild hset, Option.bind_some, Value.at?_nil]
  | through hchild hinner hset ih =>
      rw [Value.at?_cons, Value.child?_setChild hset, Option.bind_some, ih]
  | made hforce hnone hinner hset ih =>
      rw [Value.at?_cons, Value.child?_setChild hset, Option.bind_some, ih]

/-- **A place that is neither above nor below the one written to is as it was.** -/
theorem at?_of_not_prefix (h : Assigns force value names document changed) {others : List String}
    (hbelow : ¬names <+: others) (habove : ¬others <+: names) :
    changed.at? others = document.at? others := by
  induction h generalizing others with
  | @last name document changed hset =>
      cases others with
      | nil => exact absurd List.nil_prefix habove
      | cons other more =>
          have hne : other ≠ name := by
            rintro rfl
            exact hbelow (List.cons_prefix_cons.mpr ⟨rfl, List.nil_prefix⟩)
          rw [Value.at?_cons, Value.at?_cons, Value.child?_setChild_of_ne hne hset]
  | @through name rest document child inner changed hchild hinner hset ih =>
      cases others with
      | nil => exact absurd List.nil_prefix habove
      | cons other more =>
          rw [Value.at?_cons, Value.at?_cons]
          by_cases hname : other = name
          · subst hname
            rw [Value.child?_setChild hset, hchild, Option.bind_some, Option.bind_some]
            exact ih (fun hmore => hbelow (List.cons_prefix_cons.mpr ⟨rfl, hmore⟩))
              fun hmore => habove (List.cons_prefix_cons.mpr ⟨rfl, hmore⟩)
          · rw [Value.child?_setChild_of_ne hname hset]
  | @made name rest document inner changed hforce hnone hinner hset ih =>
      cases others with
      | nil => exact absurd List.nil_prefix habove
      | cons other more =>
          rw [Value.at?_cons, Value.at?_cons]
          by_cases hname : other = name
          · subst hname
            rw [Value.child?_setChild hset, hnone, Option.bind_some, Option.bind_none]
            have hinside := ih (fun hmore => hbelow (List.cons_prefix_cons.mpr ⟨rfl, hmore⟩))
              fun hmore => habove (List.cons_prefix_cons.mpr ⟨rfl, hmore⟩)
            -- The object is new, so there is nothing in it but what is written.
            cases more with
            | nil => exact absurd (List.cons_prefix_cons.mpr ⟨rfl, List.nil_prefix⟩) habove
            | cons next more => exact hinside
          · rw [Value.child?_setChild_of_ne hname hset]

/-- **Another value can be written where one was written**, and leaves what it would have left without
the first. -/
theorem again (h : Assigns force value names document changed) (later : Bool) (other : Value) :
    ∃ rewritten, Assigns later other names changed rewritten ∧
      Assigns force other names document rewritten := by
  induction h with
  | last hset =>
      exact ⟨_, .last (Value.setChild_of_child? (Value.child?_setChild hset) other),
        .last (Value.setChild_of_setChild hset other)⟩
  | through hchild hinner hset ih =>
      obtain ⟨inside, hlater, hfirst⟩ := ih
      have hfound := Value.child?_setChild hset
      exact ⟨_, .through hfound hlater (Value.setChild_of_child? hfound inside),
        .through hchild hfirst (Value.setChild_of_setChild hset inside)⟩
  | made hforce hnone hinner hset ih =>
      obtain ⟨inside, hlater, hfirst⟩ := ih
      have hfound := Value.child?_setChild hset
      exact ⟨_, .through hfound hlater (Value.setChild_of_child? hfound inside),
        .made hforce hnone hfirst (Value.setChild_of_setChild hset inside)⟩

end Assigns

/-- To write what is there changes nothing. -/
theorem assigns_of_at? (hnames : names ≠ []) (h : document.at? names = some value) :
    Assigns force value names document document := by
  induction names generalizing document with
  | nil => exact absurd rfl hnames
  | cons name rest ih =>
      rw [Value.at?_cons] at h
      obtain ⟨child, hchild, hbelow⟩ := Option.bind_eq_some_iff.mp h
      have hset : document.setChild name child = .ok document := by
        rw [Value.setChild_of_child? hchild, Value.replaceChild_child? hchild]
      by_cases hrest : rest = []
      · subst hrest
        cases hbelow
        exact .last hset
      · exact .through hchild (ih hrest hbelow) hset

/-- In an empty object any names can be written along, if objects may be made. -/
theorem exists_assigns_empty (value : Value) (hnames : names ≠ []) :
    ∃ made, Assigns true value names (.object []) made := by
  induction names with
  | nil => exact absurd rfl hnames
  | cons name rest ih =>
      by_cases hrest : rest = []
      · subst hrest
        exact ⟨_, .last rfl⟩
      · obtain ⟨inner, hinner⟩ := ih hrest
        exact ⟨_, .made rfl rfl hinner rfl⟩

/-- **Writes along names obey the laws of a lens.**  After a write that succeeds, its value is read back;
names that neither lead to the place written to nor lead on from it read what they read before, or nothing
as before; and another value can be written there, with the same result as if it had been the first.  To
write what is read already succeeds and leaves the document as it is, the order of members included. -/
theorem writes_obey_lens_laws (force : Bool) (document value : Value) {names : List String}
    (hnames : names ≠ []) :
    (∀ changed, write force value names document = ⟨.ok (), changed⟩ →
      read changed names = .ok value ∧
      (∀ others, ¬names <+: others → ¬others <+: names →
        ∀ found, read changed others = .ok found ↔ read document others = .ok found) ∧
      ∀ (later : Bool) (other : Value), ∃ rewritten,
        write later other names changed = ⟨.ok (), rewritten⟩ ∧
          write force other names document = ⟨.ok (), rewritten⟩) ∧
    (read document names = .ok value →
      write force value names document = ⟨.ok (), document⟩) := by
  constructor
  · intro changed hwrite
    have hassigns := write_eq_ok_iff.mp hwrite
    refine ⟨read_eq_ok_iff.mpr hassigns.at?_self, fun others hbelow habove found => ?_,
      fun later other => ?_⟩
    · rw [read_eq_ok_iff, read_eq_ok_iff, hassigns.at?_of_not_prefix hbelow habove]
    · obtain ⟨rewritten, hlater, hfirst⟩ := hassigns.again later other
      exact ⟨rewritten, write_eq_ok_iff.mpr hlater, write_eq_ok_iff.mpr hfirst⟩
  · intro hread
    exact write_eq_ok_iff.mpr (assigns_of_at? hnames (read_eq_ok_iff.mp hread))

/-- An object made by a write that appends it to an array, with the names beside it. -/
theorem writes_obey_lens_laws_appended :
    let before : Value := .object [("a", .array [.null]), ("b", .boolean false)]
    let after : Value :=
      .object [("a", .array [.null, .object [("c", .boolean true)]]), ("b", .boolean false)]
    ["a", "1", "c"] ≠ [] ∧ write true (.boolean true) ["a", "1", "c"] before = ⟨.ok (), after⟩ ∧
      read after ["a", "1", "c"] = .ok (.boolean true) ∧
      (∀ found, read after ["a", "0"] = .ok found ↔ read before ["a", "0"] = .ok found) ∧
      write false (.boolean true) ["a", "1", "c"] after = ⟨.ok (), after⟩ := by
  intro before after
  have hnames : ["a", "1", "c"] ≠ [] := by decide
  have hwrite : write true (.boolean true) ["a", "1", "c"] before = ⟨.ok (), after⟩ := rfl
  obtain ⟨hread, hbeside, -⟩ :=
    (writes_obey_lens_laws true before (.boolean true) hnames).1 after hwrite
  have hagain := (writes_obey_lens_laws false after (.boolean true) hnames).2 hread
  exact ⟨hnames, hwrite, hread, hbeside ["a", "0"] (by decide) (by decide), hagain⟩

/-- **A write that fails leaves the document as it was**, also one that may make objects. -/
theorem failed_write_leaves_document {force : Bool} {value document : Value} {names : List String}
    {fault : PathError} (h : (write force value names document).outcome = .error fault) :
    (write force value names document).document = document := by
  induction names generalizing document with
  | nil => rfl
  | cons name rest ih =>
      by_cases hrest : rest = []
      · subst hrest
        rw [write] at h ⊢
        split at h
        · cases h
        · rfl
      · rw [write_cons hrest] at h ⊢
        split at h
        · rfl
        · next child parent hdescend =>
            rcases descend_eq_ok_iff.mp hdescend with ⟨hchild, rfl⟩ | ⟨rfl, -, rfl, -⟩
            · show parent.replaceChild name (write force value rest child).document = parent
              rw [ih h, Value.replaceChild_child? hchild]
            · -- Below an object that was made, the write does not fail.
              obtain ⟨made, hmade⟩ := exists_assigns_empty value hrest
              rw [write_eq_ok_iff.mpr hmade] at h
              cases h

/-- A write that goes down to a number, which has no members and cannot be given any. -/
theorem failed_write_leaves_document_at_number :
    let document : Value := .object [("a", .array [.object [("b", .integer 3)]])]
    (write true .null ["a", "0", "b", "c", "d"] document).outcome =
        .error (.assignment (.member "c" .integer)) ∧
      (write true .null ["a", "0", "b", "c", "d"] document).document = document := by
  intro document
  have hfault : (write true .null ["a", "0", "b", "c", "d"] document).outcome =
      .error (.assignment (.member "c" .integer)) := rfl
  exact ⟨hfault, failed_write_leaves_document hfault⟩

end PathExpr.Plain
