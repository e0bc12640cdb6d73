import PathExpr.Proofs.Elementwise
import PathExpr.Proofs.Lookup
import PathExpr.Proofs.Scanning

/-!
# Patterns, from their text to what they read

A pattern is a text, a wildcard and another text.  Written with both texts escaped it compiles to one word,
which notes where in its name the wildcard is (`Path.tokenize_pattern`); whatever else looks like a
wildcard in that name is literal.  The place is a number of bytes, counted while the escapes are being
removed, and a resolution splits the name there again, so it finds the two texts as they were written.

A name matches if it is the first text, any other and the second text (`Between`), in this order and
without an overlap.  What a pattern reads from an object or an array is the list of the members whose
names match (`Resolve.wildcard_value`): each name is looked up from the same context, so they come in the
order of the context.
-/

namespace PathExpr

/-! ### Names that match -/

/-- **A name matches a pattern** if it is the text before the wildcard, some text, and the text behind
the wildcard. -/
def Between (before after name : String) : Prop := ∃ middle, name = before ++ middle ++ after

/-- The glob of the two texts decides whether a name matches. -/
theorem Resolve.Glob.matchesName_iff_between (before after name : String) :
    Glob.matchesName ⟨before.toList, after.toList⟩ name = true ↔ Between before after name := by
  rw [matchesName_iff]
  constructor
  · rintro ⟨middle, hname⟩
    refine ⟨String.ofList middle, String.toList_inj.mp ?_⟩
    simpa using hname
  · rintro ⟨middle, rfl⟩
    exact ⟨middle.toList, by simp⟩

instance Between.decidable (before after name : String) : Decidable (Between before after name) :=
  decidable_of_iff _ (Resolve.Glob.matchesName_iff_between before after name)

/-- **The word of a pattern**: the two texts with the wildcard between them, and its place. -/
def Word.pattern (before after : String) : Word where
  name := before ++ "*" ++ after
  wildcard := some before.utf8ByteSize

theorem Word.pattern_name (before after : String) : (Word.pattern before after).name =
    String.ofList (before.toList ++ wildcardMark :: after.toList) := by
  refine String.toList_inj.mp ?_
  simp [Word.pattern, wildcardMark]

/-- The word is split at its wildcard, wherever else the name has that character. -/
theorem Resolve.Glob.ofWord?_pattern (before after : String) :
    Glob.ofWord? (Word.pattern before after) (Word.pattern before after).name =
      .ok (some ⟨before.toList, after.toList⟩) := by
  have hplace := ofPlace_append before.toList after.toList
  rw [← Word.pattern_name, String.ofList_toList] at hplace
  show (ofPlace (Word.pattern before after).name before.utf8ByteSize).map some = _
  rw [hplace]
  rfl

/-! ### The text of a pattern -/

/-- **A pattern is compiled to its word.** -/
theorem Path.tokenize_pattern {dialect : Dialect} (hconsistent : dialect.Consistent)
    (hsimple : dialect.simple = false) (before after : String) :
    tokenize dialect (String.ofList
        (dialect.escape before.toList ++ wildcardMark :: dialect.escape after.toList)) =
      .ok ⟨[.word (Word.pattern before after)], false⟩ := by
  have hescape : ∀ name, dialect.escape name = Dialect.escapeWhere dialect.isSpecial name := by
    intro name
    simp [Dialect.escape, hsimple]
  have hblank : Draft.empty.item = .blank .none := rfl
  have hscan := scan_starred hsimple (dialect.escapes_escapeWhere before.toList)
    (dialect.escapes_escapeWhere after.toList) hblank 0 []
  rw [List.append_nil, scan_nil] at hscan
  rw [tokenize, String.toList_ofList, hescape, hescape, tokenizeAt_eq_scan hconsistent hsimple, hscan]
  show Except.ok (TokenSet.ofTokens [.word
    { name := String.ofList (before.toList ++ wildcardMark :: after.toList)
      wildcard := some (String.ofList before.toList).utf8ByteSize }]) = _
  rw [← Word.pattern_name, String.ofList_toList]
  rfl

/-! ### What a pattern reads -/

namespace Resolve

/-- To look a name up leaves the state as it is. -/
theorem access_read_snd (focus : Focus) (name : String) (s : State) :
    (access focus name .read false s).2 = s := by
  cases h : focus.child? s.document name with
  | some found => rw [access_read_of_some h]
  | none => rw [access_read_of_none h]; rfl

section Context

variable {document value child : Value} {focus : Focus} {s : State}

/-- **A name reads from a focus** what it reaches in the value that the focus stands for. -/
theorem access_read_value (hs : s.document = document) (h : focus.StandsFor document value)
    {name : String} (hchild : value.child? name = some child) :
    ∃ found, (access focus name .read false s).1 = .ok found ∧ found.StandsFor document child := by
  have hreached := h.child? name
  rw [hchild] at hreached
  cases hfound : focus.child? document name with
  | none =>
      rw [hfound] at hreached
      cases hreached
  | some found =>
      rw [hfound] at hreached
      cases hreached with
      | some hstands =>
          rw [← hs] at hfound
          exact ⟨found, by rw [access_read_of_some hfound], hstands⟩

/-- Names that reach values are looked up one after the other. -/
theorem mapM_access_value (hs : s.document = document) (h : focus.StandsFor document value)
    {entries : List (String × Value)}
    (hentries : ∀ entry ∈ entries, value.child? entry.1 = some entry.2) :
    ∃ found, ((entries.map (·.1)).mapM fun name => (access focus name .read false s).1) = .ok found ∧
      List.Forall₂ (Focus.StandsFor document) found (entries.map (·.2)) := by
  induction entries with
  | nil => exact ⟨[], rfl, .nil⟩
  | cons entry rest ih =>
      obtain ⟨hfirst, hothers⟩ := List.forall_mem_cons.mp hentries
      obtain ⟨found, haccess, hfound⟩ := access_read_value hs h hfirst
      obtain ⟨others, hmap, hrest⟩ := ih hothers
      refine ⟨found :: others, ?_, .cons hfound hrest⟩
      rw [List.map_cons, List.mapM_cons, haccess, hmap]
      rfl

/-- **A pattern reads the members whose names match**, in the order of the context. -/
theorem wildcard_value (hs : s.document = document) (h : focus.StandsFor document value) (glob : Glob)
    {entries : List (String × Value)} (hnames : value.memberNames? = some (entries.map (·.1)))
    (hentries : ∀ entry ∈ entries, value.child? entry.1 = some entry.2) :
    ((wildcard focus glob .read s).1.bind fun found => found.value document) =
      .ok (.array ((entries.filter fun entry => glob.matchesName entry.1).map (·.2))) := by
  have hasking : Walk.asking focus.memberNames s = (.ok (entries.map (·.1)), s) := by
    rw [Walk.asking, hs, h.memberNames, Focus.valueNames, hnames]
  have hfilter : (entries.map (·.1)).filter glob.matchesName =
      (entries.filter fun entry => glob.matchesName entry.1).map (·.1) :=
    List.filter_map
  have hmatching : ∀ entry ∈ entries.filter fun entry => glob.matchesName entry.1,
      value.child? entry.1 = some entry.2 :=
    fun entry hentry => hentries entry (List.mem_of_mem_filter hentry)
  obtain ⟨found, hfound, hvalues⟩ := mapM_access_value hs h hmatching
  have hgather : Walk.gather false (((entries.map (·.1)).filter glob.matchesName).map
      fun name => some <$> access focus name .read false) s = (.ok found, s) := by
    rw [Walk.gather_of_still fun name _ => access_read_snd focus name s, hfilter, hfound]
  have hwildcard : wildcard focus glob .read s = (.ok (.fan found), s) :=
    (Walk.bind_of_ok hasking).trans (Walk.bind_of_ok hgather)
  rw [hwildcard]
  exact Focus.standsFor_fan_iff.mpr ⟨_, rfl, hvalues⟩

/-- Behind tokens that read a value, a pattern reads the members whose names match. -/
theorem read_pattern (env : Env) {first : List Token} (hread : read env first document = .ok value)
    {entries : List (String × Value)} (hnames : value.memberNames? = some (entries.map (·.1)))
    (hentries : ∀ entry ∈ entries, value.child? entry.1 = some entry.2) (before after : String) :
    read env (first ++ [.word (Word.pattern before after)]) document =
      .ok (.array ((entries.filter fun entry => Between before after entry.1).map (·.2))) := by
  obtain ⟨focus, s, hs, hvalue, hfrom⟩ := exists_focus_of_read env hread
  have hstands : focus.StandsFor document value := hvalue
  have hstep : step env (.word (Word.pattern before after)) .read false focus s =
      wildcard focus ⟨before.toList, after.toList⟩ .read s :=
    congrFun (word_of_glob env rfl .read false focus (Glob.ofWord?_pattern before after)) s
  have hmatches : (fun entry : String × Value => decide (Between before after entry.1)) =
      fun entry => Glob.matchesName ⟨before.toList, after.toList⟩ entry.1 := by
    funext entry
    rw [Bool.eq_iff_iff, decide_eq_true_iff, Glob.matchesName_iff_between]
  rw [hfrom, readFrom_singleton_of_reading env hs ⟨value, hvalue⟩, hstep, hmatches]
  exact wildcard_value hs.sound.document_eq hstands _ hnames hentries

end Context

end Resolve

open Resolve

/-- **A pattern reads what its name says, from its text to its result.**  In every dialect with escapes, two
texts that are escaped, with a wildcard between them, compile to one word whose wildcard is behind the
first text.  Behind any tokens that read an object, that word reads the list of the members whose names are
the first text, some text and the second text, in the order of the object; and behind tokens that read an
array, the list of the elements of which the indices are. -/
theorem Path.tokenize_read_pattern {tables : Tables} {dialect : Dialect}
    (hdialect : Dialect.ofTables tables = .ok dialect) (before after : String) :
    tokenize dialect (String.ofList
        (dialect.escape before.toList ++ wildcardMark :: dialect.escape after.toList)) =
      .ok ⟨[.word (Word.pattern before after)], false⟩ ∧
    ∀ (env : Env) (first : List Token) (document : Value),
      (∀ members, (Members.names members).Nodup →
        read env first document = .ok (.object members) →
        read env (first ++ [.word (Word.pattern before after)]) document =
          .ok (.array ((members.filter fun member => Between before after member.1).map (·.2)))) ∧
      ∀ items, read env first document = .ok (.array items) →
        read env (first ++ [.word (Word.pattern before after)]) document =
          .ok (.array ((((indexNames items.length).zip items).filter
            fun element => Between before after element.1).map (·.2))) := by
  obtain ⟨hconsistent, -, hsimple⟩ := Dialect.of_ofTables hdialect
  refine ⟨Path.tokenize_pattern hconsistent hsimple before after, fun env first document => ⟨?_, ?_⟩⟩
  · intro members hnodup hread
    refine read_pattern env hread rfl (fun member hmember => ?_) before after
    exact (lookup_eq_some_iff hnodup).mpr hmember
  · intro items hread
    have hnames : (Value.array items).memberNames? =
        some (((indexNames items.length).zip items).map (·.1)) :=
      congrArg some (map_fst_zip_indexNames items).symm
    refine read_pattern env hread hnames (fun element helement => ?_) before after
    exact getElem?_of_mem_zip_indexNames helement

/-- A text with a wildcard and a separator of its own, and names that match only if the two texts do not
overlap; three elements, of which one matches. -/
theorem Path.tokenize_read_pattern_literal_star :
    let members : List (String × Value) :=
      [("é*.x.*", .integer 1), ("é*.*", .integer 2), ("é*..*", .integer 3), ("é.x.*", .integer 4)]
    let items : List Value := [.null, .string "1", .null]
    Dialect.ofTables Dialect.standardTables = .ok Dialect.standard ∧
      tokenize Dialect.standard "é\\*\\.*\\.\\*" = .ok ⟨[.word (Word.pattern "é*." ".*")], false⟩ ∧
      (Members.names members).Nodup ∧
      read .bare [.word (Word.pattern "é*." ".*")] (.object members) =
        .ok (.array [.integer 1, .integer 3]) ∧
      read .bare [.word (Word.pattern "1" "")] (.array items) = .ok (.array [.string "1"]) := by
  intro members items
  have hpattern := tokenize_read_pattern Dialect.ofTables_standardTables
  have hnodup : (Members.names members).Nodup := by decide
  have hobject := ((hpattern "é*." ".*").2 .bare [] (.object members)).1 members hnodup rfl
  have harray := ((hpattern "1" "").2 .bare [] (.array items)).2 items rfl
  exact ⟨rfl, (hpattern "é*." ".*").1, hnodup, hobject, harray⟩

end PathExpr
