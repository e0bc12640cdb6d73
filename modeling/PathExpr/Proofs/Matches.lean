import Mathlib.Data.List.Nodup
import PathExpr.Proofs.Documents
import PathExpr.Proofs.Routes
import PathExpr.Proofs.Spelling

/-!
# What a search finds

A *match* is a place below the root whose value equals the target, with no such place on the way to it
(`Search.IsMatch`).  A search goes through the members of a value in an order of their names
(`Value.Before`), and of two places in one document that come apart, the names under which they do
decide which is first (`Search.Precedes`).

What a search does with one value is said once: it lines up the members (`Value.inOrder`) and visits them
in turn (`Search.searchBelow_eq_inTurn`).  A search for one place stops in the middle of this line, so it is
set against the line as a whole: a front of a search that has come as far as all its places let it
(`Search.Progress.upTo`) comes, with the next part, as far as the places of both let it
(`Search.Progress.andThen_upTo`).  By induction on members a search for one place finds the first of all
places (`Search.searchBelow_eq_upTo`), and all places are those of the members one after the other
(`Search.placesBelow_eq_flatMap`).

In a proper document the line has every member once, under the name that reaches it, so a search for all
places gives the matches, all of them and nothing else (`Search.mem_placesBelow_iff`), and in order
(`Search.pairwise_placesBelow`).

The path expression of a match quotes its names, so that it compiles to these names and reads the
value at the match (`Search.find_matches`).
-/

namespace PathExpr

/-! ### The order of members -/

/-- Sorted members do not decrease. -/
theorem Search.pairwise_sortByName {α : Type} (members : List (String × α)) :
    (sortByName members).Pairwise fun first second => first.1 ≤ second.1 := by
  have hsorted : (sortByName members).Pairwise fun first second =>
      decide (first.1 ≤ second.1) = true := by
    refine List.pairwise_mergeSort ?_ ?_ members
    · intro a b c hab hbc
      exact decide_eq_true (String.le_trans (of_decide_eq_true hab) (of_decide_eq_true hbc))
    · intro a b
      simpa using String.le_total a.1 b.1
  exact hsorted.imp of_decide_eq_true

/-- What is made of each member by itself is sorted as the members are. -/
theorem Search.sortByName_map {α β : Type} (f : String × α → β) (members : List (String × α)) :
    sortByName (members.map fun member => (member.1, f member)) =
      (sortByName members).map fun member => (member.1, f member) := by
  refine (List.map_mergeSort (f := fun member : String × α => (member.1, f member)) ?_).symm
  exact fun _ _ _ _ => rfl

namespace Value

/-- **The order of the names of a value**: by the names themselves in an object, by index in an
array. -/
def Before (parent : Value) (first second : String) : Prop :=
  match parent with
  | .object _ => first < second
  | .array _ =>
      ∃ i j : Nat, arrayIndex? first = some i ∧ arrayIndex? second = some j ∧ i < j
  | _ => False

/-- No name is before itself. -/
theorem Before.irrefl {parent : Value} {key : String} : ¬ parent.Before key key := by
  intro h
  cases parent with
  | object members => exact String.lt_irrefl key h
  | array items =>
      obtain ⟨i, j, hi, hj, hlt⟩ := h
      rw [hi] at hj
      cases hj
      exact Nat.lt_irrefl i hlt
  | _ => exact h

/-- The members of a value, each under its name, as a search goes through them. -/
def inOrder : Value → List (String × Value)
  | .object members => Search.sortByName members
  | .array items => items.zipIdx.map fun entry => (toString entry.2, entry.1)
  | _ => []

variable {value : Value}

/-- A member that a search goes through is smaller than the value that it is in. -/
theorem sizeOf_lt_of_mem_inOrder {member : String × Value} (h : member ∈ value.inOrder) :
    sizeOf member.2 < sizeOf value := by
  cases value with
  | object members =>
      have hmem := (List.mergeSort_perm members _).subset h
      have hlt := List.sizeOf_lt_of_mem hmem
      obtain ⟨key, child⟩ := member
      simp only [Value.object.sizeOf_spec, Prod.mk.sizeOf_spec] at hlt ⊢
      omega
  | array items =>
      obtain ⟨entry, hentry, rfl⟩ := List.mem_map.mp h
      have hlt := List.sizeOf_lt_of_mem (List.mem_of_getElem? (List.mem_zipIdx_iff_getElem?.mp hentry))
      simp only [Value.array.sizeOf_spec]
      omega
  | _ => cases h

/-- **A search goes through the members that names reach**, and through nothing else. -/
theorem mem_inOrder_iff (hvalue : value.Proper) {key : String} {child : Value} :
    (key, child) ∈ value.inOrder ↔ value.child? key = some child := by
  cases value with
  | object members =>
      rw [inOrder, Search.sortByName, (List.mergeSort_perm members _).mem_iff,
        hvalue.child?_object_iff]
  | array items =>
      rw [hvalue.child?_array_iff]
      simp only [inOrder, List.mem_map, Prod.mk.injEq]
      constructor
      · rintro ⟨⟨item, index⟩, hmem, rfl, rfl⟩
        exact ⟨index, List.mem_zipIdx_iff_getElem?.mp hmem, rfl⟩
      · rintro ⟨index, hget, rfl⟩
        exact ⟨(child, index), List.mem_zipIdx_iff_getElem?.mpr hget, rfl, rfl⟩
  | _ => simp [inOrder, child?]

/-- **The members of a proper value are gone through in the order of their names.** -/
theorem pairwise_inOrder (hvalue : value.Proper) :
    value.inOrder.Pairwise fun first second => value.Before first.1 second.1 := by
  cases value with
  | object members =>
      -- What is sorted does not decrease, and no name is there twice.
      have hnodup : (Search.sortByName members).Pairwise fun a b => a.1 ≠ b.1 := by
        have hperm := (List.mergeSort_perm members fun a b => decide (a.1 ≤ b.1)).map Prod.fst
        exact List.pairwise_map.mp (hperm.nodup_iff.mpr hvalue.wellFormed.1)
      refine List.Pairwise.imp₂ ?_ (Search.pairwise_sortByName members) hnodup
      intro first second hle hne
      show first.1 < second.1
      by_contra hlt
      exact hne (String.le_antisymm hle (String.not_lt.mp hlt))
  | array items =>
      have hsorted : items.zipIdx.Pairwise fun a b => a.2 < b.2 := by
        refine List.pairwise_map.mp ?_
        rw [List.zipIdx_map_snd]
        exact List.pairwise_lt_range'
      refine List.pairwise_map.mpr (hsorted.imp_of_mem ?_)
      intro first second hfirst hsecond hlt
      have hbound : ∀ entry ∈ items.zipIdx, entry.2 < indexBound := by
        intro entry hentry
        have hget := List.mem_zipIdx_iff_getElem?.mp hentry
        exact Nat.lt_of_lt_of_le (List.getElem?_eq_some_iff.mp hget).1 (hvalue.bounded [] items rfl)
      exact ⟨first.2, second.2, arrayIndex?_toString (hbound first hfirst),
        arrayIndex?_toString (hbound second hsecond), hlt⟩
  | _ => exact List.Pairwise.nil

end Value

namespace Search

/-! ### Matches -/

/-- **A match** of a target: a place below the root with an equal value, and no such place on the way
to it. -/
structure IsMatch (target root : Value) (place : List String) : Prop where
  below : place ≠ []
  reached : ∃ value, root.at? place = some value ∧ value.same target = true
  first : ∀ front behind value, front ≠ [] → behind ≠ [] → place = front ++ behind →
    root.at? front = some value → value.same target = false

/-- A member that equals the target is a match, and no place below it is. -/
theorem isMatch_cons_of_same {target root child : Value} {key : String}
    (hchild : root.child? key = some child) (hsame : child.same target = true)
    {rest : List String} : IsMatch target root (key :: rest) ↔ rest = [] := by
  have hat : root.at? [key] = some child := by rw [Value.at?_cons, hchild, Option.bind_some, Value.at?_nil]
  constructor
  · intro hmatch
    by_contra hrest
    have hdiffers := hmatch.first [key] rest child (List.cons_ne_nil _ _) hrest rfl hat
    rw [hsame] at hdiffers
    cases hdiffers
  · rintro rfl
    refine ⟨List.cons_ne_nil _ _, ⟨child, hat, hsame⟩, ?_⟩
    intro front behind value hfront hbehind hplace
    have hlength := congrArg List.length hplace
    have hpos := List.length_pos_iff.mpr hfront
    have hpos' := List.length_pos_iff.mpr hbehind
    simp only [List.length_append, List.length_cons, List.length_nil] at hlength
    omega

/-- Below a member that differs from the target the matches are those in the member. -/
theorem isMatch_cons_of_differs {target root child : Value} {key : String}
    (hchild : root.child? key = some child) (hsame : child.same target = false)
    {rest : List String} : IsMatch target root (key :: rest) ↔ IsMatch target child rest := by
  have hat : ∀ place, root.at? (key :: place) = child.at? place := by
    intro place
    rw [Value.at?_cons, hchild, Option.bind_some]
  constructor
  · rintro ⟨-, ⟨value, hvalue, htarget⟩, hfirst⟩
    rw [hat] at hvalue
    refine ⟨?_, ⟨value, hvalue, htarget⟩, ?_⟩
    · rintro rfl
      cases hvalue
      rw [hsame] at htarget
      cases htarget
    · intro front behind inner hfront hbehind hplace hinner
      refine hfirst (key :: front) behind inner (List.cons_ne_nil _ _) hbehind ?_ ?_
      · rw [hplace, List.cons_append]
      · rw [hat, hinner]
  · rintro ⟨-, ⟨value, hvalue, htarget⟩, hfirst⟩
    refine ⟨List.cons_ne_nil _ _, ⟨value, (hat rest).trans hvalue, htarget⟩, ?_⟩
    intro front behind inner hfront hbehind hplace hinner
    cases front with
    | nil => exact absurd rfl hfront
    | cons name front =>
        obtain ⟨rfl, rfl⟩ := List.cons.inj hplace
        rw [hat] at hinner
        cases front with
        | nil =>
            cases hinner
            exact hsame
        | cons next front =>
            exact hfirst (next :: front) behind inner (List.cons_ne_nil _ _) hbehind rfl hinner

/-- **Which of two places comes first**: the names decide under which they come apart. -/
inductive Precedes : Value → List String → List String → Prop where
  | apart {parent : Value} {first second : String} (h : parent.Before first second)
      (rest other : List String) : Precedes parent (first :: rest) (second :: other)
  | together {parent child : Value} {key : String} (hchild : parent.child? key = some child)
      {rest other : List String} (h : Precedes child rest other) :
      Precedes parent (key :: rest) (key :: other)

/-- No place comes before itself. -/
theorem Precedes.ne {root : Value} {first second : List String} (h : Precedes root first second) :
    first ≠ second := by
  induction h with
  | apart h rest other =>
      intro heq
      rw [(List.cons.inj heq).1] at h
      exact h.irrefl
  | together hchild h ih =>
      intro heq
      exact ih (List.cons.inj heq).2

/-! ### What a search does with one value -/

/-- What a search does with a member. -/
def searchOf (mode : Mode) (target : Value) (member : String × Value) : Progress :=
  visit mode target member.1 member.2 fun _ => searchBelow mode target member.2

theorem memberSearches_eq_map (mode : Mode) (target : Value) (members : List (String × Value)) :
    memberSearches mode target members =
      members.map fun member => (member.1, fun _ => searchOf mode target member) := by
  induction members with
  | nil => rfl
  | cons member rest ih =>
      rw [List.map_cons, ← ih]
      rfl

theorem searchElements_eq_inTurn (mode : Mode) (target : Value) (items : List Value) (index : Nat) :
    searchElements mode target index items =
      .inTurn (((items.zipIdx index).map fun entry => (toString entry.2, entry.1)).map
        fun member _ => searchOf mode target member) := by
  induction items generalizing index with
  | nil => rfl
  | cons item rest ih =>
      rw [searchElements, ih]
      rfl

/-- **One step of a search**: member by member. -/
theorem searchBelow_eq_inTurn (mode : Mode) (target value : Value) :
    searchBelow mode target value =
      .inTurn (value.inOrder.map fun member _ => searchOf mode target member) := by
  cases value with
  | object members =>
      rw [searchBelow, memberSearches_eq_map, sortByName_map fun member _ => searchOf mode target member,
        List.map_map]
      rfl
  | array items => exact searchElements_eq_inTurn mode target items 0
  | _ => rfl

/-! ### The first of all places -/

namespace Progress

/-- **How far a search comes** that has some places before it: to the first of them, where it stops, or
through all of them. -/
def upTo (mode : Mode) (places : List (List String)) : Progress :=
  match mode with
  | .one => ⟨places.take 1, !places.isEmpty⟩
  | .many => ⟨places, false⟩

variable {mode : Mode}

theorem nothing_eq_upTo : nothing = upTo mode [] := by
  cases mode <;> rfl

theorem record_eq_upTo : record mode = upTo mode [[]] := by
  cases mode <;> rfl

theorem under_upTo (key : String) (places : List (List String)) :
    (upTo mode places).under key = upTo mode (places.map (key :: ·)) := by
  cases mode with
  | one => simp [upTo, under, List.map_take]
  | many => rfl

/-- **One part of a search and then the next** come as far as the places of both let them. -/
theorem andThen_upTo (places others : List (List String)) :
    ((upTo mode places).andThen fun _ => upTo mode others) = upTo mode (places ++ others) := by
  cases mode with
  | one =>
      cases places with
      | nil => rfl
      | cons place rest => rfl
  | many => rfl

/-- And so do any number of parts. -/
theorem inTurn_upTo {α : Type} {parts : List α} {progress : α → Progress}
    {places : α → List (List String)} (h : ∀ part ∈ parts, progress part = upTo mode (places part)) :
    inTurn (parts.map fun part _ => progress part) = upTo mode (parts.flatMap places) := by
  induction parts with
  | nil => exact nothing_eq_upTo
  | cons part rest ih =>
      rw [List.forall_mem_cons] at h
      rw [List.map_cons, inTurn, h.1, ih h.2, andThen_upTo, List.flatMap_cons]

end Progress

/-- **All places below a value** that a search finds. -/
def placesBelow (target value : Value) : List (List String) := (searchBelow .many target value).places

/-- The places that begin with the name of a member: the member itself if it equals the target, else
those below it. -/
def placesOf (target : Value) (member : String × Value) : List (List String) :=
  if member.2.same target then [[member.1]]
  else (placesBelow target member.2).map (member.1 :: ·)

/-- A member is searched as far as its places let it, if what is inside is. -/
theorem searchOf_eq_upTo {mode : Mode} {target : Value} {member : String × Value}
    (h : searchBelow mode target member.2 = .upTo mode (placesBelow target member.2)) :
    searchOf mode target member = .upTo mode (placesOf target member) := by
  unfold searchOf visit placesOf
  split
  · rw [Progress.record_eq_upTo, Progress.under_upTo]
    rfl
  · rw [h, Progress.under_upTo]

/-- **A search goes as far as the places of its members let it.** -/
theorem searchBelow_eq_upTo_flatMap (mode : Mode) (target value : Value) :
    searchBelow mode target value = .upTo mode (value.inOrder.flatMap (placesOf target)) := by
  rw [searchBelow_eq_inTurn]
  refine Progress.inTurn_upTo fun member hmember => searchOf_eq_upTo ?_
  -- The induction is needed for all modes at once: all places of a member are those of a search for many.
  have hall := searchBelow_eq_upTo_flatMap .many target member.2
  rw [placesBelow, hall]
  exact searchBelow_eq_upTo_flatMap mode target member.2
termination_by sizeOf value
decreasing_by all_goals exact Value.sizeOf_lt_of_mem_inOrder hmember

/-- **All places are those of the members**, one member after the other. -/
theorem placesBelow_eq_flatMap (target value : Value) :
    placesBelow target value = value.inOrder.flatMap (placesOf target) := by
  rw [placesBelow, searchBelow_eq_upTo_flatMap]
  rfl

/-- **A search that stops at its first place has found the first of all places.** -/
theorem searchBelow_eq_upTo (mode : Mode) (target value : Value) :
    searchBelow mode target value = .upTo mode (placesBelow target value) := by
  rw [searchBelow_eq_upTo_flatMap, placesBelow_eq_flatMap]

/-- In an object, the places of the members are sorted with the members. -/
theorem placesBelow_object (target : Value) (members : List (String × Value)) :
    placesBelow target (.object members) =
      (sortByName (members.map fun member => (member.1, placesOf target member))).flatMap (·.2) := by
  rw [placesBelow_eq_flatMap, sortByName_map, List.flatMap_map]
  rfl

/-- What is given for a member begins with its name. -/
theorem mem_placesOf_iff {target : Value} {member : String × Value} {place : List String} :
    place ∈ placesOf target member ↔
      ∃ rest, place = member.1 :: rest ∧
        if member.2.same target then rest = [] else rest ∈ placesBelow target member.2 := by
  unfold placesOf
  cases member.2.same target with
  | true => simp
  | false => simp [eq_comm, and_comm]

/-! ### All matches, and in order -/

/-- **What a search gives under a name**: the member if it equals the target, else what it gives in the
member. -/
theorem cons_mem_placesBelow_iff {target root : Value} (hroot : root.Proper) {key : String}
    {rest : List String} :
    key :: rest ∈ placesBelow target root ↔
      ∃ child, root.child? key = some child ∧
        if child.same target then rest = [] else rest ∈ placesBelow target child := by
  rw [placesBelow_eq_flatMap, List.mem_flatMap]
  constructor
  · rintro ⟨⟨name, child⟩, hmember, hplace⟩
    obtain ⟨others, hothers, hrest⟩ := mem_placesOf_iff.mp hplace
    obtain ⟨rfl, rfl⟩ := List.cons.inj hothers
    exact ⟨child, (Value.mem_inOrder_iff hroot).mp hmember, hrest⟩
  · rintro ⟨child, hchild, hrest⟩
    exact ⟨(key, child), (Value.mem_inOrder_iff hroot).mpr hchild,
      mem_placesOf_iff.mpr ⟨rest, rfl, hrest⟩⟩

/-- The root is not among the places that a search gives. -/
theorem nil_not_mem_placesBelow (target root : Value) : [] ∉ placesBelow target root := by
  rw [placesBelow_eq_flatMap, List.mem_flatMap]
  rintro ⟨member, -, hplace⟩
  obtain ⟨rest, hrest, -⟩ := mem_placesOf_iff.mp hplace
  cases hrest

/-- **A search gives the matches**, all of them and nothing else. -/
theorem mem_placesBelow_iff {target root : Value} (hroot : root.Proper) {place : List String} :
    place ∈ placesBelow target root ↔ IsMatch target root place := by
  induction place generalizing root with
  | nil => exact iff_of_false (nil_not_mem_placesBelow target root) fun h => h.below rfl
  | cons key rest ih =>
      rw [cons_mem_placesBelow_iff hroot]
      cases hchild : root.child? key with
      | none =>
          refine iff_of_false ?_ ?_
          · rintro ⟨child, hsome, -⟩
            cases hsome
          · rintro ⟨-, ⟨value, hvalue, -⟩, -⟩
            rw [Value.at?_cons, hchild] at hvalue
            cases hvalue
      | some child =>
          simp only [Option.some.injEq, exists_eq_left']
          cases hsame : child.same target with
          | true =>
              rw [if_pos rfl]
              exact (isMatch_cons_of_same hchild hsame).symm
          | false =>
              rw [if_neg Bool.false_ne_true, ih (hroot.child? hchild)]
              exact (isMatch_cons_of_differs hchild hsame).symm

/-- **A search gives the matches in order.** -/
theorem pairwise_placesBelow {target root : Value} (hroot : root.Proper) :
    (placesBelow target root).Pairwise (Precedes root) := by
  induction root using Value.induction_on_child with
  | step root ih =>
      rw [placesBelow_eq_flatMap, List.pairwise_flatMap]
      constructor
      · rintro ⟨key, child⟩ hmember
        have hchild := (Value.mem_inOrder_iff hroot).mp hmember
        unfold placesOf
        split
        · exact List.pairwise_singleton _ _
        · refine List.pairwise_map.mpr ((ih key child hchild (hroot.child? hchild)).imp ?_)
          intro first second hprecedes
          exact .together hchild hprecedes
      · refine (Value.pairwise_inOrder hroot).imp ?_
        intro first second hbefore place hplace other hother
        obtain ⟨rest, rfl, -⟩ := mem_placesOf_iff.mp hplace
        obtain ⟨rest', rfl, -⟩ := mem_placesOf_iff.mp hother
        exact .apart hbefore rest rest'

/-! ### The way back -/

section Back

variable {dialect : Dialect}

/-- To read along the names of a place is to go there. -/
theorem read_of_at? {root value : Value} {place : List String}
    (h : root.at? place = some value) : Plain.read root place = .ok value := by
  induction place generalizing root with
  | nil =>
      cases h
      rfl
  | cons key rest ih =>
      obtain ⟨child, hchild, hrest⟩ := Option.bind_eq_some_iff.mp h
      rw [Plain.read_cons, hchild]
      exact ih hrest

/-- The path expression of a place compiles to its names. -/
theorem tokenize_render (hconsistent : dialect.Consistent) (hsimple : dialect.simple = false)
    (hquotes : dialect.quotes?.isSome = true) (place : List String) :
    Path.tokenize dialect (render dialect place) = .ok (TokenSet.ofNames place) := by
  refine Path.tokenize_of_spells hconsistent hsimple hquotes ?_
  rw [List.forall₂_map_right_iff, List.forall₂_same]
  exact fun name _ => .quoted

/-- Different places have different path expressions. -/
theorem render_injective (hconsistent : dialect.Consistent) (hsimple : dialect.simple = false)
    (hquotes : dialect.quotes?.isSome = true) : Function.Injective (render dialect) := by
  intro first second heq
  have hfirst := tokenize_render hconsistent hsimple hquotes first
  rw [heq, tokenize_render hconsistent hsimple hquotes second] at hfirst
  have htokens : second.map Token.plain = first.map Token.plain :=
    congrArg Sequence.tokens (Except.ok.inj hfirst)
  exact (List.map_injective_iff.mpr (fun _ _ => Token.plain.inj) htokens).symm

/-- **The path expression of a place reads what is there**, in every coherent session that uses the
dialect. -/
theorem get_render {session : Session} (hcoherent : session.Coherent)
    (hconsistent : session.dialect.Consistent) (hsimple : session.dialect.simple = false)
    (hquotes : session.dialect.quotes?.isSome = true) (functions : Resolve.Functions)
    (arguments : List Value) {root value : Value} {place : List String}
    (hvalue : root.at? place = some value) :
    (session.get functions (.text (render session.dialect place)) arguments root).1 = .ok value := by
  rw [Session.get_eq_meaning hcoherent, Session.meaning,
    tokenize_render hconsistent hsimple hquotes place]
  show Resolve.read ⟨arguments, functions, false⟩ (TokenSet.ofNames place).tokens root = .ok value
  rw [← Plain.read_eq_resolve]
  exact read_of_at? hvalue

end Back

end Search

/-! ### Dialects in use -/

/-- A session takes the dialect to which a change leads, unless the change is one back. -/
theorem Session.exists_change {session : Session} {change : Change} (hchange : change ≠ .simple none)
    {dialect : Dialect} (h : session.dialect.change change = .ok dialect) :
    ∃ next, session.change change = .ok next ∧ next.dialect = dialect := by
  have huse : ∀ use : Dialect → Session, (∀ dialect, (use dialect).dialect = dialect) →
      ∃ next, (session.dialect.change change).map use = .ok next ∧ next.dialect = dialect := by
    intro use hdialect
    rw [h]
    exact ⟨use dialect, rfl, hdialect dialect⟩
  cases change with
  | simple separator =>
      cases separator with
      | none => exact absurd rfl hchange
      | some separator => exact huse _ fun _ => rfl
  | reset => exact huse _ fun _ => rfl
  | _ => exact huse session.useDialect fun _ => rfl

namespace Workspace

section InUse

variable (answers : Resolve.Functions) (options : Options) (first : Value)

/-- A dialect to which a change leads comes into use if the one that is changed does. -/
theorem exists_dialect_of_change {change : Change} (hchange : change ≠ .simple none)
    {dialect next : Dialect} (h : dialect.change change = .ok next)
    (hdialect : ∃ history, (after answers options first history).session.dialect = dialect) :
    ∃ history, (after answers options first history).session.dialect = next := by
  obtain ⟨history, rfl⟩ := hdialect
  obtain ⟨session, hsession, hnext⟩ := Session.exists_change hchange h
  refine ⟨history ++ [.change change], ?_⟩
  rw [after_concat, perform]
  simp only [hsession, hnext]

/-- **Every dialect comes into use**: from the default one, by way of dialects with fewer roles. -/
theorem exists_dialect {tables : Tables} {dialect : Dialect}
    (h : Dialect.ofTables tables = .ok dialect) :
    ∃ history, (after answers options first history).session.dialect = dialect := by
  have hcontainers : Dialect.standard.change (.containers []) =
      .ok ⟨⟨Dialect.standardTables.modifiers, Dialect.standardTables.separators, []⟩, '.', false⟩ := rfl
  have hempty : Dialect.change ⟨⟨Dialect.standardTables.modifiers,
      Dialect.standardTables.separators, []⟩, '.', false⟩ (.modifiers []) =
      .ok ⟨⟨[], Dialect.standardTables.separators, []⟩, '.', false⟩ := rfl
  have hseparators : Dialect.change ⟨⟨[], Dialect.standardTables.separators, []⟩, '.', false⟩
      (.separators tables.separators) =
      .ok ⟨⟨[], tables.separators, []⟩, dialect.property, false⟩ := by
    refine Dialect.ofTables_of_sublist h rfl ?_
    simp [Tables.bindings]
  have hmodifiers : Dialect.change ⟨⟨[], tables.separators, []⟩, dialect.property, false⟩
      (.modifiers tables.modifiers) =
      .ok ⟨⟨tables.modifiers, tables.separators, []⟩, dialect.property, false⟩ := by
    refine Dialect.ofTables_of_sublist h rfl ?_
    simp [Tables.bindings]
  have hall : Dialect.change ⟨⟨tables.modifiers, tables.separators, []⟩, dialect.property, false⟩
      (.containers tables.containers) = .ok dialect := h
  have hchanged := fun {change} (hchange : change ≠ .simple none) =>
    @exists_dialect_of_change answers options first change hchange
  refine hchanged ?_ hall (hchanged ?_ hmodifiers (hchanged ?_ hseparators (hchanged ?_ hempty
    (hchanged ?_ hcontainers ⟨[], rfl⟩))))
  all_goals exact fun heq => nomatch heq

end InUse

end Workspace

namespace Search

/-! ### A search and the way back -/

/-- **A search finds the matches, in order, and its path expressions lead back to them.**  In every
dialect that is not simple and has quotes, a search for all places gives one path expression for each
match and no other, in the order of the matches; a search for one place gives the first of these; and
in every session that uses the dialect (and there are such, by `Workspace.exists_dialect`), whatever its
history, each of them reads the value at its match. -/
theorem find_matches {tables : Tables} {dialect : Dialect}
    (hdialect : Dialect.ofTables tables = .ok dialect) (hquotes : dialect.quotes?.isSome = true)
    (target : Value) {root : Value} (hroot : root.Proper) :
    ∃ places : List (List String),
      (∀ place, place ∈ places ↔ IsMatch target root place) ∧
      places.Pairwise (Precedes root) ∧ places.Nodup ∧
      find dialect .many target root = places.map (render dialect) ∧
      (find dialect .many target root).Nodup ∧
      find dialect .one target root = (find dialect .many target root).take 1 ∧
      ∀ place ∈ places, ∃ value, root.at? place = some value ∧ value.same target = true ∧
        ∀ (answers : Resolve.Functions) (options : Options) (first : Value)
          (history : List Request) (functions : Resolve.Functions) (arguments : List Value),
          let session := (Workspace.after answers options first history).session
          session.dialect = dialect →
            (session.get functions (.text (render dialect place)) arguments root).1 = .ok value := by
  obtain ⟨hconsistent, -, hsimple⟩ := Dialect.of_ofTables hdialect
  have hmany : find dialect .many target root = (placesBelow target root).map (render dialect) := rfl
  have hordered : (placesBelow target root).Pairwise (Precedes root) := pairwise_placesBelow hroot
  have hnodup : (placesBelow target root).Nodup := hordered.imp Precedes.ne
  refine ⟨placesBelow target root, fun place => mem_placesBelow_iff hroot, hordered, hnodup, hmany,
    ?_, ?_, ?_⟩
  · rw [hmany]
    exact List.Nodup.map (render_injective hconsistent hsimple hquotes) hnodup
  · rw [hmany, find, searchBelow_eq_upTo, ← List.map_take]
    rfl
  · intro place hplace
    obtain ⟨value, hvalue, hsame⟩ := ((mem_placesBelow_iff hroot).mp hplace).reached
    refine ⟨value, hvalue, hsame, ?_⟩
    intro answers options first history functions arguments session hsession
    have hcoherent : session.Coherent := Workspace.coherent_after answers options first history
    subst hsession
    exact get_render hcoherent hconsistent hsimple hquotes functions arguments hvalue

/-- Two names that need quotes, on the way to a match in an element of an array, in a session that has
come to another dialect than the default one. -/
theorem find_matches_nested :
    let tables : Tables := ⟨[], [('/', .property)], [('«', .doubleQuote, '»')]⟩
    let dialect : Dialect := ⟨tables, '/', false⟩
    let root : Value := .object [("b/c", .array [.null, .object [("", .integer 1)]])]
    let history : List Request :=
      [.change (.containers tables.containers), .change (.modifiers tables.modifiers),
        .change (.separators tables.separators)]
    Dialect.ofTables tables = .ok dialect ∧ dialect.quotes?.isSome = true ∧ root.Proper ∧
      ∃ places : List (List String), ["b/c", "1", ""] ∈ places ∧
        find dialect .many (.integer 1) root = places.map (render dialect) ∧
        ∀ functions : Resolve.Functions,
          ((Workspace.after functions default root history).session.get functions
            (.text "«b/c»/1/«»") [] root).1 = .ok (.integer 1) := by
  intro tables dialect root history
  have hdialect : Dialect.ofTables tables = .ok dialect := rfl
  have hnull : Value.null.Proper := .of_no_child trivial (fun h => nomatch h) fun _ => rfl
  have hone : (Value.integer 1).Proper := .of_no_child trivial (fun h => nomatch h) fun _ => rfl
  have hroot : root.Proper := by
    simp [root, Value.Proper.object_iff, Value.Proper.array_iff, Members.names, indexBound, hnull, hone]
  obtain ⟨places, hmem, -, -, hmany, -, -, hback⟩ := find_matches hdialect rfl (.integer 1) hroot
  have hmatch : IsMatch (.integer 1) root ["b/c", "1", ""] :=
    (isMatch_cons_of_differs rfl rfl).mpr <| (isMatch_cons_of_differs rfl rfl).mpr <|
      (isMatch_cons_of_same rfl rfl).mpr rfl
  have hplace := (hmem _).mpr hmatch
  refine ⟨hdialect, rfl, hroot, places, hplace, hmany, ?_⟩
  intro functions
  obtain ⟨value, hvalue, -, hget⟩ := hback _ hplace
  cases hvalue
  exact hget functions default root history functions [] rfl

end Search

end PathExpr
