import Mathlib.Data.List.Infix
import PathExpr.Proofs.Positions

/-!
# Where a container ends

The search for the closer of a container goes along the text and counts what is still to be closed
(`Enclosed.length`).  Here it is said without the search which closer that is: the first one by which
closers outnumber openers, or in quotes the first one at all, where only those characters count that no
escape consumes (`Enclosed.bare`).

What carries this over from the search is that a text in front can be taken off, if the container is not
closed in it: what is found behind it is found with other openers to be closed
(`Enclosed.found_append_iff`).  The search takes off a character or an escaped pair at a time
(`Enclosed.length_eq_ok_iff`).  `Enclosed.ends_at_first_closer` adds what is done with the text in between,
and what is reported where no such closer is found.
-/

namespace PathExpr

namespace Enclosed

/-! ### Bare characters and escaped ones -/

/-- **The bare characters** of a text: those that no escape consumes, without the escapes. -/
def bare : List Char → List Char
  | [] => []
  | c :: rest =>
      if c = escapeMark then
        match rest with
        | [] => []
        | _ :: rest => bare rest
      else c :: bare rest

@[simp] theorem bare_nil : bare [] = [] := rfl

theorem bare_escape (c : Char) (rest : List Char) : bare (escapeMark :: c :: rest) = bare rest := by
  rw [bare, if_pos rfl]

theorem bare_cons_of_ne {c : Char} (h : c ≠ escapeMark) (rest : List Char) :
    bare (c :: rest) = c :: bare rest := by
  rw [bare.eq_def]
  simp only [if_neg h]

/-- **A text is reduced to a literal** by replacing each escaped pair by its second character. -/
inductive Reduces : List Char → List Char → Prop where
  | nil : Reduces [] []
  | bare {c : Char} {raw literal : List Char} (h : c ≠ escapeMark) (hrest : Reduces raw literal) :
      Reduces (c :: raw) (c :: literal)
  | pair (c : Char) {raw literal : List Char} (hrest : Reduces raw literal) :
      Reduces (escapeMark :: c :: raw) (c :: literal)

/-- Every text can be reduced that does not end in an escape with nothing behind it. -/
theorem reduces_unescape {raw : List Char} (h : dangles raw = false) : Reduces raw (unescape raw) := by
  induction raw using dangles.induct with
  | case1 => exact .nil
  | case2 => cases h
  | case3 c rest ih =>
      rw [dangles_escape] at h
      rw [unescape_escape]
      exact .pair c (ih h)
  | case4 c rest hne ih =>
      rw [dangles_cons_of_ne hne] at h
      rw [unescape_cons_of_ne hne]
      exact .bare hne (ih h)

/-- There is only one literal that a text is reduced to. -/
theorem Reduces.eq_unescape {raw literal : List Char} (h : Reduces raw literal) :
    literal = unescape raw := by
  induction h with
  | nil => rfl
  | bare hne _ ih => rw [unescape_cons_of_ne hne, ih]
  | pair c _ ih => rw [unescape_escape, ih]

/-! ### The first closer that ends a container -/

/-- **A closer ends a container** right behind a text in it: by then the container is closed, and nowhere
before.  Here `closed` says whether the container is closed by the end of a text that begins in it. -/
structure EndsBehind (closed : List Char → Prop) (closer : Char) (raw : List Char) : Prop where
  before : ∀ front, front <+: raw → ¬ closed front
  behind : closed (raw ++ [closer])

/-- The closer that ends a container stands behind a number of characters. -/
def Found (closed : List Char → Prop) (closer : Char) (text : List Char) (count : Nat) : Prop :=
  ∃ raw rest, text = raw ++ closer :: rest ∧ raw.length = count ∧ EndsBehind closed closer raw

variable {opener closer : Char} {closed later : List Char → Prop} {count : Nat}

/-- **A text in which the container is not closed can be taken off.** -/
theorem found_append_iff (front : List Char) {text : List Char}
    (hfront : ∀ start, start <+: front → ¬ closed start)
    (hlater : ∀ text, closed (front ++ text) ↔ later text) :
    Found closed closer (front ++ text) count ↔
      ∃ less, Found later closer text less ∧ less + front.length = count := by
  constructor
  · rintro ⟨raw, rest, htext, rfl, hends⟩
    obtain ⟨inside, rfl, hinside⟩ :
        ∃ inside, raw = front ++ inside ∧ text = inside ++ closer :: rest := by
      rcases List.append_eq_append_iff.mp htext with ⟨inside, hraw, hinside⟩ | ⟨left, rfl, hleft⟩
      · exact ⟨inside, hraw, hinside⟩
      · cases left with
        | nil => exact ⟨[], by simp, by simpa using hleft.symm⟩
        | cons c left =>
            -- The closer would stand in the front.
            cases hleft
            exact absurd hends.behind (hfront _ ⟨left, by simp⟩)
    refine ⟨inside.length, ⟨inside, rest, hinside, rfl, fun start hstart => ?_, ?_⟩, ?_⟩
    · rw [← hlater]
      exact hends.before _ ((List.prefix_append_right_inj front).mpr hstart)
    · rw [← hlater, ← List.append_assoc]
      exact hends.behind
    · rw [List.length_append, Nat.add_comm]
  · rintro ⟨less, ⟨inside, rest, rfl, rfl, hends⟩, rfl⟩
    refine ⟨front ++ inside, rest, by simp, by rw [List.length_append, Nat.add_comm], ?_, ?_⟩
    · intro start hstart
      rcases List.prefix_or_prefix_of_prefix hstart (List.prefix_append front inside) with
        hshort | ⟨more, rfl⟩
      · exact hfront start hshort
      · rw [hlater]
        exact hends.before more ((List.prefix_append_right_inj front).mp hstart)
    · rw [List.append_assoc, hlater]
      exact hends.behind

/-- In no text nothing is found. -/
theorem not_found_nil : ¬ Found closed closer [] count := by
  rintro ⟨raw, rest, htext, -, -⟩
  cases raw <;> cases htext

/-! ### The search -/

section Search

variable {nests : Bool} {depth : Nat}

/-- **Closers outnumber openers**, by more than `depth`; where openers do not count, or are closers, there
are enough closers. -/
def Outnumbered (opener closer : Char) (nests : Bool) (depth : Nat) (text : List Char) : Prop :=
  depth + (if nests = true ∧ opener ≠ closer then (bare text).count opener else 0) <
    (bare text).count closer

theorem not_outnumbered_of_bare {text : List Char} (h : bare text = []) :
    ¬ Outnumbered opener closer nests depth text := by
  rw [Outnumbered, h]
  exact Nat.not_lt_zero _

/-- An escaped pair does not count. -/
theorem outnumbered_escape (c : Char) (rest : List Char) :
    Outnumbered opener closer nests depth (escapeMark :: c :: rest) ↔
      Outnumbered opener closer nests depth rest := by
  rw [Outnumbered, bare_escape, Outnumbered]

/-- A closer makes up for an opener. -/
theorem outnumbered_closer (h : closer ≠ escapeMark) (rest : List Char) :
    Outnumbered opener closer nests (depth + 1) (closer :: rest) ↔
      Outnumbered opener closer nests depth rest := by
  rw [Outnumbered, Outnumbered, bare_cons_of_ne h, List.count_cons_self]
  split
  · next hcounts =>
      rw [List.count_cons_of_ne hcounts.2.symm]
      omega
  · omega

/-- Without an opener to make up for, the closer is one too many. -/
theorem outnumbered_closer_zero (h : closer ≠ escapeMark) :
    Outnumbered opener closer nests 0 [closer] := by
  rw [Outnumbered, bare_cons_of_ne h, bare_nil, List.count_singleton_self]
  split
  · next hcounts =>
      rw [List.count_cons_of_ne hcounts.2.symm]
      exact Nat.zero_lt_one
  · exact Nat.zero_lt_one

/-- An opener that counts is one more to make up for. -/
theorem outnumbered_opener (h : opener ≠ escapeMark) (hne : opener ≠ closer) (rest : List Char) :
    Outnumbered opener closer true depth (opener :: rest) ↔
      Outnumbered opener closer true (depth + 1) rest := by
  rw [Outnumbered, Outnumbered, bare_cons_of_ne h, List.count_cons_of_ne hne, if_pos ⟨rfl, hne⟩,
    if_pos ⟨rfl, hne⟩, List.count_cons_self]
  omega

/-- No other character counts. -/
theorem outnumbered_other {c : Char} (h : c ≠ escapeMark) (hcloser : c ≠ closer)
    (hopener : ¬(nests = true ∧ c = opener)) (rest : List Char) :
    Outnumbered opener closer nests depth (c :: rest) ↔
      Outnumbered opener closer nests depth rest := by
  rw [Outnumbered, Outnumbered, bare_cons_of_ne h, List.count_cons_of_ne hcloser]
  split
  · next hcounts => rw [List.count_cons_of_ne fun hc => hopener ⟨hcounts.1, hc⟩]
  · rfl

/-- An escaped pair is taken off as a whole. -/
theorem found_escape_iff {c : Char} {rest : List Char} :
    Found (Outnumbered opener closer nests depth) closer (escapeMark :: c :: rest) count ↔
      ∃ less, Found (Outnumbered opener closer nests depth) closer rest less ∧ less + 2 = count := by
  refine found_append_iff [escapeMark, c] (fun start hstart => ?_) (outnumbered_escape c)
  refine not_outnumbered_of_bare ?_
  rcases List.prefix_cons_iff.mp hstart with rfl | ⟨start, rfl, hrest⟩
  · rfl
  · rcases List.prefix_cons_iff.mp hrest with rfl | ⟨start, rfl, hnil⟩
    · rfl
    · rw [List.prefix_nil.mp hnil, bare_escape, bare_nil]

/-- A character that does not close the container is taken off. -/
theorem found_cons_iff {c : Char} {rest : List Char} {after : Nat}
    (hopen : ¬ Outnumbered opener closer nests depth [c])
    (hlater : ∀ text, Outnumbered opener closer nests depth (c :: text) ↔
      Outnumbered opener closer nests after text) :
    Found (Outnumbered opener closer nests depth) closer (c :: rest) count ↔
      ∃ less, Found (Outnumbered opener closer nests after) closer rest less ∧ less + 1 = count := by
  refine found_append_iff [c] (fun start hstart => ?_) hlater
  rcases List.prefix_cons_iff.mp hstart with rfl | ⟨start, rfl, hnil⟩
  · exact not_outnumbered_of_bare rfl
  · rwa [List.prefix_nil.mp hnil]

/-- What is found some characters further on is counted with them. -/
theorem map_add_eq_ok_iff {result : Except SyntaxError Nat} {more : Nat} :
    result.map (· + more) = .ok count ↔ ∃ less, result = .ok less ∧ less + more = count := by
  constructor
  · exact exists_of_map_eq_ok
  · rintro ⟨less, rfl, rfl⟩
    rfl

/-- **The search finds the closer that ends the container**, and finds it if there is one. -/
theorem length_eq_ok_iff {unclosed : SyntaxError} {position : Nat} {text : List Char} :
    length opener closer nests unclosed depth position text = .ok count ↔
      Found (Outnumbered opener closer nests depth) closer text count := by
  fun_induction length opener closer nests unclosed depth position text generalizing count with
  | case1 =>
      refine iff_of_false (fun h => ?_) not_found_nil
      cases h
  | case2 =>
      constructor
      · intro h
        cases h
      · rintro ⟨raw, rest, htext, -, hends⟩
        cases raw with
        | nil =>
            cases htext
            exact absurd hends.behind (not_outnumbered_of_bare rfl)
        | cons c raw =>
            cases raw <;> cases htext
  | case3 depth position c rest ih =>
      rw [map_add_eq_ok_iff, found_escape_iff]
      exact exists_congr fun less => and_congr_left' ih
  | case4 position rest hescape =>
      constructor
      · intro h
        cases h
        refine ⟨[], rest, rfl, rfl, fun start hstart => ?_, outnumbered_closer_zero hescape⟩
        rw [List.prefix_nil.mp hstart]
        exact not_outnumbered_of_bare rfl
      · rintro ⟨raw, after, htext, rfl, hends⟩
        cases raw with
        | nil => rfl
        | cons c raw =>
            -- The closer in front has ended the container before.
            cases htext
            exact absurd (outnumbered_closer_zero hescape) (hends.before _ ⟨raw, rfl⟩)
  | case5 position rest depth hescape ih =>
      have hopen : ¬ Outnumbered opener closer nests (depth + 1) [closer] := by
        rw [outnumbered_closer hescape]
        exact not_outnumbered_of_bare rfl
      rw [map_add_eq_ok_iff, found_cons_iff hopen (outnumbered_closer hescape)]
      exact exists_congr fun less => and_congr_left' ih
  | case6 depth position c rest hescape hcloser hopens ih =>
      obtain ⟨rfl, rfl⟩ : nests = true ∧ c = opener := by simpa using hopens
      have hopen : ¬ Outnumbered c closer true depth [c] := by
        rw [outnumbered_opener hescape hcloser]
        exact not_outnumbered_of_bare rfl
      rw [map_add_eq_ok_iff, found_cons_iff hopen (outnumbered_opener hescape hcloser)]
      exact exists_congr fun less => and_congr_left' ih
  | case7 depth position c rest hescape hcloser hopens ih =>
      have hother : ¬(nests = true ∧ c = opener) := by simpa using hopens
      have hopen : ¬ Outnumbered opener closer nests depth [c] := by
        rw [outnumbered_other hescape hcloser hother]
        exact not_outnumbered_of_bare rfl
      rw [map_add_eq_ok_iff, found_cons_iff hopen (outnumbered_other hescape hcloser hother)]
      exact exists_congr fun less => and_congr_left' ih

end Search

/-! ### What is enclosed -/

/-- **Is a container closed** by the end of a text that begins in it?  In quotes, and where the container
closes with the character that opens it, one closer is enough; otherwise there have to be more closers than
openers.  Escaped characters do not count. -/
def Closed (opener closer : Char) (role : ContainerRole) (text : List Char) : Prop :=
  if role.isQuote = true ∨ opener = closer then closer ∈ bare text
  else (bare text).count opener < (bare text).count closer

/-- That is what the search counts. -/
theorem closed_iff_outnumbered {role : ContainerRole} {text : List Char} :
    Closed opener closer role text ↔ Outnumbered opener closer (!role.isQuote) 0 text := by
  rw [Closed, Outnumbered, Nat.zero_add]
  by_cases hcounts : role.isQuote = true ∨ opener = closer
  · have hnone : ¬((!role.isQuote) = true ∧ opener ≠ closer) := by
      rintro ⟨hrole, hne⟩
      rcases hcounts with hquote | heq
      · rw [hquote] at hrole
        cases hrole
      · exact hne heq
    rw [if_pos hcounts, if_neg hnone, List.count_pos_iff]
  · have hboth : (!role.isQuote) = true ∧ opener ≠ closer := by simpa using hcounts
    rw [if_neg hcounts, if_pos hboth]

/-- The first closer that ends a container is the one that the search finds. -/
theorem length_eq_ok_iff_closed {role : ContainerRole} {unclosed : SyntaxError} {position : Nat}
    {text : List Char} :
    length opener closer (!role.isQuote) unclosed 0 position text = .ok count ↔
      Found (Closed opener closer role) closer text count := by
  have hclosed : Closed opener closer role = Outnumbered opener closer (!role.isQuote) 0 :=
    funext fun _ => propext closed_iff_outnumbered
  rw [length_eq_ok_iff, hclosed]

/-- Behind an escape that has nothing to escape, a character is escaped. -/
theorem bare_concat_of_dangles {text : List Char} (h : dangles text = true) (c : Char) :
    bare (text ++ [c]) = bare text := by
  induction text using dangles.induct with
  | case1 => cases h
  | case2 => exact bare_escape c []
  | case3 d rest ih =>
      rw [dangles_escape] at h
      rw [List.cons_append, List.cons_append, bare_escape, bare_escape, ih h]
  | case4 d rest hne ih =>
      rw [dangles_cons_of_ne hne] at h
      rw [List.cons_append, bare_cons_of_ne hne, bare_cons_of_ne hne, ih h]

/-- A closer that ends a container is not escaped. -/
theorem EndsBehind.dangles_eq_false {role : ContainerRole} {raw : List Char}
    (h : EndsBehind (Closed opener closer role) closer raw) : dangles raw = false := by
  rw [← Bool.not_eq_true]
  intro hdangles
  have hbehind := h.behind
  rw [Closed, bare_concat_of_dangles hdangles] at hbehind
  exact h.before raw (List.prefix_refl raw) hbehind

section Contents

variable {role : ContainerRole}

/-- What stands in front of the closer is enclosed. -/
theorem contents_append {raw : List Char} (h : EndsBehind (Closed opener closer role) closer raw)
    (position : Nat) (rest : List Char) :
    contents opener closer role position (raw ++ closer :: rest) =
      .ok ⟨raw, unescape raw, rest, position + raw.length + 2⟩ :=
  contents_of_length (length_eq_ok_iff_closed.mpr ⟨raw, rest, rfl, rfl, h⟩)

/-- Without such a closer, the fault is that of a container that is not closed. -/
theorem contents_of_forall {text : List Char}
    (h : ∀ raw rest, text = raw ++ closer :: rest →
      ¬ EndsBehind (Closed opener closer role) closer raw) (position : Nat) :
    contents opener closer role position text =
      .error (if dangles text then .trailingEscape (position + text.length)
        else .unclosedContainer opener position) := by
  cases hcontents : contents opener closer role position text with
  | ok found =>
      obtain ⟨count, hlength, -⟩ := exists_of_map_eq_ok hcontents
      obtain ⟨raw, rest, htext, -, hends⟩ := length_eq_ok_iff_closed.mp hlength
      exact absurd hends (h raw rest htext)
  | error fault =>
      rw [eq_unfinished_of_contents hcontents, unfinished, Nat.add_right_comm, Nat.add_sub_cancel]

end Contents

/-- **A container ends at the first closer that closes it**, and encloses what is between: raw as it stands
there, and as a literal with each escaped pair replaced by its second character; what follows begins right
behind that closer.  If there is none, the fault is the last character, if that is an escape with nothing to
escape, and else the opener. -/
theorem ends_at_first_closer (opener closer : Char) (role : ContainerRole) (position : Nat)
    (text : List Char) :
    (∀ found, contents opener closer role position text = .ok found ↔
      ∃ raw literal rest, text = raw ++ closer :: rest ∧
        EndsBehind (Closed opener closer role) closer raw ∧ Reduces raw literal ∧
        found = ⟨raw, literal, rest, position + raw.length + 2⟩) ∧
    (∀ fault, contents opener closer role position text = .error fault ↔
      (∀ raw rest, text = raw ++ closer :: rest →
        ¬ EndsBehind (Closed opener closer role) closer raw) ∧
      fault = if dangles text then .trailingEscape (position + text.length)
        else .unclosedContainer opener position) := by
  by_cases h : ∃ raw rest, text = raw ++ closer :: rest ∧
      EndsBehind (Closed opener closer role) closer raw
  · obtain ⟨raw, rest, rfl, hends⟩ := h
    refine ⟨fun found => ⟨fun hfound => ?_, ?_⟩, fun fault => ⟨fun hfault => ?_, ?_⟩⟩
    · rw [contents_append hends] at hfound
      cases hfound
      exact ⟨raw, unescape raw, rest, rfl, hends, reduces_unescape hends.dangles_eq_false, rfl⟩
    · rintro ⟨other, literal, after, htext, hother, hreduces, rfl⟩
      rw [htext, contents_append hother, hreduces.eq_unescape]
    · rw [contents_append hends] at hfault
      cases hfault
    · rintro ⟨hnone, -⟩
      exact absurd hends (hnone raw rest rfl)
  · have hnone : ∀ raw rest, text = raw ++ closer :: rest →
        ¬ EndsBehind (Closed opener closer role) closer raw :=
      fun raw rest htext hends => h ⟨raw, rest, htext, hends⟩
    rw [contents_of_forall hnone]
    refine ⟨fun found => iff_of_false (fun hfalse => nomatch hfalse) ?_, fun fault => ?_⟩
    · rintro ⟨raw, literal, rest, htext, hends, -, -⟩
      exact hnone raw rest htext hends
    · constructor
      · intro hfault
        cases hfault
        exact ⟨hnone, rfl⟩
      · rintro ⟨-, rfl⟩
        rfl

/-- Brackets in brackets, with a closing one that is escaped; in quotes the first closing one is the last. -/
example :
    let text := ['a', '[', 'b', ']', escapeMark, ']', 'c', ']', 'd']
    contents '[' ']' .property 4 text =
        .ok ⟨['a', '[', 'b', ']', escapeMark, ']', 'c'], ['a', '[', 'b', ']', ']', 'c'], ['d'], 13⟩ ∧
      contents '[' ']' .singleQuote 4 text =
        .ok ⟨['a', '[', 'b'], ['a', '[', 'b'], [escapeMark, ']', 'c', ']', 'd'], 9⟩ :=
  ⟨rfl, rfl⟩

end Enclosed

end PathExpr
