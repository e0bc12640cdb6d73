import PathExpr.Proofs.Forcing
import PathExpr.Proofs.PlainWrite

/-!
# A write to several targets is its single writes

A collection, a wildcard and a broadcast find out first where they write to, and then write there one
after the other.  A failure does not stop them, and the first one is what is reported.  So under a place
that exists they do what the writes along the names of their targets do (`Plain.writeAll`).

By the time a target is written to, the document is no longer the one that the targets were found in.
Two facts make up for that.  What a write does under a place depends on the value there alone
(`Plain.write_append`).  And no write removes a place that it does not go through
(`Plain.hasPlace_write`), so the places from which the targets are reached stay
(`Walk.written_gather`).
-/

namespace PathExpr

open Resolve

/-! ### Writes along names, one after the other -/

namespace Plain

variable {force : Bool} {value document : Value} {names others : List String}

/-- **Write along several lists of names**, one after the other, whether a write fails or not; the first
failure is reported. -/
def writeAll (force : Bool) (value : Value) : List (List String) → Value → Written
  | [], document => ⟨.ok (), document⟩
  | names :: rest, document =>
      let first := write force value names document
      let others := writeAll force value rest first.document
      ⟨first.outcome.bind fun _ => others.outcome, others.document⟩

/-- A descent leaves the members that are there. -/
theorem child?_descend {name other : String} {member child changed : Value}
    (h : document.child? other = some member)
    (hdescend : descend force name document = .ok (child, changed)) :
    changed.child? other = some member := by
  rcases descend_eq_ok_iff.mp hdescend with ⟨-, rfl⟩ | ⟨-, hnone, -, hset⟩
  · exact h
  · have hother : other ≠ name := by
      rintro rfl
      rw [h] at hnone
      cases hnone
    rw [Value.child?_setChild_of_ne hother hset, h]

/-- **A place that is not at the end of a write or below it** stays there, whether the write fails or
not. -/
theorem hasPlace_write (h : document.HasPlace others) (hnot : ¬names <+: others) :
    (write force value names document).document.HasPlace others := by
  induction names generalizing document others with
  | nil => exact absurd List.nil_prefix hnot
  | cons name rest ih =>
      cases others with
      | nil => exact ⟨_, rfl⟩
      | cons other more =>
          have hplace := h
          obtain ⟨old, hold⟩ := hplace
          rw [Value.at?_cons] at hold
          obtain ⟨member, hmember, hmore⟩ := Option.bind_eq_some_iff.mp hold
          by_cases hrest : rest = []
          · subst hrest
            have hother : other ≠ name := by
              rintro rfl
              exact hnot (List.cons_prefix_cons.mpr ⟨rfl, List.nil_prefix⟩)
            rw [write]
            cases hset : document.setChild name value with
            | error fault => exact h
            | ok changed =>
                refine ⟨old, ?_⟩
                rw [Value.at?_cons, Value.child?_setChild_of_ne hother hset, hold]
          · rw [write_cons hrest]
            cases hdescend : descend force name document with
            | error fault => exact h
            | ok found =>
                obtain ⟨child, changed⟩ := found
                have hchild : changed.child? name = some child := child?_of_descend hdescend
                have hkept : changed.child? other = some member := child?_descend hmember hdescend
                simp only [Value.HasPlace, Value.at?_cons]
                by_cases hother : other = name
                · subst hother
                  rw [hkept] at hchild
                  cases hchild
                  rw [Value.child?_replaceChild hkept, Option.bind_some]
                  exact ih ⟨old, hmore⟩ fun hstart => hnot (List.cons_prefix_cons.mpr ⟨rfl, hstart⟩)
                · have hset := Value.setChild_of_child? hchild (write force value rest child).document
                  rw [Value.child?_setChild_of_ne hother hset, hkept]
                  exact ⟨old, hmore⟩

/-- In particular a place does that has fewer names than are written along. -/
theorem hasPlace_write_of_length_lt (h : document.HasPlace others) (hlt : others.length < names.length) :
    (write force value names document).document.HasPlace others :=
  hasPlace_write h fun hstart => Nat.not_lt.mpr hstart.length_le hlt

end Plain

/-! ### Tokens with several targets -/

/-- **An item of a collection that names one place**: a plain name, or plain names in brackets. -/
inductive Token.Addresses : Token → List String → Prop where
  | plain (name : String) : Addresses (.plain name) [name]
  | brackets {inner : TokenSet} {names : List String} (h : inner.tokens = names.map .plain)
      (hnames : names ≠ []) : Addresses (.container .property inner false) names

/-- **The targets of a token** under a value, each as names from there on, in the order in which they are
written to. -/
inductive Token.PointsAt (parent : Value) : Token → List (List String) → Prop where
  /-- The items of a collection. -/
  | collection {items : List Token} {targets : List (List String)}
      (h : List.Forall₂ Token.Addresses items targets) : PointsAt parent (.collection items false) targets
  /-- A member of every element. -/
  | each {items : List Value} (h : parent = .array items) (name : String) :
      PointsAt parent (.word ⟨name, .none, none, true⟩)
        ((indexNames items.length).map fun index => [index, name])
  /-- The members that match a pattern. -/
  | wildcard {names : List String} (h : parent.memberNames? = some names) (before after : List Char) :
      PointsAt parent
        (.word ⟨String.ofList (before ++ wildcardMark :: after), .none,
          some (String.ofList before).utf8ByteSize, false⟩)
        ((names.filter (Glob.mk before after).matchesName).map fun name => [name])

/-- No item names its context. -/
theorem Token.ne_nil_of_addresses {items : List Token} {targets : List (List String)}
    (h : List.Forall₂ Token.Addresses items targets) : ∀ names ∈ targets, names ≠ [] := by
  induction h with
  | nil => exact List.forall_mem_nil _
  | cons hitem _ ih =>
      refine List.forall_mem_cons.mpr ⟨?_, ih⟩
      cases hitem with
      | plain name => exact List.cons_ne_nil name []
      | brackets hinner hnames => exact hnames

namespace Resolve

/-! ### What a walk leaves -/

namespace Walk

variable {α β : Type}

/-- **What a walk leaves** as a write: its outcome without its result, and the document. -/
def written (walk : Walk α) (s : State) : Written := ⟨(walk s).1.map fun _ => (), (walk s).2.document⟩

/-- What comes after a walk that succeeds is what is left. -/
theorem written_bind_of_ok {walk : Walk α} {next : α → Walk β} {a : α} {s t : State}
    (h : walk s = (.ok a, t)) : (walk >>= next).written s = (next a).written t := by
  rw [written, bind_of_ok h]
  rfl

/-- What is done with a result, but not to the document, is not seen in what is left. -/
theorem written_bind {walk : Walk α} {next : α → Walk β}
    (hnext : ∀ a s, ∃ b, (next a s).1 = .ok b ∧ (next a s).2.document = s.document) (s : State) :
    (walk >>= next).written s = walk.written s := by
  rcases h : walk s with ⟨fault | a, t⟩
  · rw [written, written, bind_of_error h, h]
    rfl
  · obtain ⟨b, hresult, hdocument⟩ := hnext a t
    rw [written, written, bind_of_ok h, h, hresult, hdocument]
    rfl

theorem written_map (walk : Walk α) (f : α → β) (s : State) :
    (f <$> walk).written s = walk.written s := by
  rw [map_eq_pure_bind]
  exact written_bind (fun a s => ⟨f a, rfl, rfl⟩) s

theorem written_enclosed (walk : Walk α) (s : State) : (enclosed walk).written s = walk.written s := rfl

/-- Of several walks, a failure of the first is what is left of all, and the others begin where the first
one ends. -/
theorem written_gather_cons (walk : Walk (Option Focus)) (rest : List (Walk (Option Focus))) (s : State) :
    (gather true (walk :: rest)).written s =
      ⟨(walk.written s).outcome.bind fun _ => ((gather true rest).written (walk s).2).outcome,
        ((gather true rest).written (walk s).2).document⟩ := by
  rcases hfirst : walk s with ⟨fault | found, t⟩
  · rw [written, gather_of_error hfirst, written, hfirst]
    rfl
  · rw [written, gather_of_ok hfirst, written, hfirst, written]
    rcases gather true rest t with ⟨_ | _, _⟩ <;> rfl

/-- **Several walks that write along names** do what those writes do one after the other, if each of them
does where something holds of the document, and none of the writes puts an end to that. -/
theorem written_gather {force : Bool} {value : Value} (holds : Value → Prop)
    {walks : List (Walk (Option Focus))} {targets : List (List String)}
    (h : List.Forall₂ (fun walk names => ∀ s, holds s.document →
      walk.written s = Plain.write force value names s.document) walks targets)
    (hkept : ∀ names ∈ targets, ∀ document, holds document →
      holds (Plain.write force value names document).document)
    {s : State} (hs : holds s.document) :
    (gather true walks).written s = Plain.writeAll force value targets s.document := by
  induction h generalizing s with
  | nil => rfl
  | @cons walk names walks targets hwalk _ ih =>
      obtain ⟨hfirst, hothers⟩ := List.forall_mem_cons.mp hkept
      have hleft : walk.written s = Plain.write force value names s.document := hwalk s hs
      have hdocument : (walk s).2.document = (Plain.write force value names s.document).document :=
        congrArg Written.document hleft
      have hmid : holds (walk s).2.document := hdocument ▸ hfirst s.document hs
      rw [written_gather_cons, hleft, ih hothers hmid, hdocument, Plain.writeAll]

end Walk

/-! ### One target -/

section Targets

variable {env : Env} {value parent document : Value} {path : List String} {s : State}

/-- To assign a member under a place is to write along one name more. -/
theorem access_written (h : s.document.at? path = some parent) (name : String) (force create : Bool) :
    (access (.place path) name (.write value) create).written s =
      Plain.write force value (path ++ [name]) s.document := by
  rw [Walk.written, access_write_place h, Plain.write_append h (List.cons_ne_nil name []), Plain.write]
  cases parent.setChild name value with
  | error fault =>
      show Written.mk _ s.document = _
      rw [Value.replaceAt_at? h]
      rfl
  | ok changed => rfl

/-- To write along plain tokens is to write along their names. -/
theorem names_written {names : List String} (hnames : names ≠ []) (h : s.document.at? path = some parent) :
    (advance env (names.map .plain) (.write value) false (.place path)).written s =
      Plain.write env.force value (path ++ names) s.document := by
  obtain ⟨trail, htrail⟩ := advance_write_names env value hnames h
  rw [Walk.written, htrail, Plain.write_append h hnames]
  cases (Plain.write env.force value names parent).outcome <;> rfl

/-- An item that names a place writes there. -/
theorem item_written {item : Token} {names : List String} (hitem : item.Addresses names)
    (h : s.document.at? path = some parent) :
    (step env item (.write value) false (.place path)).written s =
      Plain.write env.force value (path ++ names) s.document := by
  cases hitem with
  | plain name => exact access_written h name env.force false
  | @brackets inner names hinner hnames =>
      have hstep : step env (.container .property inner false) (.write value) false (.place path) =
          Walk.enclosed (advance env inner.tokens (.write value) false (.place path)) := rfl
      rw [hstep, hinner, Walk.written_enclosed, names_written hnames h]

/-! ### All targets -/

/-- The members that match a pattern. -/
theorem wildcard_written {names : List String} (h : s.document.at? path = some parent)
    (hnames : parent.memberNames? = some names) (glob : Glob) (force : Bool) :
    (wildcard (.place path) glob (.write value)).written s =
      Plain.writeAll force value ((names.filter glob.matchesName).map fun name => path ++ [name])
        s.document := by
  have hmembers : Walk.asking (Focus.place path).memberNames s = (.ok names, s) := by
    rw [Walk.asking, Focus.memberNames, Focus.lookup, h]
    simp only [Except.bind, Focus.valueNames, hnames]
  refine (Walk.written_bind_of_ok hmembers).trans ?_
  refine (Walk.written_bind (fun found s => ⟨.fan found, rfl, rfl⟩) s).trans ?_
  refine Walk.written_gather (Value.HasPlace · path) ?_ ?_ ⟨parent, h⟩
  · rw [List.forall₂_map_left_iff, List.forall₂_map_right_iff]
    refine List.forall₂_same.mpr fun name _ t ht => ?_
    obtain ⟨found, hfound⟩ := ht
    exact (Walk.written_map _ some t).trans (access_written hfound name force false)
  · refine List.forall_mem_map.mpr fun name _ document hplace => ?_
    exact Plain.hasPlace_write_of_length_lt hplace (by simp)

/-- **Names under every element**, if that is where the step writes. -/
theorem spread_written {items : List Value} (h : s.document.at? path = some (.array items))
    {apply : Focus → Walk Focus} {force : Bool} {names : List String}
    (happly : ∀ inner (t : State), t.document.HasPlace inner →
      (apply (.place inner)).written t = Plain.write force value (inner ++ names) t.document)
    (hnames : names ≠ []) :
    (spread true (.write value) (.place path) apply).written s =
      Plain.writeAll force value ((indexNames items.length).map fun index => path ++ [index] ++ names)
        s.document := by
  -- A target needs its element, and no other target is above that.
  let elementsStand (document : Value) : Prop :=
    ∀ index ∈ indexNames items.length, document.HasPlace (path ++ [index])
  have hstand : elementsStand s.document := by
    intro index hindex
    obtain ⟨item, -, hitem⟩ := Value.exists_child?_of_mem_indexNames hindex
    exact ⟨item, (Value.at?_concat h index).trans hitem⟩
  have helements : Walk.asking (Focus.place path).elements s =
      (.ok ((indexNames items.length).map fun index => .place (path ++ [index])), s) := by
    rw [Walk.asking, Focus.elements, Focus.lookup, h]
  refine (Walk.written_bind_of_ok helements).trans ?_
  refine (Walk.written_bind (fun found s => ⟨.fan found, rfl, rfl⟩) s).trans ?_
  refine Walk.written_gather elementsStand ?_ ?_ hstand
  · rw [List.map_map, List.forall₂_map_left_iff, List.forall₂_map_right_iff]
    refine List.forall₂_same.mpr fun index hindex t ht => ?_
    have hpushed := happly (path ++ [index])
      { t with trail := t.trail ++ [.place (path ++ [index])] } (ht index hindex)
    exact (Walk.written_map _ some t).trans hpushed
  · refine List.forall_mem_map.mpr fun target _ document hplaces index hindex => ?_
    refine Plain.hasPlace_write_of_length_lt (hplaces index hindex) ?_
    have hpos := List.length_pos_of_ne_nil hnames
    simp only [List.length_append, List.length_singleton]
    omega

/-- The items of a collection, each of which names a place. -/
theorem members_written {items : List Token} {targets : List (List String)}
    (h : List.Forall₂ Token.Addresses items targets) :
    List.Forall₂ (fun walk names => ∀ s : State, s.document.HasPlace path →
        walk.written s = Plain.write env.force value names s.document)
      (members env items (.write value) (.place path)) (targets.map (path ++ ·)) := by
  induction h with
  | nil => exact .nil
  | @cons item names items targets hitem _ ih =>
      rw [members_cons, List.map_cons]
      refine .cons (fun s hs => ?_) ih
      obtain ⟨parent, hparent⟩ := hs
      exact (Walk.written_bind (fun found s => ⟨_, rfl, rfl⟩) s).trans (item_written hitem hparent)

/-- **What one token with several targets leaves** is what the writes to its targets leave. -/
theorem step_written {token : Token} {targets : List (List String)} (h : token.PointsAt parent targets)
    (hparent : s.document.at? path = some parent) :
    (step env token (.write value) false (.place path)).written s =
      Plain.writeAll env.force value (targets.map (path ++ ·)) s.document := by
  cases h with
  | @collection items targets hitems =>
      rw [step_collection]
      refine (Walk.written_bind (fun found s => ⟨.fan found, rfl, rfl⟩) s).trans ?_
      refine Walk.written_gather (Value.HasPlace · path) (members_written hitems) ?_ ⟨parent, hparent⟩
      refine List.forall_mem_map.mpr fun names hnames document hplace => ?_
      refine Plain.hasPlace_write_of_length_lt hplace ?_
      have hpos := List.length_pos_of_ne_nil (Token.ne_nil_of_addresses hitems names hnames)
      rw [List.length_append]
      omega
  | @each items harray name =>
      subst harray
      have hmember : ∀ inner (t : State), t.document.HasPlace inner →
          (word env ⟨name, .none, none, true⟩ (.write value) false (.place inner)).written t =
            Plain.write env.force value (inner ++ [name]) t.document := by
        rintro inner t ⟨element, helement⟩
        exact access_written helement name env.force false
      refine (spread_written hparent hmember (List.cons_ne_nil name [])).trans ?_
      simp only [List.map_map, Function.comp_def, List.append_assoc, List.singleton_append]
  | @wildcard names hnames before after =>
      let w : Word := ⟨String.ofList (before ++ wildcardMark :: after), .none,
        some (String.ofList before).utf8ByteSize, false⟩
      have hglob : Glob.ofWord? w w.name = .ok (some ⟨before, after⟩) :=
        congrArg (Except.map some) (Glob.ofPlace_append before after)
      have hmatch : step env (.word w) (.write value) false (.place path) =
          wildcard (.place path) ⟨before, after⟩ (.write value) :=
        word_of_glob env rfl (.write value) false (.place path) hglob
      refine (congrArg (Walk.written · s) hmatch).trans ?_
      rw [List.map_map]
      exact wildcard_written hparent hnames ⟨before, after⟩ env.force

end Targets

/-- **To write to several targets under a place is to write to each of them**, in order and whatever
becomes of the others, and to report the first failure. -/
theorem write_targets {path : List String} {parent document : Value}
    (hpath : Plain.read document path = .ok parent) {token : Token} {targets : List (List String)}
    (htargets : token.PointsAt parent targets) (env : Env) (value : Value) :
    write env (path.map .plain ++ [token]) value document =
      Plain.writeAll env.force value (targets.map (path ++ ·)) document := by
  have hroot : (State.start document).document.at? [] = some document := rfl
  obtain ⟨trail, htrail⟩ := advance_read_names env path hroot
  rw [hpath] at htrail
  -- What is there is found also by a walk that could make it.
  have hreach : advance env (path.map .plain) .read env.force .root (.start document) =
      (.ok (.place path), ⟨document, trail⟩) :=
    @advance_extends env env.force id (path.map .plain) .read false env.force (fun h => nomatch h)
      .root (.start document) _ _ htrail
  rw [write_eq_advance env (by simp), advance_append env _ (List.cons_ne_nil token [])]
  refine (Walk.written_bind_of_ok hreach).trans ?_
  rw [advance_singleton]
  refine (Walk.written_bind (fun found s => ⟨found, rfl, rfl⟩) _).trans ?_
  exact step_written htargets (Plain.read_eq_ok_iff.mp hpath)

/-- Items that fail in different ways, with others between them and behind them. -/
theorem write_targets_some_fail :
    let parent : Value := .object [("n", .integer 2), ("o", .object [])]
    let under (name : String) : Token :=
      .container .property (TokenSet.ofNames [name, "k"]) false
    let token : Token := .collection [under "n", .plain "x", under "m", under "o"] false
    let targets : List (List String) := [["n", "k"], ["x"], ["m", "k"], ["o", "k"]]
    let changed : Value :=
      .object [("n", .integer 2), ("o", .object [("k", .null)]), ("x", .null)]
    Plain.read (.object [("a", parent)]) ["a"] = .ok parent ∧ token.PointsAt parent targets ∧
      write ⟨[], fun _ _ _ => none, false⟩ [.plain "a", token] .null (.object [("a", parent)]) =
        ⟨.error (.assignment (.member "k" .integer)), .object [("a", changed)]⟩ := by
  intro parent under token targets changed
  have hread : Plain.read (.object [("a", parent)]) ["a"] = .ok parent := rfl
  have hunder : ∀ name, (under name).Addresses [name, "k"] := fun name =>
    .brackets rfl (List.cons_ne_nil name ["k"])
  have htargets : token.PointsAt parent targets :=
    .collection (.cons (hunder "n") (.cons (.plain "x") (.cons (hunder "m") (.cons (hunder "o") .nil))))
  exact ⟨hread, htargets, write_targets hread htargets ⟨[], fun _ _ _ => none, false⟩ .null⟩

end Resolve

end PathExpr
