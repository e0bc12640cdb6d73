import PathExpr.Proofs.Persistence
import PathExpr.Proofs.Standing
import PathExpr.Proofs.Trail

/-!
# What was written is what the same tokens read

Names without modifiers, also with broadcasts and wildcards, lead a write to places that are all equally
deep, in lists that are equally nested (`Focus.HasRank`).  Along the tokens the depth never shrinks, and a
token makes objects or assigns at one depth only.  So when the same tokens read the document that the write
has left, they go the same way: which elements and members there are has been asked above the depth at
which anything has changed since.

A walk is *repeated* by another if that one has the same result wherever the documents keep what the first
has left (`Walk.Repeats`, `Value.Keeps`).  What a token does to one context is repeated however many other
contexts there are at the same depth (`single_repeats`), so one token finds again what it reached
(`step_again`).  What comes behind it leaves all outlines above, and by induction tokens in sequence find
again what they wrote (`advance_again`).
-/

namespace PathExpr

open Resolve Value

/-- **A token that looks nowhere but at its context**: a name without modifiers. -/
inductive Token.Unmodified : Token → Prop where
  | plain (name : String) : Unmodified (.plain name)
  | word {w : Word} (h : w.modifiers = .none) : Unmodified (.word w)

namespace Resolve

/-! ### Trees of places -/

/-- **How places are arranged** in a result: how deep in lists, and with how many names each. -/
structure Rank where
  nesting : Nat
  depth : Nat

namespace Rank

/-- The rank of what a name reaches: an item of a list, and else a place one name deeper. -/
def item : Rank → Rank
  | ⟨0, depth⟩ => ⟨0, depth + 1⟩
  | ⟨nesting + 1, depth⟩ => ⟨nesting, depth⟩

/-- The rank of a list. -/
def list (rank : Rank) : Rank := ⟨rank.nesting + 1, rank.depth⟩

theorem depth_le_item (rank : Rank) : rank.depth ≤ rank.item.depth := by
  obtain ⟨_ | nesting, depth⟩ := rank
  · exact Nat.le_succ depth
  · exact Nat.le_refl depth

end Rank

namespace Focus

/-- **A tree of places** of some rank. -/
inductive HasRank : Rank → Focus → Prop where
  | place (path : List String) : HasRank ⟨0, path.length⟩ (.place path)
  | fan {rank : Rank} {items : List Focus} (h : ∀ item ∈ items, HasRank rank item) :
      HasRank rank.list (.fan items)

/-- **Every place holds a value.** -/
inductive Holds (document value : Value) : Focus → Prop where
  | place {path : List String} (h : document.at? path = some value) : Holds document value (.place path)
  | fan {items : List Focus} (h : ∀ item ∈ items, Holds document value item) :
      Holds document value (.fan items)

/-- Where every place holds a value, there is something to read. -/
theorem Holds.standing {document value : Value} {focus : Focus} (h : focus.Holds document value) :
    focus.Standing document := by
  induction h with
  | place hplace => exact standing_place_iff.mpr ⟨_, hplace⟩
  | fan _ ih => exact standing_fan_iff.mpr ih

section Lookups

variable {rank : Rank} {focus member : Focus} {document changed : Value} {name : String}

/-- A member of a place is one name deeper. -/
theorem hasRank_concat (path : List String) (name : String) :
    (place (path ++ [name])).HasRank (Rank.item ⟨0, path.length⟩) := by
  have hplace := HasRank.place (path ++ [name])
  rwa [List.length_append, List.length_singleton] at hplace

/-- A name reaches a place if there is something. -/
theorem child?_place (document : Value) (path : List String) (name : String) :
    (place path).child? document name =
      (document.at? (path ++ [name])).map fun _ => .place (path ++ [name]) := by
  rw [child?, Value.at?_append]
  congr 2
  funext parent
  exact (Option.bind_fun_some _).symm

/-- What a name reaches is one name deeper, or an item. -/
theorem HasRank.child? (hfocus : focus.HasRank rank) (h : focus.child? document name = some member) :
    member.HasRank rank.item := by
  cases hfocus with
  | place path =>
      rw [child?_place] at h
      obtain ⟨_, _, rfl⟩ := Option.map_eq_some_iff.mp h
      exact hasRank_concat path name
  | fan hitems =>
      obtain ⟨index, -, hget⟩ := Option.bind_eq_some_iff.mp h
      exact hitems member (List.mem_of_getElem? hget)

/-- What a name has reached it still reaches where the places at that depth are. -/
theorem HasRank.child?_of_hasPlace (hfocus : focus.HasRank rank)
    (hplaces : ∀ path, path.length = rank.item.depth → document.HasPlace path → changed.HasPlace path)
    (h : focus.child? document name = some member) : focus.child? changed name = some member := by
  cases hfocus with
  | place path =>
      rw [child?_place] at h ⊢
      obtain ⟨found, hfound, rfl⟩ := Option.map_eq_some_iff.mp h
      obtain ⟨still, hstill⟩ := hplaces (path ++ [name]) List.length_append ⟨found, hfound⟩
      rw [hstill]
      rfl
  | fan hitems => exact h

/-- The elements of a place can be told from its outline. -/
theorem elements_place (document : Value) (path : List String) :
    (place path).elements document =
      match (document.at? path).map Value.outline with
      | some (.array, some names) => .ok (names.map fun name => .place (path ++ [name]))
      | some (kind, _) => .error (.mismatch (.each kind))
      | none => .error (.notFound (.place path)) := by
  rw [elements, lookup]
  rcases document.at? path with _ | _ | _ | _ | _ | _ | _ | _ | _ <;> rfl

/-- So can the names of its members. -/
theorem memberNames_place (document : Value) (path : List String) :
    (place path).memberNames document =
      match (document.at? path).map Value.outline with
      | some (_, some names) => .ok names
      | some (kind, none) => .error (.mismatch (.wildcard kind))
      | none => .error (.notFound (.place path)) := by
  rw [memberNames, lookup]
  rcases document.at? path with _ | _ | _ | _ | _ | _ | _ | _ | _ <;> rfl

/-- **Where the outlines are the same, there are the same elements.** -/
theorem HasRank.elements_eq (hfocus : focus.HasRank rank)
    (h : SameAbove rank.item.depth document changed) :
    focus.elements changed = focus.elements document := by
  cases hfocus with
  | place path => rw [elements_place, elements_place, h path (Nat.lt_succ_self _)]
  | fan hitems => rfl

/-- **Where the outlines are the same, there are the same names of members.** -/
theorem HasRank.memberNames_eq (hfocus : focus.HasRank rank)
    (h : SameAbove rank.item.depth document changed) :
    focus.memberNames changed = focus.memberNames document := by
  cases hfocus with
  | place path => rw [memberNames_place, memberNames_place, h path (Nat.lt_succ_self _)]
  | fan hitems => rfl

/-- The elements of a result are one name deeper, or items. -/
theorem HasRank.elements (hfocus : focus.HasRank rank) {elements : List Focus}
    (h : focus.elements document = .ok elements) : ∀ element ∈ elements, element.HasRank rank.item := by
  cases hfocus with
  | place path =>
      rw [elements_place] at h
      split at h
      · cases h
        exact List.forall_mem_map.mpr fun name _ => hasRank_concat path name
      · cases h
      · cases h
  | fan hitems =>
      cases h
      exact fun element helement => hitems element (List.mem_of_mem_take helement)

/-- The names of members reach them. -/
theorem HasRank.exists_child? (hfocus : focus.HasRank rank) {names : List String}
    (h : focus.memberNames document = .ok names) (hname : name ∈ names) :
    ∃ member, focus.child? document name = some member := by
  cases hfocus with
  | place path =>
      rw [memberNames, lookup] at h
      cases hvalue : document.at? path with
      | none =>
          rw [hvalue] at h
          cases h
      | some value =>
          rw [hvalue] at h
          have hnames : value.memberNames? = some names := by
            simp only [Except.bind, valueNames] at h
            split at h <;> cases h
            assumption
          obtain ⟨child, hchild⟩ := exists_child?_iff.mpr ⟨names, hnames, hname⟩
          rw [child?_place, Value.at?_concat hvalue, hchild]
          exact ⟨_, rfl⟩
  | @fan rank items hitems =>
      cases h
      obtain ⟨index, hindex, hlt⟩ := mem_indexNames_iff.mp hname
      exact ⟨items[index], Option.bind_eq_some_iff.mpr ⟨index, hindex, List.getElem?_eq_getElem hlt⟩⟩

end Lookups

/-- A value that is written at the depth of a result stays in all of its places. -/
theorem Holds.keeps {intent : Intent} {document changed value : Value} {focus : Focus} {rank : Rank}
    {shown : Nat} (h : focus.Holds document value) (hrank : focus.HasRank rank)
    (hintent : intent = .write value) (hkeeps : Keeps intent shown rank.depth document changed) :
    focus.Holds changed value := by
  induction h generalizing rank with
  | @place path hplace =>
      cases hrank
      exact .place (hkeeps.at?_eq value hintent path rfl hplace)
  | fan _ ih =>
      cases hrank with
      | fan hitems => exact .fan fun item hitem => ih item hitem (hitems item hitem) hkeeps

/-- **What a token has reached**: places of some rank, and after a write all of them hold the value. -/
structure Reached (rank : Rank) (intent : Intent) (document : Value) (focus : Focus) : Prop where
  hasRank : focus.HasRank rank
  holds : ∀ value, intent = .write value → focus.Holds document value

/-- A list of what is reached. -/
theorem Reached.list {rank : Rank} {intent : Intent} {document : Value} {items : List Focus}
    (h : ∀ item ∈ items, Reached rank intent document item) :
    Reached rank.list intent document (.fan items) where
  hasRank := .fan fun item hitem => (h item hitem).hasRank
  holds value hwrite := .fan fun item hitem => (h item hitem).holds value hwrite

end Focus

/-! ### Walks that are repeated -/

/-- **A walk is repeated by another**, from a document on that keeps what was at the start: it leaves in
place what assignments at the depth do, and where all of that is still in place the other one has the same
result, and changes nothing. -/
def Walk.Repeats {α : Type} (intent : Intent) (shown depth : Nat) (start : Value)
    (post : Value → α → Prop) (walk again : Walk α) : Prop :=
  ∀ s, Keeps intent shown depth start s.document → ∀ a t, walk s = (.ok a, t) →
    Keeps intent shown depth s.document t.document ∧
      ∀ u, Keeps intent shown depth t.document u.document →
        post u.document a ∧ ∃ v, again u = (.ok a, v) ∧ v.document = u.document

namespace Walk

variable {α β : Type} {intent : Intent} {shown depth : Nat} {start : Value} {rank : Rank}

/-- What a walk finds is changed only where it finds something. -/
theorem map_eq_ok_iff {walk : Walk α} {f : α → β} {b : β} {s t : State} :
    (f <$> walk) s = (.ok b, t) ↔ ∃ a, walk s = (.ok a, t) ∧ f a = b := by
  rw [map_eq_pure_bind]
  constructor
  · intro h
    obtain ⟨a, mid, hwalk, hlast⟩ := exists_of_bind_eq_ok h
    cases hlast
    exact ⟨a, hwalk, rfl⟩
  · rintro ⟨a, hwalk, rfl⟩
    rw [bind_of_ok hwalk]
    rfl

/-- What fails has nothing to repeat. -/
theorem repeats_fail {post : Value → α → Prop} (fault : PathError) (again : Walk α) :
    (fail fault).Repeats intent shown depth start post again := fun _ _ _ _ h => nomatch h

theorem Repeats.map {post : Value → α → Prop} {later : Value → β → Prop} {walk again : Walk α}
    {f : α → β} (h : walk.Repeats intent shown depth start post again)
    (hpost : ∀ document a, post document a → later document (f a)) :
    (f <$> walk).Repeats intent shown depth start later (f <$> again) := by
  intro s hs b t hwalk
  obtain ⟨a, hfirst, rfl⟩ := map_eq_ok_iff.mp hwalk
  obtain ⟨hkeeps, hagain⟩ := h s hs a t hfirst
  refine ⟨hkeeps, fun u hu => ?_⟩
  obtain ⟨ha, v, hv, hdocument⟩ := hagain u hu
  exact ⟨hpost _ a ha, v, map_eq_ok_iff.mpr ⟨a, hv, rfl⟩, hdocument⟩

/-- The trail is not seen. -/
theorem Repeats.push {post : Value → α → Prop} {walk again : Walk α}
    (h : walk.Repeats intent shown depth start post again) (focus : Focus) :
    (Walk.push focus >>= fun _ => walk).Repeats intent shown depth start post
      (Walk.push focus >>= fun _ => again) := by
  intro s hs a t hwalk
  obtain ⟨hkeeps, hagain⟩ := h { s with trail := s.trail ++ [focus] } hs a t hwalk
  exact ⟨hkeeps, fun u hu => hagain { u with trail := u.trail ++ [focus] } hu⟩

theorem Repeats.enclosed {post : Value → α → Prop} {walk again : Walk α}
    (h : walk.Repeats intent shown depth start post again) :
    (Walk.enclosed walk).Repeats intent shown depth start post (Walk.enclosed again) := by
  intro s hs a t hwalk
  rcases hrun : walk s with ⟨result, mid⟩
  rw [enclosed_apply, hrun] at hwalk
  cases hwalk
  obtain ⟨hkeeps, hagain⟩ := h s hs a mid hrun
  refine ⟨hkeeps, fun u hu => ?_⟩
  obtain ⟨ha, v, hv, hdocument⟩ := hagain u hu
  refine ⟨ha, { v with trail := v.trail.take u.trail.length }, ?_, hdocument⟩
  rw [enclosed_apply, hv]

/-- **A question whose answer is still the same** can be asked first. -/
theorem Repeats.asking {post : Value → β → Prop} {question : Value → Except PathError α}
    {next later : α → Walk β}
    (hsame : ∀ before after, Keeps intent shown depth before after → question after = question before)
    (hnext : ∀ a, question start = .ok a →
      (next a).Repeats intent shown depth start post (later a)) :
    (Walk.asking question >>= next).Repeats intent shown depth start post
      (Walk.asking question >>= later) := by
  intro s hs b t hwalk
  obtain ⟨a, mid, hasked, hlast⟩ := exists_of_bind_eq_ok hwalk
  obtain ⟨hanswer, rfl⟩ := Prod.mk.inj hasked
  have hstart : question start = .ok a := (hsame start s.document hs).symm.trans hanswer
  obtain ⟨hkeeps, hagain⟩ := hnext a hstart s hs b t hlast
  refine ⟨hkeeps, fun u hu => ?_⟩
  have hstill : question u.document = .ok a :=
    (hsame s.document u.document (hkeeps.trans hu)).trans hanswer
  have hasking : Walk.asking question u = (.ok a, u) := Prod.ext hstill rfl
  rw [bind_of_ok hasking]
  exact hagain u hu

/-- **Several walks are repeated** if each of them is, because each keeps what the others have left. -/
theorem Repeats.gather {ι : Type} {indices : List ι} {walk again : ι → Walk Focus}
    (h : ∀ index ∈ indices,
      (walk index).Repeats intent shown depth start (Focus.Reached rank intent) (again index))
    (persist later : Bool) :
    (Walk.gather persist (indices.map fun index => some <$> walk index)).Repeats intent shown depth start
      (fun document found => ∀ item ∈ found, Focus.Reached rank intent document item)
      (Walk.gather later (indices.map fun index => some <$> again index)) := by
  induction indices with
  | nil =>
      intro s hs found t hwalk
      cases hwalk
      exact ⟨.refl _ _ _ _, fun u _ => ⟨List.forall_mem_nil _, u, rfl, rfl⟩⟩
  | cons index rest ih =>
      obtain ⟨hindex, hrest⟩ := List.forall_mem_cons.mp h
      intro s hs found t hwalk
      rw [List.map_cons] at hwalk ⊢
      obtain ⟨found?, others, mid, hfound, hothers, rfl⟩ := gather_cons_eq_ok_iff.mp hwalk
      obtain ⟨first, hfirst, rfl⟩ := map_eq_ok_iff.mp hfound
      obtain ⟨hkeeps, hagain⟩ := hindex s hs first mid hfirst
      obtain ⟨hmore, hlater⟩ := ih hrest mid (hs.trans hkeeps) others t hothers
      refine ⟨hkeeps.trans hmore, fun u hu => ?_⟩
      obtain ⟨hreached, v, hv, hdocument⟩ := hagain u (hmore.trans hu)
      obtain ⟨hall, w, hw, hend⟩ := hlater v (hdocument ▸ hu)
      rw [hdocument] at hall
      exact ⟨List.forall_mem_cons.mpr ⟨hreached, hall⟩, w,
        gather_cons_eq_ok_iff.mpr ⟨some first, others, v, map_eq_ok_iff.mpr ⟨first, hv, rfl⟩, hw, rfl⟩,
        hend.trans hdocument⟩

end Walk

/-! ### Operations of tokens -/

section Operations

variable {intent : Intent} {shown : Nat} {start : Value} {rank : Rank} {focus found : Focus}
variable {name : String} {value : Value} {create : Bool} {s t : State}

/-- **What an assignment leaves.** -/
theorem assign_leaves (hfocus : focus.HasRank rank)
    (hshown : shown ≤ rank.depth ∨
      shown ≤ rank.item.depth ∧ ∃ member, focus.child? s.document name = some member)
    (hintent : ∀ written, intent = .write written → written = value)
    (h : Walk.assign focus name value s = (.ok found, t)) :
    Keeps intent shown rank.item.depth s.document t.document ∧
      focus.child? t.document name = some found ∧ found.Holds t.document value := by
  cases hfocus with
  | fan hitems => cases h
  | place path =>
      simp only [Walk.assign] at h
      split at h
      · next changed hset =>
          cases h
          have hvalue := (assigns_of_setChildAt hset).2.at?_self
          refine ⟨keeps_of_setChildAt hset ?_ hintent, ?_, .place hvalue⟩
          · refine hshown.imp id (And.imp id fun hmember => ?_)
            obtain ⟨member, hmember⟩ := hmember
            rw [Focus.child?_place] at hmember
            obtain ⟨old, hold, -⟩ := Option.map_eq_some_iff.mp hmember
            exact ⟨old, hold⟩
          · rw [Focus.child?_place, hvalue]
            rfl
      · cases h

/-- **To look up or to assign a member is repeated**: it has been reached, and stays reached. -/
theorem access_repeats (hfocus : focus.HasRank rank)
    (hshown : shown ≤ rank.depth ∨
      shown ≤ rank.item.depth ∧ ∃ member, focus.child? start name = some member) (create : Bool) :
    (access focus name intent create).Repeats intent shown rank.item.depth start
      (Focus.Reached rank.item intent) (access focus name .read false) := by
  intro s hs found t hwalk
  have hthere : shown ≤ rank.depth ∨
      shown ≤ rank.item.depth ∧ ∃ member, focus.child? s.document name = some member := by
    refine hshown.imp id (And.imp id fun hmember => ?_)
    obtain ⟨member, hmember⟩ := hmember
    exact ⟨member, hfocus.child?_of_hasPlace hs.hasPlace hmember⟩
  obtain ⟨hkeeps, hchild, hholds⟩ : Keeps intent shown rank.item.depth s.document t.document ∧
      focus.child? t.document name = some found ∧
        ∀ value, intent = .write value → found.Holds t.document value := by
    cases intent with
    | read =>
        cases hmember : focus.child? s.document name with
        | some member =>
            rw [access_read_of_some hmember] at hwalk
            cases hwalk
            exact ⟨.refl _ _ _ _, hmember, fun _ hread => nomatch hread⟩
        | none =>
            rw [access_read_of_none hmember] at hwalk
            cases create with
            | false => cases hwalk
            | true =>
                have hnone : ∀ written, Intent.read = .write written → written = .object [] :=
                  fun _ hread => nomatch hread
                obtain ⟨hkeeps, hchild, -⟩ := assign_leaves hfocus hthere hnone hwalk
                exact ⟨hkeeps, hchild, fun _ hread => nomatch hread⟩
    | write value =>
        have hvalue : ∀ written, Intent.write value = .write written → written = value :=
          fun _ hwrite => (Intent.write.inj hwrite).symm
        obtain ⟨hkeeps, hchild, hholds⟩ := assign_leaves hfocus hthere hvalue hwalk
        exact ⟨hkeeps, hchild, fun written hwrite => hvalue written hwrite ▸ hholds⟩
  have hrank : found.HasRank rank.item := hfocus.child? hchild
  refine ⟨hkeeps, fun u hu => ⟨⟨hrank, fun value hwrite => ?_⟩, u, ?_, rfl⟩⟩
  · exact (hholds value hwrite).keeps hrank hwrite hu
  · exact access_read_of_some (hfocus.child?_of_hasPlace hu.hasPlace hchild)

/-- **To look up or to assign all members that match a pattern is repeated.** -/
theorem wildcard_repeats (hfocus : focus.HasRank rank) (glob : Glob) :
    (wildcard focus glob intent).Repeats intent rank.item.depth rank.item.depth start
      (Focus.Reached rank.item.list intent) (wildcard focus glob .read) := by
  refine Walk.Repeats.asking (fun _ _ hkeeps => hfocus.memberNames_eq hkeeps.sameAbove)
    fun names hnames => ?_
  refine (Walk.Repeats.gather (fun name hname => ?_) _ _).map fun _ _ => Focus.Reached.list
  have hmember := hfocus.exists_child? hnames (List.mem_filter.mp hname).1
  exact access_repeats hfocus (.inr ⟨Nat.le_refl _, hmember⟩) false

/-- **A broadcast is repeated** if its step is on every element. -/
theorem spread_repeats (hfocus : focus.HasRank rank) {result : Rank} (hshown : rank.item.depth ≤ shown)
    {apply again : Focus → Walk Focus}
    (happly : ∀ element : Focus, element.HasRank rank.item →
      (apply element).Repeats intent shown result.depth start (Focus.Reached result intent)
        (again element)) :
    (spread true intent focus apply).Repeats intent shown result.depth start
      (Focus.Reached result.list intent) (spread true .read focus again) := by
  refine Walk.Repeats.asking
    (fun _ _ hkeeps => hfocus.elements_eq (hkeeps.sameAbove.mono hshown)) fun elements helements => ?_
  refine (Walk.Repeats.gather (fun element helement => ?_) _ _).map fun _ _ => Focus.Reached.list
  exact ((happly element (hfocus.elements helements element helement)).push element).enclosed

end Operations

/-! ### Tokens -/

/-- **What a token without modifiers does to its context**: it looks up or assigns a member, or all that
match a pattern, or fails because its wildcard is in no place. -/
theorem single_cases {token : Token} (h : token.Unmodified) :
    (∃ name, ∀ env intent create focus,
      step env token.single intent create focus = access focus name intent create) ∨
    (∃ glob, ∀ env intent create focus,
      step env token.single intent create focus = wildcard focus glob intent) ∨
    ∃ fault, ∀ env intent create focus, step env token.single intent create focus = Walk.fail fault := by
  cases h with
  | plain name => exact .inl ⟨name, fun _ _ _ _ => rfl⟩
  | @word w h =>
      cases hglob : Glob.ofWord? w w.name with
      | error fault =>
          exact .inr (.inr ⟨fault, fun env intent create focus =>
            word_of_fault env h intent create focus hglob⟩)
      | ok glob? =>
          cases glob? with
          | none =>
              exact .inl ⟨w.name, fun env intent create focus =>
                word_of_name env h intent create focus hglob⟩
          | some glob =>
              exact .inr (.inl ⟨glob, fun env intent create focus =>
                word_of_glob env h intent create focus hglob⟩)

variable {env reader : Env} {value : Value}

/-- What is done to one context is repeated, at one depth for all contexts of a rank. -/
theorem single_repeats {token : Token} (h : token.Unmodified) (intent : Intent) (create : Bool)
    (rank : Rank) :
    ∃ shown result, rank.depth ≤ shown ∧ shown ≤ result.depth ∧
      ∀ focus : Focus, focus.HasRank rank → ∀ start,
        (step env token.single intent create focus).Repeats intent shown result.depth start
          (Focus.Reached result intent) (step reader token.single .read false focus) := by
  rcases single_cases h with ⟨name, hstep⟩ | ⟨glob, hstep⟩ | ⟨fault, hstep⟩
  · refine ⟨rank.depth, rank.item, Nat.le_refl _, rank.depth_le_item, fun focus hfocus start => ?_⟩
    rw [hstep, hstep]
    exact access_repeats hfocus (.inl (Nat.le_refl _)) create
  · refine ⟨rank.item.depth, rank.item.list, rank.depth_le_item, Nat.le_refl _,
      fun focus hfocus start => ?_⟩
    rw [hstep, hstep]
    exact wildcard_repeats hfocus glob
  · refine ⟨rank.depth, rank, Nat.le_refl _, Nat.le_refl _, fun focus hfocus start => ?_⟩
    rw [hstep]
    exact Walk.repeats_fail fault _

/-- **A token finds again what it reached**, at one depth, as long as everything above keeps its outline,
and after a write the value stays in its places. -/
theorem step_again {token : Token} (h : token.Unmodified) {intent : Intent} {create : Bool}
    {focus found : Focus} {rank : Rank} (hfocus : focus.HasRank rank) {s t : State}
    (hstep : step env token intent create focus s = (.ok found, t)) :
    ∃ result, rank.depth ≤ result.depth ∧ SameAbove rank.depth s.document t.document ∧
      found.Reached result intent t.document ∧
        ∀ u : State, Keeps intent result.depth result.depth t.document u.document →
          ∃ v, step reader token .read false focus u = (.ok found, v) ∧ v.document = u.document := by
  obtain ⟨shown, result, habove, hbelow, hrepeats⟩ : ∃ shown result, rank.depth ≤ shown ∧
      shown ≤ result.depth ∧
        (step env token intent create focus).Repeats intent shown result.depth s.document
          (Focus.Reached result intent) (step reader token .read false focus) := by
    simp only [step_eq_spread _ token]
    cases token.each with
    | false =>
        obtain ⟨shown, result, habove, hbelow, hsingle⟩ := single_repeats h intent create rank
        exact ⟨shown, result, habove, hbelow, hsingle focus hfocus s.document⟩
    | true =>
        obtain ⟨shown, result, habove, hbelow, hsingle⟩ := single_repeats h intent create rank.item
        refine ⟨shown, result.list, Nat.le_trans rank.depth_le_item habove, hbelow, ?_⟩
        exact spread_repeats hfocus habove fun element helement =>
          hsingle element helement s.document
  obtain ⟨hkeeps, hagain⟩ := hrepeats s (.refl _ _ _ _) found t hstep
  obtain ⟨hreached, -⟩ := hagain t (.refl _ _ _ _)
  refine ⟨result, Nat.le_trans habove hbelow, hkeeps.sameAbove.mono habove, hreached, fun u hu => ?_⟩
  exact (hagain u (hu.mono hbelow)).2

/-- **Tokens in sequence find again what they wrote**, in the document that they have left. -/
theorem advance_again {tokens : List Token} (hne : tokens ≠ [])
    (htokens : ∀ token ∈ tokens, token.Unmodified) {create : Bool} {focus found : Focus} {rank : Rank}
    (hfocus : focus.HasRank rank) {s t : State}
    (h : advance env tokens (.write value) create focus s = (.ok found, t)) :
    SameAbove rank.depth s.document t.document ∧ found.Holds t.document value ∧
      ∀ u : State, u.document = t.document →
        ∃ v, advance reader tokens .read false focus u = (.ok found, v) ∧ v.document = t.document := by
  induction tokens generalizing create focus rank s with
  | nil => exact absurd rfl hne
  | cons token rest ih =>
      obtain ⟨htoken, hrest⟩ := List.forall_mem_cons.mp htokens
      cases rest with
      | nil =>
          rw [advance_singleton] at h
          obtain ⟨reached, mid, hstep, hlast⟩ := Walk.exists_of_bind_eq_ok h
          cases hlast
          obtain ⟨result, -, hsame, hreached, hagain⟩ := step_again htoken hfocus hstep
          refine ⟨hsame, hreached.holds value rfl, fun u hu => ?_⟩
          obtain ⟨v, hv, hdocument⟩ := hagain u (hu ▸ .refl _ _ _ _)
          refine ⟨{ v with trail := v.trail ++ [found] }, ?_, hdocument.trans hu⟩
          rw [advance_singleton, Walk.bind_of_ok hv]
          rfl
      | cons next others =>
          rw [advance_cons_cons] at h
          obtain ⟨reached, mid, hstep, hlast⟩ := Walk.exists_of_bind_eq_ok h
          have hpushed : advance env (next :: others) (.write value) create reached
              { mid with trail := mid.trail ++ [reached] } = (.ok found, t) := hlast
          obtain ⟨result, hle, hsame, hreached, hagain⟩ := step_again htoken hfocus hstep
          obtain ⟨hbehind, hholds, hlater⟩ :=
            ih (List.cons_ne_nil next others) hrest hreached.hasRank hpushed
          refine ⟨hsame.trans (hbehind.mono hle), hholds, fun u hu => ?_⟩
          -- What comes behind has left the outlines above what this token reached.
          obtain ⟨v, hv, hdocument⟩ := hagain u (.of_sameAbove (hu ▸ hbehind))
          obtain ⟨w, hw, hend⟩ := hlater { v with trail := v.trail ++ [reached] } (hdocument.trans hu)
          refine ⟨w, ?_, hend⟩
          rw [advance_cons_read, Walk.bind_of_ok hv]
          exact hw

/-- **What was written is what the same tokens read**: they reach the same places, in the same lists, and
in each of them is the value. -/
theorem read_after_write {env : Env} {tokens : List Token} (hne : tokens ≠ [])
    (htokens : ∀ token ∈ tokens, token.Unmodified) {value document changed : Value}
    (h : write env tokens value document = ⟨.ok (), changed⟩) (reader : Env) :
    ∃ found, (walk env tokens (.write value) (.start document)).1 = .ok found ∧
      (walk reader tokens .read (.start changed)).1 = .ok found ∧ found.Holds changed value ∧
        ∃ result, found.value changed = .ok result ∧ read reader tokens changed = .ok result := by
  rw [write_eq_advance env hne] at h
  rcases hrun : advance env tokens (.write value) false .root (.start document) with
    ⟨fault | found, t⟩
  · rw [hrun] at h
    cases h
  · rw [hrun] at h
    cases h
    obtain ⟨-, hholds, hagain⟩ := advance_again hne htokens (.place []) hrun
    obtain ⟨v, hv, hdocument⟩ : ∃ v, advance reader tokens .read false .root (.start t.document) =
        (.ok found, v) ∧ v.document = t.document := hagain (.start t.document) rfl
    obtain ⟨result, hresult⟩ := hholds.standing
    refine ⟨found, congrArg Prod.fst hrun, congrArg Prod.fst hv, hholds, result, hresult, ?_⟩
    rw [read_eq_readFrom, readFrom, Walk.bind_of_ok hv]
    show found.value v.document = .ok result
    rw [hdocument, hresult]

/-- Members of members of elements, where a member is made that has none itself. -/
theorem read_after_write_nested :
    let tokens : List Token :=
      [.plain "a", .word ⟨"x", .none, none, true⟩, .word ⟨"*", .none, some 0, true⟩]
    let document : Value := .object [("a", .array [.object [("x", .object [("k", .null)])], .object []])]
    let changed : Value :=
      .object [("a", .array [.object [("x", .object [("k", .string "v")])],
        .object [("x", .object [])]])]
    let env : Env := ⟨[], fun _ _ _ => none, true⟩
    let reader : Env := ⟨[], fun _ _ _ => none, false⟩
    tokens ≠ [] ∧ (∀ token ∈ tokens, token.Unmodified) ∧
      write env tokens (.string "v") document = ⟨.ok (), changed⟩ ∧
        ∃ found, (walk env tokens (.write (.string "v")) (.start document)).1 = .ok found ∧
          (walk reader tokens .read (.start changed)).1 = .ok found ∧
            found.Holds changed (.string "v") ∧
              ∃ result, found.value changed = .ok result ∧ read reader tokens changed = .ok result := by
  intro tokens document changed env reader
  have hne : tokens ≠ [] := List.cons_ne_nil _ _
  have htokens : ∀ token ∈ tokens, token.Unmodified := by
    simp only [tokens, List.forall_mem_cons]
    exact ⟨.plain "a", .word rfl, .word rfl, List.forall_mem_nil _⟩
  have hwrite : write env tokens (.string "v") document = ⟨.ok (), changed⟩ := rfl
  exact ⟨hne, htokens, hwrite, read_after_write hne htokens hwrite reader⟩

end Resolve

end PathExpr
