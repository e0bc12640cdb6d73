import PathExpr.Proofs.Lookup
import PathExpr.Proofs.PlainWrite

/-!
# What assignments leave in place

A resolution learns two things about the value at a place: of which kind it is, and which names reach
something in it.  That is its *outline* (`Value.outline`); what is under the names does not belong to it.
An assignment changes the outline of no value but the one that it assigns in, and not that one either if
the name has been there (`Plain.Assigns.outline_at?`).

So if all that is assigned to is at one depth, everything above keeps its outline, and no place at that
depth goes away (`Value.Keeps`).  What keeps its outline above some depth has all its places down to there
(`Value.SameAbove.hasPlace`).
-/

namespace PathExpr

/-! ### Outlines -/

/-- A member that is there is replaced, and keeps its position. -/
theorem Members.names_put_of_lookup {α : Type} {members : Members α} {key : String} {old : α}
    (h : members.lookup key = some old) (value : α) : (members.put key value).names = members.names := by
  induction members with
  | nil => cases h
  | cons entry rest ih =>
      obtain ⟨name, first⟩ := entry
      rw [put_cons]
      by_cases hname : name = key
      · rw [if_pos hname]
        rfl
      · rw [List.lookup_cons, beq_false_of_ne (Ne.symm hname)] at h
        rw [if_neg hname]
        exact congrArg (name :: ·) (ih h)

namespace Value

variable {document changed value parent : Value} {path : List String} {name : String}

/-- **What a resolution sees of a value**: its kind, and the names that reach something in it. -/
def outline (value : Value) : Kind × Option (List String) := (value.kind, value.memberNames?)

/-- Which names reach something is part of the outline. -/
theorem exists_child?_iff {key : String} :
    (∃ child, value.child? key = some child) ↔ ∃ names, value.memberNames? = some names ∧ key ∈ names := by
  cases value with
  | object members =>
      simp only [child?, memberNames?, Option.some.injEq, exists_eq_left']
      constructor
      · rintro ⟨child, hchild⟩
        exact List.mem_map.mpr ⟨(key, child), mem_of_lookup hchild, rfl⟩
      · intro hkey
        obtain ⟨⟨_, child⟩, hmem, rfl⟩ := List.mem_map.mp hkey
        exact Option.ne_none_iff_exists'.mp (lookup_ne_none hmem)
  | array items =>
      simp only [child?, memberNames?, Option.some.injEq, exists_eq_left', mem_indexNames_iff]
      constructor
      · rintro ⟨item, hitem⟩
        obtain ⟨index, hindex, hget⟩ := Option.bind_eq_some_iff.mp hitem
        exact ⟨index, hindex, (List.getElem?_eq_some_iff.mp hget).1⟩
      · rintro ⟨index, hindex, hlt⟩
        exact ⟨items[index], Option.bind_eq_some_iff.mpr ⟨index, hindex, List.getElem?_eq_getElem hlt⟩⟩
  | _ => simp [child?, memberNames?]

/-- To replace a member leaves the outline. -/
theorem outline_replaceChild {old : Value} (h : parent.child? name = some old) (value : Value) :
    (parent.replaceChild name value).outline = parent.outline := by
  cases parent with
  | object members =>
      exact congrArg (fun names => (Kind.object, some names)) (Members.names_put_of_lookup h value)
  | array items =>
      obtain ⟨index, hindex, -⟩ := Option.bind_eq_some_iff.mp h
      simp [outline, replaceChild, hindex, memberNames?, kind]
  | _ => cases h

/-- **The same outlines above a depth.** -/
def SameAbove (depth : Nat) (before after : Value) : Prop :=
  ∀ path, path.length < depth → (after.at? path).map outline = (before.at? path).map outline

namespace SameAbove

variable {depth less : Nat} {before middle after : Value}

theorem refl (depth : Nat) (document : Value) : SameAbove depth document document := fun _ _ => rfl

theorem trans (hfirst : SameAbove depth before middle) (hsecond : SameAbove depth middle after) :
    SameAbove depth before after := fun path hpath => (hsecond path hpath).trans (hfirst path hpath)

theorem mono (h : SameAbove depth before after) (hle : less ≤ depth) : SameAbove less before after :=
  fun path hpath => h path (Nat.lt_of_lt_of_le hpath hle)

/-- **All places down to the depth** are still there. -/
theorem hasPlace (h : SameAbove depth before after) (hpath : path.length ≤ depth)
    (hplace : before.HasPlace path) : after.HasPlace path := by
  rcases List.eq_nil_or_concat' path with rfl | ⟨above, key, rfl⟩
  · exact after.hasPlace_nil
  · obtain ⟨parent, hparent⟩ := hplace.of_append
    obtain ⟨child, hchild⟩ := hplace
    rw [at?_concat hparent] at hchild
    have habove : above.length < depth := by
      rw [List.length_append, List.length_singleton] at hpath
      omega
    have houtline := h above habove
    rw [hparent, Option.map_some] at houtline
    obtain ⟨changed, hchanged, hsame⟩ := Option.map_eq_some_iff.mp houtline
    obtain ⟨names, hnames, hkey⟩ := exists_child?_iff.mp ⟨child, hchild⟩
    have hstill : changed.memberNames? = some names := (congrArg Prod.snd hsame).trans hnames
    obtain ⟨found, hfound⟩ := exists_child?_iff.mpr ⟨names, hstill, hkey⟩
    exact ⟨found, (at?_concat hchanged key).trans hfound⟩

end SameAbove

/-- **What assignments at one depth leave in place**: the outlines above `shown`, all places at the depth,
and the values there that are the one that is written. -/
structure Keeps (intent : Resolve.Intent) (shown depth : Nat) (before after : Value) : Prop where
  sameAbove : SameAbove shown before after
  hasPlace : ∀ path, path.length = depth → before.HasPlace path → after.HasPlace path
  at?_eq : ∀ value, intent = .write value → ∀ path, path.length = depth →
    before.at? path = some value → after.at? path = some value

namespace Keeps

variable {intent : Resolve.Intent} {shown depth : Nat} {before middle after : Value}

theorem refl (intent : Resolve.Intent) (shown depth : Nat) (document : Value) :
    Keeps intent shown depth document document :=
  ⟨.refl shown document, fun _ _ h => h, fun _ _ _ _ h => h⟩

theorem trans (hfirst : Keeps intent shown depth before middle)
    (hsecond : Keeps intent shown depth middle after) : Keeps intent shown depth before after where
  sameAbove := hfirst.sameAbove.trans hsecond.sameAbove
  hasPlace path hpath h := hsecond.hasPlace path hpath (hfirst.hasPlace path hpath h)
  at?_eq value hintent path hpath h :=
    hsecond.at?_eq value hintent path hpath (hfirst.at?_eq value hintent path hpath h)

theorem mono {less : Nat} (h : Keeps intent shown depth before after) (hle : less ≤ shown) :
    Keeps intent less depth before after :=
  ⟨h.sameAbove.mono hle, h.hasPlace, h.at?_eq⟩

/-- To leave the outlines above the depth is enough, if nothing is written there. -/
theorem of_sameAbove (h : SameAbove depth before after) : Keeps .read depth depth before after where
  sameAbove := h
  hasPlace _ hpath := h.hasPlace (Nat.le_of_eq hpath)
  at?_eq _ hread := nomatch hread

end Keeps

end Value

/-! ### Assignments -/

namespace Plain.Assigns

variable {value document changed : Value} {names others : List String}

/-- To assign to a member that is there leaves the outline. -/
theorem outline_setChild {name : String} {old : Value} (hchild : document.child? name = some old)
    (hset : document.setChild name value = .ok changed) : changed.outline = document.outline := by
  rw [Value.setChild_of_child? hchild] at hset
  cases hset
  exact Value.outline_replaceChild hchild value

/-- **Above the last name everything keeps its outline**, and where that is assigned to as well, if there
has been something under the last name. -/
theorem outline_at? (h : Assigns false value names document changed) (hlt : others.length < names.length)
    (hplace : document.HasPlace (names.take (others.length + 1))) :
    (changed.at? others).map Value.outline = (document.at? others).map Value.outline := by
  induction h generalizing others with
  | @last name document changed hset =>
      obtain rfl : others = [] := List.length_eq_zero_iff.mp (by simpa using hlt)
      obtain ⟨old, hold⟩ : ∃ old, document.child? name = some old := by
        simpa [Value.HasPlace, Value.at?_cons] using hplace
      exact congrArg some (outline_setChild hold hset)
  | @through name rest document child inner changed hchild hinner hset ih =>
      cases others with
      | nil => exact congrArg some (outline_setChild hchild hset)
      | cons other more =>
          rw [Value.at?_cons, Value.at?_cons]
          by_cases hother : other = name
          · subst hother
            rw [Value.child?_setChild hset, hchild, Option.bind_some, Option.bind_some]
            refine ih (Nat.lt_of_succ_lt_succ hlt) ?_
            obtain ⟨found, hfound⟩ := hplace
            rw [List.length_cons, List.take_succ_cons, Value.at?_cons, hchild] at hfound
            exact ⟨found, hfound⟩
          · rw [Value.child?_setChild_of_ne hother hset]
  | made hforce => cases hforce

/-- At the depth that is assigned at, the value is set at one place, and no other one changes. -/
theorem at?_of_length_eq (h : Assigns false value names document changed)
    (hlength : others.length = names.length) (hne : others ≠ names) :
    changed.at? others = document.at? others :=
  h.at?_of_not_prefix (fun hstart => hne (hstart.eq_of_length hlength.symm).symm)
    fun hstart => hne (hstart.eq_of_length hlength)

end Plain.Assigns

namespace Value

variable {document changed value : Value} {path : List String} {name : String}

/-- To assign under a place is to write along one name more. -/
theorem assigns_of_setChildAt (h : document.setChildAt path name value = .ok changed) :
    document.HasPlace path ∧ Plain.Assigns false value (path ++ [name]) document changed := by
  unfold setChildAt at h
  split at h
  · cases h
  · next parent hparent =>
      refine ⟨⟨parent, hparent⟩, Plain.write_eq_ok_iff.mp ?_⟩
      rw [Plain.write_append hparent (List.cons_ne_nil name []), Plain.write]
      cases hset : parent.setChild name value with
      | error fault =>
          rw [hset] at h
          cases h
      | ok inner =>
          rw [hset] at h
          cases h
          rfl

/-- **What an assignment leaves in place**: the outlines above the place that it assigns in, and the one
there as well if it only replaces something. -/
theorem keeps_of_setChildAt (h : document.setChildAt path name value = .ok changed) {shown : Nat}
    (hshown : shown ≤ path.length ∨
      shown ≤ path.length + 1 ∧ document.HasPlace (path ++ [name]))
    {intent : Resolve.Intent} (hintent : ∀ written, intent = .write written → written = value) :
    Keeps intent shown (path.length + 1) document changed := by
  obtain ⟨hpath, hassigns⟩ := assigns_of_setChildAt h
  have hlength : (path ++ [name]).length = path.length + 1 := by simp
  refine ⟨fun others hothers => hassigns.outline_at? (by omega) ?_, fun others hothers hplace => ?_,
    fun written hwrite others hothers hplace => ?_⟩
  · rcases hshown with hle | ⟨-, hmember⟩
    · rw [List.take_append_of_le_length (by omega)]
      exact hpath.take _
    · exact hmember.take _
  · by_cases hne : others = path ++ [name]
    · subst hne
      exact ⟨value, hassigns.at?_self⟩
    · obtain ⟨found, hfound⟩ := hplace
      exact ⟨found, (hassigns.at?_of_length_eq (hothers.trans hlength.symm) hne).trans hfound⟩
  · by_cases hne : others = path ++ [name]
    · rw [hne, hintent written hwrite, hassigns.at?_self]
    · rw [hassigns.at?_of_length_eq (hothers.trans hlength.symm) hne, hplace]

end Value

end PathExpr
