import PathExpr.Plain
import PathExpr.Proofs.Places
import PathExpr.Proofs.Sequence

/-!
# Plain names need no resolution

`Plain.read` and `Plain.write` go down the document and come back up; a resolution of the same names
as plain tokens stays at the root, holds addresses and looks each of them up anew.  The two agree in
everything that can be seen: the value read, the outcome of a write, and the document that a write
leaves, also when it fails half-way with some objects already made.

The induction is on the names, along both recursions.  Its invariant ties the two sides together: the
resolution stands at a place whose value is the one the plain route has in hand
(`document.at? path = some parent`), and what the plain route makes of that value is what stands at
the place afterwards.  Nothing is said of the trail, because plain names never look at it.
-/

namespace PathExpr

open Resolve

/-! ### One name -/

namespace Plain

/-- A read succeeds with what is at the place of its names. -/
theorem read_eq_ok_iff {value found : Value} {names : List String} :
    read value names = .ok found ↔ value.at? names = some found := by
  induction names generalizing value with
  | nil => simp
  | cons name rest ih =>
      rw [read_cons, Value.at?_cons]
      cases value.child? name with
      | none => simp
      | some child => exact ih

/-- **What a descent finds**: the member that is there, or, if it may, an empty object that it sets. -/
theorem descend_eq_ok_iff {create : Bool} {name : String} {document child parent : Value} :
    descend create name document = .ok (child, parent) ↔
      document.child? name = some child ∧ parent = document ∨
        create = true ∧ document.child? name = none ∧ child = .object [] ∧
          document.setChild name (.object []) = .ok parent := by
  unfold descend
  cases hchild : document.child? name with
  | some found => simp [eq_comm]
  | none =>
      cases create with
      | false => simp
      | true => cases document.setChild name (.object []) <;> simp [eq_comm]

/-- What a descent hands on is under the name it went down. -/
theorem child?_of_descend {create : Bool} {name : String} {parent child changed : Value}
    (h : descend create name parent = .ok (child, changed)) : changed.child? name = some child := by
  rcases descend_eq_ok_iff.mp h with ⟨hchild, rfl⟩ | ⟨-, -, rfl, hset⟩
  · exact hchild
  · exact Value.child?_setChild hset

end Plain

namespace Resolve

section Place

variable {s : State} {path : List String} {parent : Value}

/-- **To go down one name is a descent in the value at hand**, whose result is put at the place. -/
theorem access_read_place (h : s.document.at? path = some parent) (name : String)
    (create : Bool) :
    access (.place path) name .read create s =
      match Plain.descend create name parent with
      | .ok (_, changed) =>
          (.ok (.place (path ++ [name])), { s with document := s.document.replaceAt path changed })
      | .error fault => (.error fault, s) := by
  have hfound : (Focus.place path).child? s.document name =
      (parent.child? name).map fun _ => .place (path ++ [name]) := by
    rw [Focus.child?, h, Option.bind_some]
  unfold Plain.descend
  cases hchild : parent.child? name with
  | some child =>
      rw [hchild] at hfound
      rw [access_read_of_some hfound]
      -- Nothing is made, and to put back what is there changes nothing.
      simp only [Value.replaceAt_at? h]
  | none =>
      rw [hchild] at hfound
      rw [access_read_of_none hfound]
      cases create with
      | false => rfl
      | true =>
          simp only [if_true, Walk.assign, Value.setChildAt, h]
          cases parent.setChild name (.object []) <;> rfl

/-- To write under one name is to set it in the value at hand. -/
theorem access_write_place (h : s.document.at? path = some parent) (name : String)
    (value : Value) (create : Bool) :
    access (.place path) name (.write value) create s =
      match parent.setChild name value with
      | .ok changed =>
          (.ok (.place (path ++ [name])), { s with document := s.document.replaceAt path changed })
      | .error fault => (.error fault, s) := by
  simp only [access, Walk.assign, Value.setChildAt, h]
  cases parent.setChild name value <;> rfl

/-! ### All names -/

/-- **Plain tokens read along their names**: they reach the place of the names, or fail at the first
one that is missing. -/
theorem advance_read_names (env : Env) (names : List String)
    (h : s.document.at? path = some parent) :
    ∃ trail, advance env (names.map .plain) .read false (.place path) s =
      ((Plain.read parent names).map fun _ => .place (path ++ names),
        { s with trail := trail }) := by
  induction names generalizing path parent s with
  | nil => exact ⟨s.trail, by rw [List.append_nil]; rfl⟩
  | cons name rest ih =>
      have hstep := access_read_place h name false
      rw [List.map_cons, advance_cons_read, step_plain, Plain.read_cons]
      cases hchild : parent.child? name with
      | none =>
          simp only [Plain.descend, hchild] at hstep
          exact ⟨s.trail, Walk.bind_of_error hstep⟩
      | some child =>
          simp only [Plain.descend, hchild, Value.replaceAt_at? h] at hstep
          obtain ⟨trail, htrail⟩ :=
            ih (s := { s with trail := s.trail ++ [.place (path ++ [name])] })
              ((Value.at?_concat h name).trans hchild)
          have hnames : path ++ [name] ++ rest = path ++ name :: rest :=
            (List.append_cons path name rest).symm
          rw [hnames] at htrail
          exact ⟨trail, (Walk.bind_of_ok hstep).trans htrail⟩

/-- **Plain tokens write along their names**: with the same outcome, and with what the write leaves of
the value at hand put at its place. -/
theorem advance_write_names (env : Env) (value : Value) {names : List String} (hne : names ≠ [])
    (h : s.document.at? path = some parent) :
    ∃ trail, advance env (names.map .plain) (.write value) false (.place path) s =
      ((Plain.write env.force value names parent).outcome.map fun _ => .place (path ++ names),
        ⟨s.document.replaceAt path (Plain.write env.force value names parent).document, trail⟩) := by
  induction names generalizing path parent s with
  | nil => exact absurd rfl hne
  | cons name rest ih =>
      cases rest with
      | nil =>
          have hstep := access_write_place h name value false
          rw [List.map_singleton, advance_singleton, step_plain, Plain.write]
          cases hset : parent.setChild name value with
          | error fault =>
              simp only [hset] at hstep
              refine ⟨s.trail, (Walk.bind_of_error hstep).trans ?_⟩
              rw [Value.replaceAt_at? h]
              rfl
          | ok changed =>
              simp only [hset] at hstep
              exact ⟨s.trail ++ [.place (path ++ [name])], Walk.bind_of_ok hstep⟩
      | cons next others =>
          have hstep := access_read_place h name env.force
          rw [List.map_cons, List.map_cons, advance_cons_cons, step_plain, Plain.write]
          cases hdescend : Plain.descend env.force name parent with
          | error fault =>
              simp only [hdescend] at hstep
              refine ⟨s.trail, (Walk.bind_of_error hstep).trans ?_⟩
              rw [Value.replaceAt_at? h]
              rfl
          | ok found =>
              obtain ⟨child, changed⟩ := found
              simp only [hdescend] at hstep
              have hchild := Plain.child?_of_descend hdescend
              have hplace : (s.document.replaceAt path changed).at? path = some changed :=
                Value.at?_replaceAt h changed
              obtain ⟨trail, htrail⟩ :=
                ih (List.cons_ne_nil next others)
                  (s := ⟨s.document.replaceAt path changed, s.trail ++ [.place (path ++ [name])]⟩)
                  ((Value.at?_concat hplace name).trans hchild)
              have hnames : path ++ [name] ++ (next :: others) = path ++ name :: next :: others :=
                (List.append_cons path name (next :: others)).symm
              -- What the write leaves of the member goes back under its name, and that to the place.
              rw [Value.replaceAt_concat hplace hchild, Value.replaceAt_replaceAt h, hnames] at htrail
              exact ⟨trail, (Walk.bind_of_ok hstep).trans htrail⟩

end Place

end Resolve

/-! ### Whole resolutions -/

namespace Plain

/-- **Read along names** is to resolve them. -/
theorem read_eq_resolve (env : Env) (names : List String) (document : Value) :
    read document names = Resolve.read env (TokenSet.ofNames names).tokens document := by
  have hroot : (State.start document).document.at? [] = some document := rfl
  obtain ⟨trail, htrail⟩ := advance_read_names env names hroot
  rw [read_eq_readFrom, readFrom]
  cases hread : read document names with
  | error fault =>
      rw [hread] at htrail
      rw [TokenSet.ofNames, TokenSet.ofTokens_tokens, Focus.root, Walk.bind_of_error htrail]
  | ok found =>
      rw [hread] at htrail
      rw [TokenSet.ofNames, TokenSet.ofTokens_tokens, Focus.root, Walk.bind_of_ok htrail]
      have hplace : document.at? names = some found := read_eq_ok_iff.mp hread
      simp [Walk.read, Walk.asking, Focus.value, Focus.lookup, State.start, hplace]

/-- **Write along names** is to resolve them. -/
theorem write_eq_resolve (env : Env) (value : Value) (names : List String) (document : Value) :
    write env.force value names document =
      Resolve.write env (TokenSet.ofNames names).tokens value document := by
  cases names with
  | nil => rfl
  | cons name rest =>
      have hroot : (State.start document).document.at? [] = some document := rfl
      obtain ⟨trail, htrail⟩ := advance_write_names env value (List.cons_ne_nil name rest) hroot
      rw [Resolve.write, Resolve.walk, Walk.enclosed_apply, TokenSet.ofNames,
        TokenSet.ofTokens_tokens, Focus.root, htrail]
      rcases write env.force value (name :: rest) document with ⟨_ | _, _⟩ <;> rfl

/-- **The plain route and the resolution agree**: on every document and all names they read the same
value or fail with the same error, and they write with the same outcome and leave the same document,
also when the write fails. -/
theorem agrees_with_resolution (names : List String) (document value : Value)
    (arguments : List Value) (functions : Functions) (force : Bool) :
    read document names =
        Resolve.read ⟨arguments, functions, false⟩ (TokenSet.ofNames names).tokens document ∧
      write force value names document =
        Resolve.write ⟨arguments, functions, force⟩ (TokenSet.ofNames names).tokens value
          document :=
  ⟨read_eq_resolve ⟨arguments, functions, false⟩ names document,
    write_eq_resolve ⟨arguments, functions, force⟩ value names document⟩

end Plain

end PathExpr
