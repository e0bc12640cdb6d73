import PathExpr.Proofs.Coherence
import PathExpr.Proofs.PlainRoute

/-!
# Every route to an answer leads to the same one

A session has three ways to follow a path expression: names cut from the text, names taken from the
tokens, and a resolution of the tokens.  Which one is taken hangs on two tests that know nothing of
each other, one of the text by the dialect and one of a flag that may lie.  What is meant is one thing
only: compile the text by the dialect and resolve the tokens (`Session.meaning`,
`Session.effect`).

Two facts carry this.  A run of plain names resolves as it is followed (`Plain.read_eq_resolve`), so
neither test matters; and a session is coherent, so what the cache gives is what the dialect compiles.
-/

namespace PathExpr

/-- A set in which every token is plain has the tokens of its names. -/
theorem TokenSet.tokens_of_names? {set : TokenSet} {names : List String}
    (h : set.names? = some names) : set.tokens = (ofNames names).tokens := by
  rw [ofNames, ofTokens_tokens]
  unfold TokenSet.names? at h
  generalize set.tokens = tokens at h
  induction tokens generalizing names with
  | nil =>
      cases h
      rfl
  | cons token rest ih =>
      rw [List.mapM_cons] at h
      obtain ⟨name, hname, hrest⟩ := Option.bind_eq_some_iff.mp h
      obtain ⟨others, hothers, hnames⟩ := Option.bind_eq_some_iff.mp hrest
      cases hnames
      cases token with
      | plain found =>
          cases hname
          rw [List.map_cons, ih hothers]
      | _ => cases hname

/-- A run of plain names compiles to the names between its separators. -/
theorem Path.tokenize_of_isSimplePath {dialect : Dialect} {path : String}
    (h : dialect.isSimplePath path.toList = true) :
    tokenize dialect path = (Segments.split dialect.property 0 path.toList).map TokenSet.ofNames := by
  rw [tokenize, tokenizeAt, shortcut?, if_pos h]

namespace Session

/-! ### What is meant -/

/-- **What reading by a text means**: compile it, and resolve the tokens. -/
def meaning (functions : Resolve.Functions) (dialect : Dialect) (path : String)
    (arguments : List Value) (document : Value) : Except PathError Value :=
  match Path.tokenize dialect path with
  | .ok set => Resolve.read ⟨arguments, functions, false⟩ set.tokens document
  | .error fault => .error (.invalid fault)

/-- **What writing by a text means**: compile it, and resolve the tokens; a text that does not compile
leaves the document as it is. -/
def effect (functions : Resolve.Functions) (dialect : Dialect) (force : Bool) (path : String)
    (value : Value) (arguments : List Value) (document : Value) : Written :=
  match Path.tokenize dialect path with
  | .ok set => Resolve.write ⟨arguments, functions, force⟩ set.tokens value document
  | .error fault => ⟨.error (.invalid fault), document⟩

/-! ### Compiled path expressions -/

/-- What is followed at once are the names of the tokens. -/
theorem tokens_of_plainNames? {set : TokenSet} {names : List String}
    (h : plainNames? set = some names) : set.tokens = (TokenSet.ofNames names).tokens := by
  unfold plainNames? at h
  split at h
  · exact TokenSet.tokens_of_names? h
  · cases h

/-- **To read by a compiled path expression is to resolve it**, whatever its flag says. -/
theorem readCompiled_eq_resolve (functions : Resolve.Functions) (set : TokenSet)
    (arguments : List Value) (document : Value) :
    readCompiled functions set arguments document =
      Resolve.read ⟨arguments, functions, false⟩ set.tokens document := by
  unfold readCompiled
  cases hnames : plainNames? set with
  | none => rfl
  | some names => rw [tokens_of_plainNames? hnames, ← Plain.read_eq_resolve]

/-- **To write by a compiled path expression is to resolve it**, whatever its flag says. -/
theorem writeCompiled_eq_resolve (functions : Resolve.Functions) (force : Bool) (set : TokenSet)
    (value : Value) (arguments : List Value) (document : Value) :
    writeCompiled functions force set value arguments document =
      Resolve.write ⟨arguments, functions, force⟩ set.tokens value document := by
  unfold writeCompiled
  cases hnames : plainNames? set with
  | none => rfl
  | some names =>
      rw [tokens_of_plainNames? hnames]
      exact Plain.write_eq_resolve ⟨arguments, functions, force⟩ value names document

/-! ### Texts -/

section Texts

variable {session : Session}

/-- To read along the names of a text is what reading by it means, if it is a run of plain names. -/
theorem readText_eq_meaning {dialect : Dialect} {path : String}
    (h : dialect.isSimplePath path.toList = true) (functions : Resolve.Functions)
    (arguments : List Value) (document : Value) :
    Plain.readText dialect.property path document =
      meaning functions dialect path arguments document := by
  rw [Plain.readText, meaning, Path.tokenize_of_isSimplePath h]
  cases Segments.split dialect.property 0 path.toList with
  | error fault => rfl
  | ok names => exact Plain.read_eq_resolve ⟨arguments, functions, false⟩ names document

/-- To write along the names of a text is what writing by it means, if it is a run of plain names. -/
theorem writeText_eq_effect {dialect : Dialect} {path : String}
    (h : dialect.isSimplePath path.toList = true) (functions : Resolve.Functions) (force : Bool)
    (value : Value) (arguments : List Value) (document : Value) :
    Plain.writeText dialect.property force value path document =
      effect functions dialect force path value arguments document := by
  rw [Plain.writeText, effect, Path.tokenize_of_isSimplePath h]
  cases Segments.split dialect.property 0 path.toList with
  | error fault => rfl
  | ok names => exact Plain.write_eq_resolve ⟨arguments, functions, force⟩ value names document

/-- **A coherent session reads what is meant** by a text. -/
theorem get_eq_meaning (hcoherent : session.Coherent) (functions : Resolve.Functions)
    (path : String) (arguments : List Value) (document : Value) :
    (session.get functions (.text path) arguments document).1 =
      meaning functions session.dialect path arguments document := by
  cases hsimple : session.dialect.isSimplePath path.toList with
  | true =>
      rw [get, if_pos hsimple]
      exact readText_eq_meaning hsimple functions arguments document
  | false =>
      rw [get_text hsimple, compile_eq_tokenize hcoherent, meaning]
      cases Path.tokenize session.dialect path with
      | error fault => rfl
      | ok set => exact readCompiled_eq_resolve functions set arguments document

/-- **A coherent session writes what is meant** by a text. -/
theorem set_eq_effect (hcoherent : session.Coherent) (functions : Resolve.Functions)
    (path : String) (value : Value) (arguments : List Value) (document : Value) :
    (session.set functions (.text path) value arguments document).1 =
      effect functions session.dialect session.force path value arguments document := by
  cases hsimple : session.dialect.isSimplePath path.toList with
  | true =>
      rw [set, if_pos hsimple]
      exact writeText_eq_effect hsimple functions session.force value arguments document
  | false =>
      rw [set_text hsimple, compile_eq_tokenize hcoherent, effect]
      cases Path.tokenize session.dialect path with
      | error fault => rfl
      | ok set => exact writeCompiled_eq_resolve functions session.force set value arguments document

end Texts

end Session

namespace Workspace

/-- **Every route leads to the same answer.**  After any history of requests, to read or write by a
text is to compile it by the dialect in use and to resolve the tokens, and to read or write by a
compiled path expression is to resolve its tokens, whatever its flag says.  The functions that the
documents of the history call need not be those that are called now. -/
theorem routes_agree (answers : Resolve.Functions) (options : Options) (first : Value)
    (history : List Request) (functions : Resolve.Functions) (path : String) (compiled : TokenSet)
    (value : Value) (arguments : List Value) (document : Value) :
    let session := (after answers options first history).session
    (session.get functions (.text path) arguments document).1 =
        Session.meaning functions session.dialect path arguments document ∧
      (session.set functions (.text path) value arguments document).1 =
        Session.effect functions session.dialect session.force path value arguments document ∧
      (session.get functions (.compiled compiled) arguments document).1 =
        Resolve.read ⟨arguments, functions, false⟩ compiled.tokens document ∧
      (session.set functions (.compiled compiled) value arguments document).1 =
        Resolve.write ⟨arguments, functions, session.force⟩ compiled.tokens value document := by
  intro session
  have hcoherent : session.Coherent := coherent_after answers options first history
  refine ⟨?_, ?_, ?_, ?_⟩
  · exact Session.get_eq_meaning hcoherent functions path arguments document
  · exact Session.set_eq_effect hcoherent functions path value arguments document
  · exact Session.readCompiled_eq_resolve functions compiled arguments document
  · exact Session.writeCompiled_eq_resolve functions session.force compiled value arguments document

end Workspace

end PathExpr
