import PathExpr.Cache
import PathExpr.Dialect.Change
import PathExpr.Path.Tokenize
import PathExpr.Plain
import PathExpr.Resolve.Interpret
import PathExpr.Search

/-!
# Sessions

A session holds the dialect in use, the one to return to when a simple dialect is left, the cache of
compiled path expressions, and two options.  Its operations read and write documents by the text of a
path expression or by its compiled form, and there is more than one way to do that:

* a text that is a run of plain names is split and followed at once (`Plain.readText`);
* any other text is compiled, by the cache if it is in use;
* a compiled expression whose flag says that it is plain, and which is, is followed along its names;
* any other compiled expression is resolved.

Which way is taken never shows in an answer; it shows in the cache, because only compiling uses it.
Every accepted change of dialect empties the cache.
-/

namespace PathExpr

/-- A path expression to follow: its text, or its compiled form. -/
inductive Route where
  | text (path : String)
  | compiled (set : TokenSet)
  deriving Inhabited

/-- A session. -/
structure Session where
  dialect : Dialect
  /-- The dialect that was in use before the simple one. -/
  saved : Option Dialect
  cache : Cache
  /-- Is the cache in use? -/
  caching : Bool
  /-- Does a write make the objects that it passes through? -/
  force : Bool
  deriving Inhabited

/-- How a session begins. -/
structure Options where
  caching : Bool := true
  force : Bool := false
  capacity : Nat := Cache.defaultCapacity
  deriving Repr, DecidableEq, Inhabited

namespace Session

/-- A new session, with the default dialect. -/
def start (options : Options) : Session where
  dialect := .standard
  saved := none
  cache := .empty options.capacity
  caching := options.caching
  force := options.force

/-! ### Compiling -/

/-- **Compile a path expression**, by the cache if it is in use. A text that does not compile leaves
no entry. -/
def compile (session : Session) (path : String) : Except SyntaxError TokenSet × Session :=
  if session.caching then
    match session.cache.get? path with
    | (some set, cache) => (.ok set, { session with cache := cache })
    | (none, _) =>
        match Path.tokenize session.dialect path with
        | .ok set => (.ok set, { session with cache := session.cache.put path set })
        | .error fault => (.error fault, session)
  else (Path.tokenize session.dialect path, session)

/-- Does a path expression compile? -/
def isValid (session : Session) (path : String) : Bool × Session :=
  match session.compile path with
  | (result, session) => (result.isOk, session)

/-! ### Reading and writing -/

/-- The names to follow at once, if a compiled expression is marked as plain and is so. -/
def plainNames? (set : TokenSet) : Option (List String) :=
  if set.simple then TokenSet.names? set else none

/-- Read by a compiled path expression. -/
def readCompiled (functions : Resolve.Functions) (set : TokenSet) (arguments : List Value)
    (document : Value) : Except PathError Value :=
  match plainNames? set with
  | some names => Plain.read document names
  | none => Resolve.read ⟨arguments, functions, false⟩ set.tokens document

/-- Write by a compiled path expression. -/
def writeCompiled (functions : Resolve.Functions) (force : Bool) (set : TokenSet) (value : Value)
    (arguments : List Value) (document : Value) : Written :=
  match plainNames? set with
  | some names => Plain.write force value names document
  | none => Resolve.write ⟨arguments, functions, force⟩ set.tokens value document

/-- **Read** what a path expression reaches. -/
def get (functions : Resolve.Functions) (session : Session) (route : Route)
    (arguments : List Value) (document : Value) : Except PathError Value × Session :=
  match route with
  | .compiled set => (readCompiled functions set arguments document, session)
  | .text path =>
      if session.dialect.isSimplePath path.toList then
        (Plain.readText session.dialect.property path document, session)
      else
        match session.compile path with
        | (.ok set, session) => (readCompiled functions set arguments document, session)
        | (.error fault, session) => (.error (.invalid fault), session)

/-- **Write** a value to what a path expression reaches. -/
def set (functions : Resolve.Functions) (session : Session) (route : Route) (value : Value)
    (arguments : List Value) (document : Value) : Written × Session :=
  match route with
  | .compiled set => (writeCompiled functions session.force set value arguments document, session)
  | .text path =>
      if session.dialect.isSimplePath path.toList then
        (Plain.writeText session.dialect.property session.force value path document, session)
      else
        match session.compile path with
        | (.ok set, session) =>
            (writeCompiled functions session.force set value arguments document, session)
        | (.error fault, session) => (⟨.error (.invalid fault), document⟩, session)

/-! ### Searching and escaping -/

/-- **Search** a document for a value; no path at all is no answer. -/
def find? (session : Session) (mode : Search.Mode) (target document : Value) :
    Option (List String) :=
  match Search.find session.dialect mode target document with
  | [] => none
  | paths => some paths

/-- Escape a name. -/
def escape (session : Session) (name : String) : String :=
  String.ofList (session.dialect.escape name.toList)

/-! ### Options -/

/-- Drop every compiled expression. -/
def clearCache (session : Session) : Session := { session with cache := session.cache.clear }

/-- Use the cache, or drop it and do without. -/
def setCaching (session : Session) (caching : Bool) : Session :=
  let session := { session with caching := caching }
  if caching then session else session.clearCache

/-- Decide whether writes make the objects that they pass through. -/
def setForce (session : Session) (force : Bool) : Session := { session with force := force }

/-! ### Dialects -/

/-- Put another dialect in use. -/
def useDialect (session : Session) (dialect : Dialect) : Session :=
  { session with dialect := dialect }.clearCache

/-- **Change the dialect.** A session remembers the dialect from which it entered a simple one, and
returns to it; a refused change changes nothing. -/
def change (session : Session) : Change → Except ConfigError Session
  | .simple (some separator) =>
      (Dialect.ofSeparator separator).map fun dialect =>
        let saved := if session.dialect.simple then session.saved else some session.dialect
        { session with saved := saved }.useDialect dialect
  | .simple none =>
      if session.dialect.simple then
        .ok ({ session with saved := none }.useDialect (session.saved.getD .standard))
      else .ok { session with saved := none }
  | .reset => .ok ({ session with saved := none }.useDialect .standard)
  | other => (session.dialect.change other).map session.useDialect

end Session

end PathExpr
