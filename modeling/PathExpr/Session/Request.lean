import PathExpr.Session.Basic

/-!
# Requests to a session

Every operation of a session as data, so that histories of operations can be run and reasoned about:
`Workspace.perform` takes a request to its reply, and `Workspace.run` a list of them to all replies.
A workspace is a session with the one document that it works on.
-/

namespace PathExpr

/-- An operation of a session. -/
inductive Request where
  /-- Compile a path expression and give its tokens. -/
  | compile (path : String)
  /-- Tell whether a path expression compiles. -/
  | isValid (path : String)
  | get (route : Route) (arguments : List Value)
  /-- Read, and do not tell why if that fails. -/
  | get? (route : Route) (arguments : List Value)
  | set (route : Route) (value : Value) (arguments : List Value)
  /-- Write, and do not tell why if that fails. -/
  | set? (route : Route) (value : Value) (arguments : List Value)
  | find (mode : Search.Mode) (target : Value)
  | escape (name : String)
  /-- Work on another document from now on. -/
  | replaceDocument (document : Value)
  | setCaching (caching : Bool)
  | setForce (force : Bool)
  | clearCache
  | change (change : Change)
  deriving Inhabited

/-- What a session replies. -/
inductive Reply where
  | tokens (result : Except SyntaxError TokenSet)
  | valid (answer : Bool)
  | value (result : Except PathError Value)
  | value? (found : Option Value)
  | written (outcome : Except PathError Unit)
  | written? (done : Bool)
  | paths (found : Option (List String))
  | text (text : String)
  | changed (outcome : Except ConfigError Unit)
  | done

/-- A session and the document it works on. -/
structure Workspace where
  session : Session
  document : Value
  deriving Inhabited

namespace Workspace

/-- Take a result that comes with the session that it leaves. -/
def keep {α : Type} (workspace : Workspace) (reply : α → Reply) (result : α × Session) :
    Reply × Workspace :=
  (reply result.1, { workspace with session := result.2 })

/-- **Perform one request.** -/
def perform (functions : Resolve.Functions) (workspace : Workspace) (request : Request) :
    Reply × Workspace :=
  let session := workspace.session
  let document := workspace.document
  match request with
  | .compile path => workspace.keep .tokens (session.compile path)
  | .isValid path => workspace.keep .valid (session.isValid path)
  | .get route arguments =>
      workspace.keep .value (session.get functions route arguments document)
  | .get? route arguments =>
      workspace.keep (fun found => .value? found.toOption)
        (session.get functions route arguments document)
  | .set route value arguments =>
      match session.set functions route value arguments document with
      | (written, session) => (.written written.outcome, ⟨session, written.document⟩)
  | .set? route value arguments =>
      match session.set functions route value arguments document with
      | (written, session) => (.written? written.outcome.isOk, ⟨session, written.document⟩)
  | .find mode target => (.paths (session.find? mode target document), workspace)
  | .escape name => (.text (session.escape name), workspace)
  | .replaceDocument document => (.done, { workspace with document := document })
  | .setCaching caching => (.done, { workspace with session := session.setCaching caching })
  | .setForce force => (.done, { workspace with session := session.setForce force })
  | .clearCache => (.done, { workspace with session := session.clearCache })
  | .change change =>
      match session.change change with
      | .ok session => (.changed (.ok ()), { workspace with session := session })
      | .error fault => (.changed (.error fault), workspace)

/-- **Perform requests in sequence.** -/
def run (functions : Resolve.Functions) : Workspace → List Request → List Reply × Workspace
  | workspace, [] => ([], workspace)
  | workspace, request :: rest =>
      let (reply, workspace) := workspace.perform functions request
      let (replies, workspace) := run functions workspace rest
      (reply :: replies, workspace)

end Workspace

end PathExpr
