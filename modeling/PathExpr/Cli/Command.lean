import PathExpr.Builtin
import PathExpr.Json.Reader
import PathExpr.Json.Writer
import PathExpr.Session.Basic
import PathExpr.Token.Outline

/-!
# The commands

Each command works on a new session with the default dialect.  Documents, values and targets are
given as JSON text and have to be valid; an argument that is not valid JSON is taken as the string
that it is.  What a command gives is a `Report`, or a `Failure` that says which of its inputs is at
fault: the document is looked at first, then the value or target, and the path expression last.
-/

namespace PathExpr.Cli

/-- A command with everything it is given, but the document. -/
inductive Command where
  | tokens (path : String)
  | check (path : String)
  | get (path : String) (arguments : List String)
  | set (path value : String) (arguments : List String) (force : Bool)
  | find (target : String) (all : Bool)
  | escape (name : String)
  deriving Repr, DecidableEq, Inhabited

/-- Does the command work on a document? -/
def Command.takesInput : Command → Bool
  | .get .. | .set .. | .find .. => true
  | _ => false

/-- What a command gives. -/
inductive Report where
  | tokens (set : TokenSet)
  | valid
  | value (value : Value)
  | paths (paths : List String)
  | text (text : String)

/-- Why a command fails. -/
inductive Failure where
  /-- The path expression does not compile. -/
  | invalidPath (error : SyntaxError)
  /-- The path expression cannot be read or written. -/
  | path (error : PathError)
  /-- A text that has to be JSON is not. -/
  | json
  /-- There is no document. -/
  | noInput
  /-- No place has the value searched for. -/
  | noMatch (target : String)
  deriving Repr, DecidableEq, Inhabited

/-- The wording of a failure. What is wrong with a JSON text is not told. -/
def Failure.message : Failure → String
  | .invalidPath error => "Syntax error: " ++ error.message
  | .path error => "Resolution error: " ++ error.message
  | .json => "Invalid JSON: "
  | .noInput => "No input provided. Use --input or pipe JSON to stdin."
  | .noMatch target => "No value in the input equals " ++ target

/-- A text that has to be JSON. -/
def readJson (text : String) : Except Failure Value :=
  match Json.parse? text with
  | some value => .ok value
  | none => .error .json

/-- The document of a command. -/
def readInput (input : Option String) : Except Failure Value :=
  match input with
  | some text => readJson text
  | none => .error .noInput

/-- An argument: JSON, or else a string. -/
def readArgument (text : String) : Value := (Json.parse? text).getD (.string text)

/-- The session that commands work on. -/
def session : Session := .start {}

/-- Compile a path expression. -/
def compile (path : String) : Except Failure TokenSet :=
  (session.compile path).1.mapError .invalidPath

/-- **Run a command** on a document, if it takes one. -/
def Command.run (input : Option String) : Command → Except Failure Report
  | .tokens path => return .tokens (← compile path)
  | .check path => do
      let _ ← compile path
      return .valid
  | .get path arguments => do
      let document ← readInput input
      let found ← (session.get Builtin.functions (.text path) (arguments.map readArgument)
        document).1.mapError .path
      return .value found
  | .set path value arguments force => do
      let document ← readInput input
      let value ← readJson value
      let written := ((session.setForce force).set Builtin.functions (.text path) value
        (arguments.map readArgument) document).1
      written.outcome.mapError .path
      return .value written.document
  | .find target all => do
      let document ← readInput input
      let value ← readJson target
      match session.find? (if all then .many else .one) value document with
      | some paths => return .paths paths
      | none => throw (.noMatch target)
  | .escape name => return .text (session.escape name)

/-- Lines of text, each ended by a line break. -/
def lines (texts : List String) : String := String.join (texts.map (· ++ "\n"))

/-- **The printed form of a report**, on as few lines as it can be, or laid out on many. -/
def Report.print (pretty : Bool) : Report → String
  | .tokens set =>
      lines [if pretty then (TokenSet.outline set).indented 0 else (TokenSet.outline set).inline]
  | .valid => lines ["Syntax is valid"]
  | .value found => lines [if pretty then Json.pretty found else Json.compact found]
  | .paths found => lines found
  | .text line => lines [line]

end PathExpr.Cli
