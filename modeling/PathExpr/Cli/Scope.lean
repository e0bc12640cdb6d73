/-!
# What a command line may hold

In front of the command stand only the options of the program; behind it stand the arguments and the
options of that command.  Either side is a `Scope`: the reader of command lines takes what the scope
lists and nothing else, and the help of a command is a layout of its scope.  The flags of a scope
are listed as its help lists them.
-/

namespace PathExpr.Cli

/-- The name of the program. -/
def programName : String := "keypath"

/-- The version of the program. -/
def programVersion : String := "0.1.0"

/-- An option that stands alone. -/
inductive Flag where
  | pretty | verbose | force | all | help | version
  deriving Repr, DecidableEq, Inhabited

/-- The long form of a flag. -/
def Flag.long : Flag → String
  | .pretty => "pretty"
  | .verbose => "verbose"
  | .force => "force"
  | .all => "all"
  | .help => "help"
  | .version => "version"

/-- The short form of a flag. -/
def Flag.short : Flag → Char
  | .pretty => 'p'
  | .verbose => 'v'
  | .force => 'f'
  | .all => 'a'
  | .help => 'h'
  | .version => 'V'

/-- What a flag is for. -/
def Flag.about : Flag → String
  | .pretty => "Pretty-print JSON output"
  | .verbose => "Log resolution details to stderr"
  | .force => "Create missing intermediate objects"
  | .all => "Report every match instead of the first"
  | .help => "Print help"
  | .version => "Print version"

/-- What the input is for, the only option that takes a value. -/
def aboutInput : String := "JSON input (reads from stdin if not provided)"

/-- An argument known by its position; of the last one there may be many, or none. -/
structure Positional where
  name : String
  many : Bool := false
  about : String := ""
  deriving Repr, DecidableEq, Inhabited

/-- What may stand on one side of the command. -/
structure Scope where
  /-- The name of the command; the program itself has none. -/
  name : String
  about : String
  /-- The commands that may follow, each with what it does. -/
  commands : List (String × String) := []
  positional : List Positional := []
  /-- May the input be given? -/
  input : Bool := false
  flags : List Flag := []
  deriving Repr, DecidableEq, Inhabited

namespace Scope

/-- Is there room for one argument more behind some number of them? -/
def hasRoom (scope : Scope) (count : Nat) : Bool :=
  scope.positional.any (·.many) || decide (count < scope.positional.length)

/-- The argument that is missing where only some number of them is given. -/
def missing? (scope : Scope) (count : Nat) : Option Positional :=
  (scope.positional.filter (!·.many))[count]?

end Scope

/-- What a command does. -/
inductive Verb where
  | tokens | check | get | set | find | escape
  deriving Repr, DecidableEq, Inhabited

namespace Verb

/-- All commands, in the order in which they are told. -/
def all : List Verb := [.tokens, .check, .get, .set, .find, .escape]

/-- The arguments that path expressions refer to by number. -/
def numbered : Positional :=
  ⟨"ARGS", true, "Positional arguments for %N and @N (JSON, or plain strings)"⟩

/-- What may stand behind a command. -/
def scope : Verb → Scope
  | .tokens =>
      { name := "tokens", about := "Print the tokens a path compiles to",
        positional := [⟨"PATH", false, ""⟩], flags := [.pretty, .verbose, .help] }
  | .check =>
      { name := "check", about := "Validate a path's syntax",
        positional := [⟨"PATH", false, ""⟩], flags := [.pretty, .verbose, .help] }
  | .get =>
      { name := "get", about := "Read the value at a path",
        positional := [⟨"PATH", false, ""⟩, numbered],
        input := true, flags := [.pretty, .verbose, .help] }
  | .set =>
      { name := "set", about := "Assign a value at a path and print the updated document",
        positional := [⟨"PATH", false, ""⟩, ⟨"VALUE", false, "New value, as JSON"⟩, numbered],
        input := true, flags := [.pretty, .force, .verbose, .help] }
  | .find =>
      { name := "find", about := "Print the path(s) leading to a value",
        positional := [⟨"TARGET", false, "Value to look for, as JSON"⟩],
        input := true, flags := [.pretty, .all, .verbose, .help] }
  | .escape =>
      { name := "escape", about := "Escape every special character in a path segment",
        positional := [⟨"SEGMENT", false, ""⟩], flags := [.pretty, .verbose, .help] }

/-- The name of a command. -/
def name (verb : Verb) : String := verb.scope.name

/-- The command of a name. -/
def ofName? (name : String) : Option Verb := all.find? (·.name == name)

/-- Every command is among all commands. -/
theorem mem_all (verb : Verb) : verb ∈ all := by
  cases verb <;> decide

/-- A command is found by its name. -/
theorem ofName?_name (verb : Verb) : ofName? verb.name = some verb := by
  cases verb <;> decide

end Verb

/-- What may stand behind the word `help`. -/
def Scope.help : Scope :=
  { name := "help", about := "Print this message or the help of the given subcommand(s)",
    positional := [⟨"COMMAND", true, "Print help for the subcommand(s)"⟩] }

/-- What may stand in front of the command. -/
def Scope.program : Scope :=
  { name := "",
    about := programName ++ " - Read, write and search nested JSON with compact path expressions",
    commands := (Verb.all.map Verb.scope ++ [Scope.help]).map fun scope =>
      (scope.name, scope.about),
    flags := [.pretty, .verbose, .help, .version] }

end PathExpr.Cli
