import PathExpr.Cli.Command
import PathExpr.Cli.Help

/-!
# Command line arguments

A command line is a command with its positional arguments, and options between them in any order:
flags, which stand alone, and the input, which takes a value.  Options have a long form
(`--input X`, `--input=X`) and a short one (`-i X`, `-iX`, `-i=X`); short flags can be joined, with
the input last (`-fpi X`).  After `--` everything is positional, and so is a lone `-`.  A value in an
argument of its own must not look like an option, and no option may be given twice on the same side
of the command.  A line is read from left to right, and the first thing in it that keeps a command
from being run decides what is printed: a fault, or else a wish for help or for the version.
-/

namespace PathExpr.Cli

/-- Why no command is run. -/
inductive Usage where
  /-- The help of a scope is asked for. -/
  | help (scope : Scope)
  /-- The version is asked for. -/
  | version
  | unknownOption (option : String)
  | repeatedOption (option : String)
  | missingValue (option : String)
  | unexpectedValue (option : String)
  | unexpectedArgument (argument : String)
  | missingArgument (name : String)
  | unknownCommand (name : String)
  | missingCommand
  deriving Repr, DecidableEq, Inhabited

/-- What is printed where no command is run. -/
def Usage.message : Usage → String
  | .help scope => scope.helpText
  | .version => programName ++ " " ++ programVersion ++ "\n"
  | .unknownOption option => "error: unknown option " ++ option ++ "\n"
  | .repeatedOption option => "error: option given twice: " ++ option ++ "\n"
  | .missingValue option => "error: option needs a value: " ++ option ++ "\n"
  | .unexpectedValue option => "error: option takes no value: " ++ option ++ "\n"
  | .unexpectedArgument argument => "error: unexpected argument " ++ argument ++ "\n"
  | .missingArgument name => "error: missing argument " ++ name ++ "\n"
  | .unknownCommand name => "error: unknown command " ++ name ++ "\n"
  | .missingCommand => "error: missing command\n"

/-- What has been read of a command line. -/
structure Given where
  flags : List Flag := []
  input : Option String := none
  positional : List String := []
  deriving Repr, DecidableEq, Inhabited

namespace Given

/-- One flag more. To ask for help or for the version ends the reading at once, whatever follows. -/
def addFlag (scope : Scope) (given : Given) (flag : Flag) : Except Usage Given :=
  match flag with
  | .help => .error (.help scope)
  | .version => .error .version
  | flag =>
      if given.flags.contains flag then .error (.repeatedOption ("--" ++ flag.long))
      else .ok { given with flags := flag :: given.flags }

/-- The value of the input. -/
def setInput (given : Given) (value : String) : Except Usage Given :=
  match given.input with
  | some _ => .error (.repeatedOption "--input")
  | none => .ok { given with input := some value }

/-- One positional argument more, if there is room for it. -/
def addPositional (scope : Scope) (given : Given) (argument : String) : Except Usage Given :=
  if scope.hasRoom given.positional.length then
    .ok { given with positional := given.positional ++ [argument] }
  else .error (.unexpectedArgument argument)

end Given

/-- What an option leaves to be read. -/
inductive Awaiting where
  | nothing
  /-- The value of the input, in the next argument. -/
  | inputValue

/-- Read a group of short options. -/
def readShort (scope : Scope) (given : Given) : List Char → Except Usage (Given × Awaiting)
  | [] => .ok (given, .nothing)
  | c :: rest =>
      match scope.flags.find? (·.short == c) with
      | some flag => do readShort scope (← given.addFlag scope flag) rest
      | none =>
          if c == 'i' && scope.input then
            match rest with
            | [] => .ok (given, .inputValue)
            | '=' :: value => return (← given.setInput (String.ofList value), .nothing)
            | value => return (← given.setInput (String.ofList value), .nothing)
          else .error (.unknownOption (String.ofList ['-', c]))

/-- Read a long option. -/
def readLong (scope : Scope) (given : Given) (text : List Char) :
    Except Usage (Given × Awaiting) :=
  let name := String.ofList (text.takeWhile (· != '='))
  let value? :=
    match text.dropWhile (· != '=') with
    | _ :: value => some (String.ofList value)
    | [] => none
  match scope.flags.find? (·.long == name) with
  | some flag =>
      match value? with
      | none => return (← given.addFlag scope flag, .nothing)
      | some _ => .error (.unexpectedValue ("--" ++ name))
  | none =>
      if name == "input" && scope.input then
        match value? with
        | some value => return (← given.setInput value, .nothing)
        | none => .ok (given, .inputValue)
      else .error (.unknownOption ("--" ++ name))

/-- Does an argument look like an option? -/
def isOption (argument : String) : Bool :=
  match argument.toList with
  | '-' :: _ :: _ => true
  | _ => false

/-- Read an argument that looks like an option. -/
def readOption (scope : Scope) (given : Given) (argument : String) :
    Except Usage (Given × Awaiting) :=
  match argument.toList with
  | '-' :: '-' :: text => readLong scope given text
  | '-' :: text => readShort scope given text
  | _ => .ok (given, .nothing)

/-- **Read options and positional arguments** up to the end. -/
def readArguments (scope : Scope) (given : Given) : List String → Except Usage Given
  | [] => .ok given
  | argument :: rest =>
      if argument == "--" then rest.foldlM (Given.addPositional scope) given
      else if isOption argument then
        match readOption scope given argument with
        | .error fault => .error fault
        | .ok (given, .nothing) => readArguments scope given rest
        | .ok (given, .inputValue) =>
            match rest with
            | [] => .error (.missingValue "--input")
            | value :: rest =>
                if isOption value then .error (.missingValue "--input")
                else
                  match given.setInput value with
                  | .error fault => .error fault
                  | .ok given => readArguments scope given rest
      else
        match given.addPositional scope argument with
        | .error fault => .error fault
        | .ok given => readArguments scope given rest

/-- The command that a verb makes of what was read behind it. -/
def Verb.build (verb : Verb) (given : Given) : Except Usage Command :=
  match verb, given.positional with
  | .tokens, [path] => .ok (.tokens path)
  | .check, [path] => .ok (.check path)
  | .get, path :: arguments => .ok (.get path arguments)
  | .set, path :: value :: arguments =>
      .ok (.set path value arguments (given.flags.contains .force))
  | .find, [target] => .ok (.find target (given.flags.contains .all))
  | .escape, [segment] => .ok (.escape segment)
  | verb, positional =>
      .error (.missingArgument ((verb.scope.missing? positional.length).elim "" (·.name)))

/-- A command line that is understood. -/
structure Invocation where
  command : Command
  /-- The document, if it is given on the command line. -/
  input : Option String
  /-- Is the report laid out on many lines? -/
  pretty : Bool
  deriving Repr, DecidableEq, Inhabited

/-- What the word `help` asks for: the help of the command named behind it, or of the program. -/
def readHelp : List String → Usage
  | [] => .help .program
  | name :: rest =>
      match (if name == "help" then some .help else (Verb.ofName? name).map Verb.scope), rest with
      | none, _ => .unknownCommand name
      | some scope, [] => .help scope
      | some _, extra :: _ => .unknownCommand extra

/-- Read the options in front of the command, then the command and all that is behind it. -/
def readCommandLine (given : Given) : List String → Except Usage Invocation
  | [] => .error .missingCommand
  | argument :: rest =>
      if argument == "--" then .error .missingCommand
      else if isOption argument then
        match readOption .program given argument with
        | .error fault => .error fault
        | .ok (given, _) => readCommandLine given rest
      else if argument == "help" then .error (readHelp rest)
      else
        match Verb.ofName? argument with
        | none => .error (.unknownCommand argument)
        | some verb => do
            let behind ← readArguments verb.scope {} rest
            let command ← verb.build behind
            return ⟨command, behind.input,
              given.flags.contains .pretty || behind.flags.contains .pretty⟩

/-- **Understand a command line.** -/
def parse (arguments : List String) : Except Usage Invocation := readCommandLine {} arguments

/-! ### Running a command line -/

/-- What a run of the program leaves behind. -/
structure Outcome where
  code : UInt8
  stdout : String
  stderr : String
  deriving Repr, DecidableEq, Inhabited

/-- The outcome where no command is run: to ask for help or for the version is no error. -/
def Outcome.ofUsage (usage : Usage) : Outcome :=
  match usage with
  | .help _ | .version => ⟨0, usage.message, ""⟩
  | _ => ⟨2, "", usage.message⟩

/-- The line that tells a failure. The reason why a text is not JSON would end it, and with the
reason its end is left out. -/
def Failure.line (failure : Failure) : String :=
  match failure with
  | .json => failure.message
  | _ => failure.message ++ "\n"

/-- **Run a command line that is understood**, on the document that it gives or else the one given
to it. -/
def Invocation.run (invocation : Invocation) (input : Option String) : Outcome :=
  match invocation.command.run (invocation.input <|> input) with
  | .ok report => ⟨0, report.print invocation.pretty, ""⟩
  | .error failure => ⟨1, "", failure.line⟩

/-- **Run a command line.** -/
def run (arguments : List String) (input : Option String) : Outcome :=
  match parse arguments with
  | .error fault => .ofUsage fault
  | .ok invocation => invocation.run input

end PathExpr.Cli
