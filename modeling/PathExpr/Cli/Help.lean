import PathExpr.Cli.Scope

/-!
# Help

The help of a scope says what it is for, how it is used, and what may stand in it: a section each
for commands, arguments and options, with what they are for in a second column.
-/

namespace PathExpr.Cli

/-- A text filled with blanks up to a width. -/
def padded (width : Nat) (text : String) : String :=
  text ++ String.ofList (List.replicate (width - text.length) ' ')

/-- A section of two columns, set off by an empty line; without rows there is none. -/
def sectionText (title : String) (rows : List (String × String)) : String :=
  if rows.isEmpty then ""
  else
    let width := rows.foldl (fun width row => max width row.1.length) 0
    "\n" ++ title ++ ":\n" ++
      String.join (rows.map fun (left, right) => "  " ++ padded width left ++ "  " ++ right ++ "\n")

/-- How an argument is written in a line of use. -/
def Positional.shape (argument : Positional) : String :=
  if argument.many then "[" ++ argument.name ++ "]..." else "<" ++ argument.name ++ ">"

/-- How a flag is written. -/
def Flag.shape (flag : Flag) : String :=
  "-" ++ String.singleton flag.short ++ ", --" ++ flag.long

namespace Scope

/-- The options of a scope, each with what it is for. -/
def optionRows (scope : Scope) : List (String × String) :=
  (if scope.input then [("-i, --input <INPUT>", aboutInput)] else []) ++
    scope.flags.map fun flag => (flag.shape, flag.about)

/-- How a scope is used. -/
def usage (scope : Scope) : String :=
  " ".intercalate <|
    [programName] ++ (if scope.name.isEmpty then [] else [scope.name]) ++
    (if scope.optionRows.isEmpty then [] else ["[OPTIONS]"]) ++
    (if scope.commands.isEmpty then [] else ["<COMMAND>"]) ++
    scope.positional.map Positional.shape

/-- The arguments of a scope, each with what it is for. -/
def argumentRows (scope : Scope) : List (String × String) :=
  scope.positional.map fun argument => (argument.shape, argument.about)

/-- **The help of a scope.** -/
def helpText (scope : Scope) : String :=
  scope.about ++ "\n\nUsage: " ++ scope.usage ++ "\n" ++
    sectionText "Commands" scope.commands ++
    sectionText "Arguments" scope.argumentRows ++
    sectionText "Options" scope.optionRows

end Scope

end PathExpr.Cli
