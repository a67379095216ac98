/-!
# Command line arguments

A command is named by the first argument that is no option. `--verbose` and `--log-format` may
stand before and after it, once each; what follows `--` is never taken for an option.
-/

namespace DynTypes.Cli

/-- What the command line asks for. -/
inductive Command where
  | validate (definition : String)
  | parse (definition : String) (json pretty : Bool)
  | check (definition value : String)
  | describe (value : String)
  | help
deriving DecidableEq, Repr

/-- The options and other arguments that have been read at one side of the command name. -/
structure Seen where
  verbose : Bool := false
  logFormat : Bool := false
  json : Bool := false
  pretty : Bool := false
  help : Bool := false
  /-- The arguments that are no options, in order. -/
  positional : List String := []

namespace Seen

/-- Takes in an option that has no value, unless it is unknown or has been given before. -/
def option? (seen : Seen) (forParse : Bool) (name : String) : Option Seen :=
  if name = "-v" ∨ name = "--verbose" then
    if seen.verbose then none else some { seen with verbose := true }
  else if name = "-h" ∨ name = "--help" then some { seen with help := true }
  else if name = "--json" ∧ forParse then
    if seen.json then none else some { seen with json := true }
  else if name = "--pretty" ∧ forParse then
    if seen.pretty then none else some { seen with pretty := true }
  else none

/-- Takes in the format of log lines. -/
def logFormat? (seen : Seen) (format : String) : Option Seen :=
  if seen.logFormat ∨ (format ≠ "text" ∧ format ≠ "json") then none
  else some { seen with logFormat := true }

end Seen

/-- Whether an argument has the form of an option. -/
def isOption (argument : String) : Bool :=
  "-".toList.isPrefixOf argument.toList && argument != "-"

/-- The format of log lines that is given in one argument. -/
def joinedFormat? (argument : String) : Option String :=
  let start := "--log-format=".toList
  if start.isPrefixOf argument.toList then
    some (String.ofList (argument.toList.drop start.length))
  else none

/-- Reads the arguments behind a command name. -/
def readArguments (forParse : Bool) (seen : Seen) : List String → Option Seen
  | [] => some seen
  | "--" :: rest => some { seen with positional := seen.positional ++ rest }
  | "--log-format" :: format :: rest => do
    readArguments forParse (← seen.logFormat? format) rest
  | argument :: rest =>
    if isOption argument then
      match joinedFormat? argument with
      | some format => do readArguments forParse (← seen.logFormat? format) rest
      | none => do readArguments forParse (← seen.option? forParse argument) rest
    else
      readArguments forParse { seen with positional := seen.positional ++ [argument] } rest

/-- Reads a command from its name and the arguments behind it. -/
def Command.ofName? (name : String) (arguments : List String) : Option Command := do
  let seen ← readArguments (name == "parse") {} arguments
  match name, seen.help, seen.positional with
  | "validate", false, [definition] => some (.validate definition)
  | "parse", false, [definition] => some (.parse definition seen.json seen.pretty)
  | "check", false, [definition, value] => some (.check definition value)
  | "describe", false, [value] => some (.describe value)
  | "validate", true, _ | "parse", true, _ | "check", true, _ | "describe", true, _ => some .help
  | "help", _, _ => some .help
  | _, _, _ => none

/-- Reads a command line; no command if it is misused. -/
def Command.ofArguments? (seen : Seen) : List String → Option Command
  | [] => if seen.help then some .help else none
  | "--log-format" :: format :: rest => do
    Command.ofArguments? (← seen.logFormat? format) rest
  | argument :: rest =>
    if seen.help then some .help
    else if isOption argument then
      match joinedFormat? argument with
      | some format => do Command.ofArguments? (← seen.logFormat? format) rest
      | none => do Command.ofArguments? (← seen.option? false argument) rest
    else Command.ofName? argument rest

end DynTypes.Cli
