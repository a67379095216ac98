import DynTypes.Check
import DynTypes.Cli.Arguments
import DynTypes.Json.Builtin
import DynTypes.Json.Writer
import DynTypes.Regex.Builtin
import DynTypes.TypeExpr.Json
import DynTypes.TypeExpr.Render
import DynTypes.Value.Json
import DynTypes.Value.TypeTable
/-!
# The commands

Each command as a function from its arguments to what it prints and its exit code. Zero says yes,
one says no or reports an error, two reports a misuse of the command line.
-/

namespace DynTypes.Cli

variable [RegexEngine] [JsonReader]

/-- What a command leaves behind. -/
structure Outcome where
  code : Nat
  /-- What goes to standard output. -/
  output : String := ""
  /-- What goes to standard error. -/
  diagnostics : String := ""
deriving DecidableEq, Repr

namespace Outcome

/-- A line of output. -/
def line (code : Nat) (text : List Char) : Outcome where
  code
  output := String.ofList (text ++ ['\n'])

/-- An error, which is no part of the output. -/
def failure (message : String) : Outcome where
  code := 1
  diagnostics := "Error: " ++ message ++ "\n"

def misuse : Outcome where
  code := 2
  diagnostics := "Bad usage; try --help.\n"

end Outcome

/-- How the commands are used. -/
def usage : String :=
  "Usage: [-v|--verbose] [--log-format text|json] COMMAND\n\n" ++
  "  validate DEFINITION                    check that a definition is well-formed\n" ++
  "  parse [--json] [--pretty] DEFINITION   print the canonical form of a definition\n" ++
  "  check DEFINITION VALUE                 match a JSON value against a definition\n" ++
  "  describe VALUE                         describe the type of a JSON value\n"

/-- Checks that a definition keeps the grammar. -/
def validate (definition : String) : Outcome :=
  match Grammar.validate definition with
  | .ok () => .line 0 "ok".toList
  | .error error => .line 1 error.message.toList

/-- Writes a definition in its plain form, or its tree in JSON. -/
def parse (definition : String) (json pretty : Bool) : Outcome :=
  match TypeExpr.parse definition with
  | .error error => .failure error.message
  | .ok expr =>
    .line 0 <|
      if pretty then expr.toJson.indented 0
      else if json then expr.toJson.compact
      else expr.render

/-- Runs a command on a value that is written in JSON. -/
def withValue (document : String) (run : Value → Outcome) : Outcome :=
  match Value.read? document with
  | some v => run v
  | none => .failure ("invalid JSON value: " ++ document)

/-- Matches a value against a definition. The value is read first. -/
def check (definition document : String) : Outcome :=
  withValue document fun v =>
    let answer :=
      acceptsDefinition TypeTable.builtin.toRegistry Value.view definition v
    match (answer.run.run { rules := {} }).1 with
    | .error error => .failure error.message
    | .ok true => .line 0 "match".toList
    | .ok false => .line 1 ("no match: value is ".toList ++ DynTypes.describe Value.nesting v)

/-- Describes the type of a value. -/
def describe (document : String) : Outcome :=
  withValue document fun v => .line 0 (DynTypes.describe Value.nesting v)

def Command.run : Command → Outcome
  | .validate definition => Cli.validate definition
  | .parse definition json pretty => Cli.parse definition json pretty
  | .check definition value => Cli.check definition value
  | .describe value => Cli.describe value
  | .help => { code := 0, output := usage }

/-- Runs a command line. -/
def run (arguments : List String) : Outcome :=
  match Command.ofArguments? {} arguments with
  | some command => command.run
  | none => .misuse

end DynTypes.Cli
