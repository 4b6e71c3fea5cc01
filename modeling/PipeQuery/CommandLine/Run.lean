import PipeQuery.CommandLine.Shell

/-!
# `PipeQuery.CommandLine.Run`: a run of the program

From the arguments to an exit code. What the program needs of its surroundings, the files and the
standard input, is a value, so a run is a function.
-/

set_option autoImplicit false

namespace PipeQuery

/-- What a run can read. -/
structure Host where
  /-- The texts of files. -/
  files : String → Except ReadFault String
  /-- The standard input as one text. -/
  input : Except ReadFault String

/-- How a run goes on once the arguments and the options are read. -/
inductive Started where
  | finished (code : Nat) (console : Console)
  | shell (shell : Shell) (console : Console)

namespace Invocation

/-- The help on arguments. -/
def usage : String :=
  String.intercalate "\n"
    ["Usage: esql [QUERY_FILE|-] [-c|--command QUERY] [--dev] [--tokens|--json] [--config FILE]",
      "",
      "Without a query, starts an interactive shell reading from stdin.",
      "\x60-\x60 reads a single query from stdin.",
      "",
      "Options:",
      "",
      "--dev          Enable preview commands (INLINESTATS, LOOKUP, MATCH, METRICS)",
      "--tokens       Print the token stream instead of the query",
      "--json         Print the full parse result as JSON",
      "--config FILE  Load parser options from a JSON file",
      "",
      "Examples:",
      "",
      "esql -c \"FROM logs | WHERE status == 200 | LIMIT 10\"",
      "esql --tokens -c \"ROW a = 1\"",
      "esql --dev --json query.esql",
      "echo \"SHOW INFO\" | esql -",
      "",
      ""]

/-- The options of the configuration file, if one is named. `--dev` adds the previews. -/
def options (i : Invocation) (host : Host) : Except Failure Options := do
  let given ←
    match i.configPath with
    | none => .ok .default
    | some path =>
      match host.files path with
      | .ok text => Options.ofText text
      | .error fault => .error (.io fault)
  return if i.dev then { given with devFeatures := true } else given

/-- Runs the query that the arguments hold or name; without one, a shell is to be run. -/
def startWith (i : Invocation) (options : Options) (host : Host) (c : Console) : Started :=
  let runQuery (text : String) : Started :=
    let (code, c) := c.runQuery text options i.outputFormat
    .finished code c
  match i.command, i.queryPath with
  | some query, _ => runQuery query
  | none, none => .shell ⟨options, i.outputFormat, ""⟩ c
  | none, some path =>
    if path = stdinPath then
      match host.input with
      | .ok text => runQuery text
      | .error fault =>
        let (code, c) := c.fail (.io fault)
        .finished code c
    else
      match host.files path with
      | .ok text => runQuery text
      | .error fault =>
        .finished (Failure.io fault).exitCode (c.complain (Shell.fileComplaint path fault))

/-- Runs the arguments, as far as no lines of the standard input are needed. -/
def start (arguments : List String) (host : Host) (c : Console) : Started :=
  match ofArguments arguments with
  | .error misuse =>
    .finished 2 { c with err := c.err ++ "error: " ++ misuse.message ++ "\n" ++ usage }
  | .ok i =>
    if i.showHelp then
      match c.print usage with
      | (true, c) => .finished 0 c
      | (false, c) => .finished 1 c
    else
      match i.options host with
      | .error failure =>
        let (code, c) := c.fail failure
        .finished code c
      | .ok options => i.startWith options host c

/-- A whole run, with these attempts to read a line. -/
def run (arguments : List String) (host : Host) (events : List ReadEvent) (c : Console) :
    Nat × Console :=
  match start arguments host c with
  | .finished code c => (code, c)
  | .shell shell c => shell.run host.files c events

end Invocation

end PipeQuery
