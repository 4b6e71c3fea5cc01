/-!
# `PipeQuery.CommandLine.Arguments`: the words behind the program's name

Arguments are read from left to right, and the first conflict ends the reading.
-/

set_option autoImplicit false

namespace PipeQuery

/-- What is printed of a query. -/
inductive Format where
  /-- The query as text. -/
  | text
  /-- A line for each token. -/
  | tokens
  /-- All that the parse produced. -/
  | json
deriving DecidableEq, Repr, Inhabited

/-- What the arguments ask for. -/
structure Invocation where
  queryPath : Option String
  command : Option String
  configPath : Option String
  dev : Bool
  format : Option Format
  showHelp : Bool
deriving DecidableEq, Repr

namespace Invocation

/-- No arguments at all. -/
def empty : Invocation :=
  ⟨none, none, none, false, none, false⟩

/-- Why arguments are refused. -/
inductive Misuse where
  | missingQuery
  | missingFile
  | twoFormats
  | commandAndFile
  | twoCommands
  | twoConfigs
  | unknownOption (argument : String)
  | fileAndCommand
  | twoFiles
deriving DecidableEq, Repr

/-- The reason in words. -/
def Misuse.message : Misuse → String
  | .missingQuery => "missing query argument for \x60-c/--command\x60"
  | .missingFile => "missing file argument for \x60--config\x60"
  | .twoFormats => "\x60--tokens\x60 cannot be combined with \x60--json\x60"
  | .commandAndFile => "\x60-c/--command\x60 cannot be combined with a query file"
  | .twoCommands => "\x60-c/--command\x60 may only be provided once"
  | .twoConfigs => "\x60--config\x60 may only be provided once"
  | .unknownOption argument => "unknown option \x60" ++ argument ++ "\x60"
  | .fileAndCommand => "query file cannot be combined with \x60-c/--command\x60"
  | .twoFiles => "too many positional arguments; expected at most one query file"

/-- The invocation with a format. One format may come twice. -/
def withFormat (i : Invocation) (format : Format) : Except Misuse Invocation :=
  match i.format with
  | some other => if other = format then .ok i else .error .twoFormats
  | none => .ok { i with format := some format }

/-- The invocation with a query in its arguments. -/
def withCommand (i : Invocation) (query : String) : Except Misuse Invocation :=
  if i.queryPath.isSome then .error .commandAndFile
  else if i.command.isSome then .error .twoCommands
  else .ok { i with command := some query }

/-- The invocation with a file of options. -/
def withConfig (i : Invocation) (path : String) : Except Misuse Invocation :=
  if i.configPath.isSome then .error .twoConfigs else .ok { i with configPath := some path }

/-- The invocation with a file that holds the query. -/
def withFile (i : Invocation) (path : String) : Except Misuse Invocation :=
  if i.command.isSome then .error .fileAndCommand
  else if i.queryPath.isSome then .error .twoFiles
  else .ok { i with queryPath := some path }

/-- The path that stands for the standard input. -/
def stdinPath : String :=
  "-"

/-- What stands behind `start` in an argument that begins with it. -/
def after? (start argument : String) : Option String :=
  if start.toList.isPrefixOf argument.toList then
    some (String.ofList (argument.toList.drop start.length))
  else none

/-- The invocation with an argument that takes none behind it. -/
def withArgument (i : Invocation) (argument : String) : Except Misuse Invocation :=
  match after? "-c=" argument with
  | some query => i.withCommand query
  | none =>
    match after? "--command=" argument with
    | some query => i.withCommand query
    | none =>
      match after? "--config=" argument with
      | some path => i.withConfig path
      | none =>
        if (after? "-" argument).isSome && argument ≠ stdinPath then
          .error (.unknownOption argument)
        else i.withFile argument

/-- Reads arguments behind those of `i`. -/
def read (i : Invocation) : List String → Except Misuse Invocation
  | [] => .ok i
  | argument :: rest =>
    if argument = "-h" || argument = "--help" then read { i with showHelp := true } rest
    else if argument = "--dev" then read { i with dev := true } rest
    else if argument = "--tokens" then do read (← i.withFormat .tokens) rest
    else if argument = "--json" then do read (← i.withFormat .json) rest
    else if argument = "-c" || argument = "--command" then
      match rest with
      | [] => .error .missingQuery
      | query :: rest => do read (← i.withCommand query) rest
    else if argument = "--config" then
      match rest with
      | [] => .error .missingFile
      | path :: rest => do read (← i.withConfig path) rest
    else do read (← i.withArgument argument) rest

/-- What the arguments, the program's name apart, ask for. -/
def ofArguments (arguments : List String) : Except Misuse Invocation :=
  empty.read arguments

/-- The format asked for, or the text form. -/
def outputFormat (i : Invocation) : Format :=
  i.format.getD .text

end Invocation

end PipeQuery
