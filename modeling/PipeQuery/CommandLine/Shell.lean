import PipeQuery.CommandLine.Completeness
import PipeQuery.CommandLine.Report

/-!
# `PipeQuery.CommandLine.Shell`: queries line by line

Lines are collected until they read as a finished query, or until a blank line submits what there
is. Lines that begin with a dot, where no query is pending, are commands to the shell itself.

`Shell.onLine` decides what a line means, without doing it; `Shell.perform` does it. So what the
shell submits can be told from the lines alone.
-/

set_option autoImplicit false

namespace PipeQuery

/-- What comes of an attempt to read a line, the end of the input apart. -/
inductive ReadEvent where
  | line (text : String)
  /-- The attempt was interrupted and took nothing. -/
  | interrupted
  | failed (fault : ReadFault)
deriving DecidableEq, Repr

/-- The options and the format in force, and the lines that wait for more. -/
structure Shell where
  options : Options
  format : Format
  pending : String
deriving DecidableEq, Repr

namespace Shell

/-- What the shell does about a line. -/
inductive Action where
  | wait
  | submit (query : String)
  | help
  | readFile (path : String)
  | complain (message : String)
  | quit
deriving DecidableEq, Repr

/-- No query is pending. -/
def isIdle (s : Shell) : Bool :=
  Text.trim s.pending = ""

/-- The prompt for the next line. -/
def prompt (s : Shell) : String :=
  if s.isIdle then "esql> " else " ...> "

/-- The shell without a pending query. -/
def cleared (s : Shell) : Shell :=
  { s with pending := "" }

/-- The first word of a dot command, and what follows it without blanks at its ends. -/
def words (line : String) : String × String :=
  let cs := line.toList
  let name := cs.takeWhile fun c => !Text.isWhiteSpace c
  (String.ofList name, Text.trim (String.ofList (cs.drop (name.length + 1))))

/-- What a dot command means. -/
def onDotCommand (s : Shell) (line : String) : Shell × Action :=
  let (name, argument) := words line
  if name = ".help" then (s, .help)
  else if name = ".dev" && argument = "on" then
    ({ s with options := { s.options with devFeatures := true } }, .wait)
  else if name = ".dev" && argument = "off" then
    ({ s with options := { s.options with devFeatures := false } }, .wait)
  else if name = ".mode" && argument = "text" then ({ s with format := .text }, .wait)
  else if name = ".mode" && argument = "tokens" then ({ s with format := .tokens }, .wait)
  else if name = ".mode" && argument = "json" then ({ s with format := .json }, .wait)
  else if name = ".read" then
    (s, if argument = "" then .complain "error: usage: .read FILE" else .readFile argument)
  else (s, .complain ("error: unknown dot command \x60" ++ line ++ "\x60; try .help"))

/-- Adds a line to the pending query, and submits it once it is finished. -/
def extend (s : Shell) (line : String) : Shell × Action :=
  let pending := if s.pending = "" then line else s.pending ++ "\n" ++ line
  if isComplete pending then (s.cleared, .submit (Text.trim pending))
  else ({ s with pending := pending }, .wait)

/-- What a line means. -/
def onLine (s : Shell) (text : String) : Shell × Action :=
  let line := Text.trimLineEnd text
  let trimmed := Text.trim line
  if s.isIdle then
    if trimmed = ".exit" || trimmed = ".quit" then (s, .quit)
    else if ['.'].isPrefixOf trimmed.toList then s.onDotCommand trimmed
    else if trimmed = "" then (s, .wait)
    else s.extend line
  else if trimmed = "" then (s.cleared, .submit (Text.trim s.pending))
  else s.extend line

/-- The query that the end of the input submits. -/
def atEnd? (s : Shell) : Option String :=
  if s.isIdle then none else some (Text.trim s.pending)

/-- The help on dot commands. -/
def helpText : String :=
  String.intercalate "\n"
    ["Dot commands:",
      "",
      ".help                   Show this help",
      ".quit                   Exit the shell",
      ".exit                   Exit the shell",
      ".dev on|off             Toggle preview commands",
      ".mode text|tokens|json  Choose the output format",
      ".read FILE              Parse a query from file",
      "",
      "A query is parsed once it no longer ends with \x60|\x60 or \x60,\x60 and all",
      "quotes and brackets are closed. A blank line submits it as is.",
      "",
      ""]

/-- The complaint about a query file that cannot be read. -/
def fileComplaint (path : String) (fault : ReadFault) : String :=
  "error: failed reading query file \x60" ++ path ++ "\x60: " ++ fault.message

/-- Does what was decided. An exit code ends the shell. -/
def perform (s : Shell) (files : String → Except ReadFault String) (c : Console) :
    Action → Option Nat × Console
  | .wait => (none, c)
  | .submit query => (none, (c.runQuery query s.options s.format).2)
  | .help =>
    match c.print helpText with
    | (true, c) => (none, c)
    | (false, c) => (some 1, c)
  | .readFile path =>
    match files path with
    | .ok text => (none, (c.runQuery text s.options s.format).2)
    | .error fault => (none, c.complain (fileComplaint path fault))
  | .complain message => (none, c.complain message)
  | .quit => (some 0, c)

/-- Does what follows from an attempt to read a line. An exit code ends the shell. -/
def onEvent (s : Shell) (files : String → Except ReadFault String) (c : Console) :
    ReadEvent → Shell × Option Nat × Console
  | .interrupted => (s.cleared, none, (c.print "\n").2)
  | .failed fault => (s, some 1, c.complain ("error: " ++ fault.message))
  | .line text =>
    let (s, action) := s.onLine text
    (s, s.perform files c action)

/-- Does what follows from the end of the input, which ends the shell. -/
def onEnd (s : Shell) (c : Console) : Nat × Console :=
  match s.atEnd? with
  | some query => (0, (c.runQuery query s.options s.format).2)
  | none => (0, c)

/-- Runs the shell over some attempts to read, behind which the input ends. -/
def run (files : String → Except ReadFault String) (s : Shell) (c : Console) :
    List ReadEvent → Nat × Console
  | [] =>
    match c.printNow s.prompt with
    | (false, c) => (1, c)
    | (true, c) => s.onEnd c
  | event :: events =>
    match c.printNow s.prompt with
    | (false, c) => (1, c)
    | (true, c) =>
      match s.onEvent files c event with
      | (_, some code, c) => (code, c)
      | (s, none, c) => run files s c events

end Shell

end PipeQuery
