import PipeQuery.CommandLine.Arguments
import PipeQuery.Json.Query
import PipeQuery.Text.Blank
import PipeQuery.Text.Display

/-!
# `PipeQuery.CommandLine.Report`: what is printed of a query

A console collects what a run prints to either stream. Printing to a closed output fails, which a
caller may notice or not; complaints never fail.
-/

set_option autoImplicit false

namespace PipeQuery

/-- What was printed so far, and whether the output was closed by its reader. -/
structure Console where
  out : String
  err : String
  closed : Bool
deriving DecidableEq, Repr

namespace Console

/-- Prints to the output, and says whether that worked. Nothing can be printed to a closed one. -/
def print (c : Console) (text : String) : Bool × Console :=
  if text = "" then (true, c)
  else if c.closed then (false, c)
  else (true, { c with out := c.out ++ text })

/-- Prints to the output and hands it over at once. -/
def printNow (c : Console) (text : String) : Bool × Console :=
  if c.closed then (false, c) else c.print text

/-- Prints a line to the other stream. -/
def complain (c : Console) (line : String) : Console :=
  { c with err := c.err ++ line ++ "\n" }

/-- Tells a failure and what can be done about it, and gives its exit code. -/
def fail (c : Console) (failure : Failure) : Nat × Console :=
  let c := c.complain ("error: " ++ failure.message)
  (failure.exitCode,
    match failure.suggestion? with
    | some hint => c.complain ("hint: " ++ hint)
    | none => c)

end Console

namespace Text

/-- A line of a text, counted from 0, without its line feed; empty if there are fewer lines. -/
def lineAt : Nat → List Char → List Char
  | 0, cs => cs.takeWhile (· ≠ '\n')
  | n + 1, cs =>
    match cs.dropWhile (· ≠ '\n') with
    | [] => []
    | _ :: rest => lineAt n rest

end Text

namespace Diagnostic

/-- The line of the text that a diagnostic belongs to, without the end of the line. -/
def sourceLine (d : Diagnostic) (text : String) : String :=
  String.ofList (Text.dropEndWhile (· = '\r') (Text.lineAt (d.line - 1) text.toList))

/-- The number of carets under the line: the characters of the span up to a line feed, one at
least. -/
def caretCount (d : Diagnostic) (text : String) : Nat :=
  max 1 (((d.span.slice text).toList.takeWhile (· ≠ '\n')).length)

/-- The diagnostic, the line that it belongs to, and carets under its span. -/
def block (d : Diagnostic) (text : String) : String :=
  d.severity.label ++ ": " ++ d.render ++ "\n  | " ++ d.sourceLine text ++ "\n  | " ++
    String.ofList (List.replicate (d.col - 1) ' ' ++ List.replicate (d.caretCount text) '^')

end Diagnostic

/-- A token on one line: its place, its kind and its text. -/
def Token.listing (t : Token) : String :=
  toString t.line ++ ":" ++ toString t.col ++ "\t" ++ t.kind.label ++ "\t" ++
    Text.display t.text ++ if t.isHidden then "\thidden" else ""

namespace Console

/-- Prints lines to the output until one fails. -/
def printLines (c : Console) : List String → Bool × Console
  | [] => (true, c)
  | line :: lines =>
    match c.print (line ++ "\n") with
    | (true, c) => c.printLines lines
    | (false, c) => (false, c)

/-- Prints a parse in some format. A query without commands has no text. -/
def printParsed (c : Console) (parsed : Parsed) : Format → Bool × Console
  | .text => if parsed.query.commands.isEmpty then (true, c) else c.printLines [parsed.query.render]
  | .tokens => c.printLines (parsed.tokens.map Token.listing)
  | .json => c.printLines [parsed.toJson.pretty]

/-- Parses a query and prints it. Diagnostics go to the other stream, unless the format holds them.
The exit code is 1 if there was an error. -/
def runQuery (c : Console) (text : String) (options : Options) (format : Format) : Nat × Console :=
  let length := Text.byteLength text.toList
  if options.maxInputBytes < length then c.fail (.inputTooLong length options.maxInputBytes)
  else
    let parsed := parse text options
    match c.printParsed parsed format with
    | (false, c) => (1, c.complain "error: failed writing parse output")
    | (true, c) =>
      let told := if format = .json then [] else parsed.diagnostics
      (if parsed.isOk then 0 else 1, told.foldl (fun c d => c.complain (d.block text)) c)

end Console

end PipeQuery
