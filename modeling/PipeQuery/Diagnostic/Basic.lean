import PipeQuery.Span

/-!
# `PipeQuery.Diagnostic.Basic`: located problems

Problems are collected, never thrown: reading a query always ends with a tree and all that was
found wrong on the way.
-/

set_option autoImplicit false

namespace PipeQuery

namespace Diagnostic

/-- The stage that refused the text. -/
inductive Kind where
  /-- Characters that form no token, or a literal without its end. -/
  | lexical
  /-- A word in command position that is no command. -/
  | unknownCommand
  /-- A token that the grammar does not expect. -/
  | grammar
  /-- Tokens in order that still make no valid command. -/
  | structural
deriving DecidableEq, Repr, Inhabited

/-- The kind as it is shown in front of a message. -/
def Kind.label : Kind → String
  | .lexical => "lexical error"
  | .unknownCommand => "unknown command"
  | .grammar => "syntax error"
  | .structural => "invalid command"

/-- How much a problem weighs. The readers of queries make errors only. -/
inductive Severity where
  | warning
  | error
deriving DecidableEq, Repr, Inhabited

/-- The severity as it is shown in front of a diagnostic. -/
def Severity.label : Severity → String
  | .warning => "warning"
  | .error => "error"

end Diagnostic

/-- A problem and its place. `line` and `col` belong to the start of `span`. -/
structure Diagnostic where
  kind : Diagnostic.Kind
  severity : Diagnostic.Severity
  message : String
  span : Span
  line : Nat
  col : Nat
deriving DecidableEq, Repr, Inhabited

namespace Diagnostic

/-- The diagnostic with a span of 32 bits. -/
def truncated (d : Diagnostic) : Diagnostic :=
  { d with span := d.span.truncated }

/-- The diagnostic makes the query invalid. -/
def isError (d : Diagnostic) : Bool :=
  d.severity = .error

/-- The diagnostic on one line: place, kind and message. -/
def render (d : Diagnostic) : String :=
  toString d.line ++ ":" ++ toString d.col ++ ": " ++ d.kind.label ++ ": " ++ d.message

/-- `a` does not come after `b` in the order of the text: by start, then by end. -/
def notAfter (a b : Diagnostic) : Bool :=
  a.span.start < b.span.start || (a.span.start = b.span.start && a.span.stop ≤ b.span.stop)

/-- The diagnostics in the order of the text. Those with one span keep their order. -/
def sorted (ds : List Diagnostic) : List Diagnostic :=
  ds.mergeSort notAfter

end Diagnostic

end PipeQuery
