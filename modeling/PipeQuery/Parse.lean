import PipeQuery.Failure
import PipeQuery.Options.Basic
import PipeQuery.Parser.Pipeline
import PipeQuery.Token.Lexer

/-!
# `PipeQuery.Parse`: from text to query

`parse` always returns a query, with every problem found; `tryParse` returns one only if there was
none.
-/

set_option autoImplicit false

namespace PipeQuery

/-- All that a parse produces: the query, as far as it could be read, the diagnostics in the order
of the text, the tokens with the hidden ones, and the modes at the end. -/
structure Parsed where
  query : Query
  diagnostics : List Diagnostic
  tokens : List Token
  modes : List Mode

namespace Parsed

/-- No diagnostic is an error. -/
def isOk (p : Parsed) : Bool :=
  !p.diagnostics.any Diagnostic.isError

/-- The diagnostics that are errors. -/
def errors (p : Parsed) : List Diagnostic :=
  p.diagnostics.filter Diagnostic.isError

/-- The query, if there was no error. -/
def result (p : Parsed) : Except Failure Query :=
  if p.isOk then .ok p.query else .error (.invalidQuery p.diagnostics)

end Parsed

namespace Lexing

/-- What the parser knows about a text. -/
def context (l : Lexing) (text : String) : Parser.Context where
  source := text.toList
  endToken := l.endToken
  errorStarts := (l.tokens.filter fun t => t.kind = .error).map fun t => t.span.start

/-- The lexemes of a text. -/
def lexemes (l : Lexing) : List Lexeme :=
  Lexeme.ofTokens false l.tokens

/-- The query of a text, and the state behind it. -/
def query (l : Lexing) (text : String) (maxDepth : Nat) :
    Except Diagnostic Query × Parser.State :=
  Parser.query maxDepth (!l.diagnostics.isEmpty) (!l.modes.above.isEmpty) (l.context text)
    (.initial l.lexemes)

end Lexing

/-- Reads a text as a query. -/
def parse (text : String) (options : Options) : Parsed :=
  let lexing := Lexer.lex options.devFeatures text
  let (query, state) := lexing.query text options.maxDepth
  { query := query.toOption.getD (.ofCommands [])
    diagnostics := Diagnostic.sorted (lexing.diagnostics ++ state.recorded.reverse)
    tokens := lexing.all
    modes := lexing.modes.modes }

/-- Reads a text that is within the size limit as a query without errors. -/
def tryParse (text : String) (options : Options) : Except Failure Query :=
  let length := Text.byteLength text.toList
  if options.maxInputBytes < length then .error (.inputTooLong length options.maxInputBytes)
  else (parse text options).result

/-- The tokens of a text, the hidden ones included. -/
def tokenize (text : String) (options : Options) : List Token :=
  (Lexer.lex options.devFeatures text).all

end PipeQuery
