import PipeQuery.Token.Step

/-!
# `PipeQuery.Token.Lexer`: a text as tokens

The lexer is a place in a text and a mode stack. It never fails: what the mode in force does not
accept becomes an `error` token with a diagnostic, and reading goes on behind it. The tokens of a
text, hidden ones included, are its whole text cut into pieces.

The cursor counts bytes without bound. A token and a diagnostic that leave the lexer have spans of
32 bits, which differ from the places in the text from byte 2 ^ 32 on.
-/

set_option autoImplicit false

namespace PipeQuery

/-- A text that is being cut into tokens. -/
structure Lexer where
  preview : Bool
  cursor : Text.Cursor
  modes : ModeStack
deriving DecidableEq, Repr

/-- All tokens of a text, the one at its end apart, with what was found wrong, in the order of the
text, and the modes at the end. -/
structure Lexing where
  tokens : List Token
  endToken : Token
  diagnostics : List Diagnostic
  modes : ModeStack
deriving DecidableEq, Repr

namespace Lexing

/-- The tokens of a text, `eof` last. -/
def all (l : Lexing) : List Token :=
  l.tokens ++ [l.endToken]

end Lexing

namespace Lexer

/-- The lexer at the start of a text. `preview` says whether the preview verbs are known. -/
def ofText (preview : Bool) (text : String) : Lexer :=
  ⟨preview, .ofText text, .bottom⟩

/-- What the next token is; the cursor is not at the end. -/
def step (l : Lexer) : Token.Step :=
  Token.step l.preview l.modes l.cursor.rest

/-- The token that the next step makes, at its place in the text. -/
def stepToken (l : Lexer) : Token :=
  .spanning l.step.kind l.cursor.position (l.cursor.rest.take l.step.length)

/-- The diagnostic that the next step makes, at its place in the text. -/
def stepDiagnostic? (l : Lexer) : Option Diagnostic :=
  l.step.cause.map fun cause => cause.onToken l.stepToken

/-- The lexer behind the next step. -/
def afterStep (l : Lexer) : Lexer :=
  { l with cursor := l.cursor.skip l.step.length, modes := l.step.modes }

/-- The empty token at the end of the text. -/
def endToken (l : Lexer) : Token :=
  .spanning .eof l.cursor.position []

/-- The lexer once the end of the text was seen: only open brackets keep their modes. -/
def atEnd (l : Lexer) : Lexer :=
  { l with modes := l.modes.unwind }

/-- The next token, what is wrong with it, and the lexer behind it. At the end of the text this is
the `eof` token, any number of times. -/
def next (l : Lexer) : Token × Option Diagnostic × Lexer :=
  if l.cursor.rest = [] then (l.endToken.truncated, none, l.atEnd)
  else (l.stepToken.truncated, l.stepDiagnostic?.map Diagnostic.truncated, l.afterStep)

/-- A step leaves less text ahead. -/
theorem afterStep_rest_length_lt (l : Lexer) (h : l.cursor.rest ≠ []) :
    l.afterStep.cursor.rest.length < l.cursor.rest.length := by
  have hpos := Token.step_length_pos l.preview l.modes h
  have hlen := List.length_pos_iff.mpr h
  simp only [afterStep, Text.Cursor.skip, List.length_drop, step]
  omega

/-- Reads to the end of the text. `tokens` and `diagnostics` are those before, the latest first. -/
def run (l : Lexer) (tokens : List Token) (diagnostics : List Diagnostic) : Lexing :=
  if _h : l.cursor.rest = [] then
    ⟨tokens.reverse, l.endToken.truncated, diagnostics.reverse, l.atEnd.modes⟩
  else
    run l.afterStep (l.stepToken.truncated :: tokens)
      ((l.stepDiagnostic?.map Diagnostic.truncated).toList ++ diagnostics)
termination_by l.cursor.rest.length
decreasing_by exact afterStep_rest_length_lt l ‹_›

/-- All tokens of a text. -/
def lex (preview : Bool) (text : String) : Lexing :=
  run (ofText preview text) [] []

end Lexer

end PipeQuery
