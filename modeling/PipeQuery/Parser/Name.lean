import PipeQuery.Parser.Basic
import PipeQuery.Query.Name

/-!
# `PipeQuery.Parser.Name`: names, patterns and sources

The steps that read what a query names. Each of them takes at least one token when it succeeds.
-/

set_option autoImplicit false

namespace PipeQuery.Parser

open Diagnostic (Cause)

/-- The number that the digits of a token write, if it is below `bound`. -/
def bounded (bound : Nat) (digits : List Char) : Option Nat :=
  let value := Text.decimalValue digits
  if value < bound then some value else none

/-- A name, bare or between backquotes. -/
def identifier (what : String) : Parse Identifier := do
  let token ← current
  match token.kind with
  | .identifier =>
    let _ ← advance
    return ⟨token.text, false, token.span⟩
  | .quotedIdentifier =>
    let _ ← advance
    return ⟨Text.Backquoted.decode token.text, true, token.span⟩
  | _ => unexpected what

/-- The text of a parameter token without its question mark. -/
def parameterBody (token : Token) : List Char :=
  match token.text.toList with
  | '?' :: body => body
  | body => body

/-- The parameter that a token stands for. A positional one has at most 32 bits. -/
def parameterOf (token : Token) : Parse Parameter := do
  if token.kind = .anonymousParam then return .anonymous
  else
    let body := parameterBody token
    if body.all Char.isDigit then
      match bounded (Nat.pow 2 32) body with
      | some index => return .positional index
      | none => .stop (← located (.parameterOutOfRange (String.ofList body)) token.span)
    else return .named (String.ofList body)

/-- A parameter token. -/
def isParameter : Token.Kind → Bool
  | .anonymousParam | .param => true
  | _ => false

/-- A name or a parameter. -/
def namePart : Parse NamePart := do
  let token ← current
  if isParameter token.kind then
    let _ ← advance
    return .parameter (← parameterOf token) token.span
  else
    return .identifier (← identifier "a field name")

/-- A dotted field name. -/
def fieldName : Parse FieldName := do
  let first ← namePart
  let rest ← others .dot namePart
  return ⟨first :: rest, ← spanFrom first.span⟩

/-- A pattern or a parameter. -/
def patternPart : Parse PatternPart := do
  let token ← current
  if token.kind = .pattern then
    let _ ← advance
    return .pattern ⟨Text.Backquoted.decode token.text, token.text, token.span⟩
  else if isParameter token.kind then
    let _ ← advance
    return .parameter (← parameterOf token) token.span
  else unexpected "a field name pattern"

/-- A dotted field pattern. -/
def fieldPattern : Parse FieldPattern := do
  let first ← patternPart
  let rest ← others .dot patternPart
  return ⟨first :: rest, ← spanFrom first.span⟩

/-- Field patterns with commas between them. -/
def fieldPatterns : Parse (List FieldPattern) :=
  separated .comma fieldPattern

/-- The name of an index, a table or a cluster. -/
def source : Parse Source := do
  let token ← current
  match token.kind with
  | .source =>
    let _ ← advance
    return ⟨token.text, false, token.span⟩
  | .quotedString =>
    let _ ← advance
    return ⟨Text.Quoted.decode token.text, true, token.span⟩
  | _ => unexpected "an index pattern"

/-- A source, or a cluster and an index with a colon and nothing else between them. -/
def indexPattern : Parse IndexPattern := do
  let first ← source
  let spacedColon ← isSpaced
  if ← eat .colon then
    let spacedIndex ← isSpaced
    let index ← source
    let span := first.span.merge index.span
    if spacedColon || spacedIndex then report .splitSource span
    return ⟨some first, index, span⟩
  else
    return ⟨none, first, first.span⟩

/-- Index patterns with commas between them. -/
def indexPatterns : Parse (List IndexPattern) :=
  separated .comma indexPattern

end PipeQuery.Parser
