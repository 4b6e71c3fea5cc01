import PipeQuery.Diagnostic.Basic
import PipeQuery.Token.Basic

/-!
# `PipeQuery.Diagnostic.Cause`: what can be wrong with a query

Each problem that the lexer or the parser can find is one `Cause`. Its kind and its wording are
functions of the cause, so what is found and how it is told stay apart.
-/

set_option autoImplicit false

namespace PipeQuery.Diagnostic

/-- A construct that has a closing mark. -/
inductive Enclosed where
  | quotedIdentifier
  | quotedString
  | tripleQuotedString
  | blockComment
deriving DecidableEq, Repr

/-- The construct in words. -/
def Enclosed.describe : Enclosed → String
  | .quotedIdentifier => "quoted identifier"
  | .quotedString => "quoted string"
  | .tripleQuotedString => "triple-quoted string"
  | .blockComment => "block comment"

/-- What can be wrong with a query. -/
inductive Cause where
  /-- No token of the mode begins like this. -/
  | unrecognized (text : String)
  /-- The closing mark is missing. -/
  | unterminated (construct : Enclosed)
  /-- A backslash stands before a character that it does not escape. -/
  | invalidEscape
  /-- The word is no command, or a preview that is switched off. -/
  | unknownCommand (word : String) (preview : Bool)
  /-- The grammar wants something else than the token found, `none` at the end of the text. -/
  | expected (what : String) (found : Option String)
  /-- The operator cannot apply to an operand of this shape. -/
  | misplaced (operator : String) (operand : String)
  /-- The text holds no command at all. -/
  | emptyQuery
  /-- The query nests deeper than the limit. -/
  | tooDeep (limit : Nat)
  /-- A `[` has no `]`. -/
  | unclosedBracket
  /-- Something stands between the parts of `cluster:index`. -/
  | splitSource
  | emptyStats
  | emptyInlineStats
  | limitOutOfRange (digits : String)
  | numberOutOfRange (digits : String)
  | parameterOutOfRange (digits : String)
  /-- `DROP *` -/
  | dropAll
  | renameWildcard (name : String)
  | enrichWildcard (name : String)
  | dissectOption (name : String)
  | dissectValue (value : String)
  | repeatedSetting (name : String)
  | unsupportedSetting (name : String)
  | settingValue (value : String)
  | policyMode (qualifier : String)
  /-- A token that was taken for a predicate is none. -/
  | strayPredicate (text : String)
deriving DecidableEq, Repr

namespace Cause

/-- The stage that finds the problem. -/
def kind : Cause → Kind
  | .unrecognized _ | .unterminated _ | .invalidEscape => .lexical
  | .unknownCommand .. => .unknownCommand
  | .expected .. | .misplaced .. | .emptyQuery => .grammar
  | _ => .structural

/-- The wording of the problem. -/
def message : Cause → String
  | .unrecognized text => "unrecognized input '" ++ text ++ "'"
  | .unterminated construct => "unterminated " ++ construct.describe
  | .invalidEscape => "invalid escape sequence in string"
  | .unknownCommand word preview =>
    "unknown command '" ++ word ++ "'" ++
      if preview then ", available only with dev features enabled" else ""
  | .expected what none => "expected " ++ what ++ ", found end of input"
  | .expected what (some text) => "expected " ++ what ++ ", found '" ++ text ++ "'"
  | .misplaced operator operand =>
    "'" ++ operator ++ "' cannot follow " ++ operand ++ " without parentheses"
  | .emptyQuery => "query must contain at least one command"
  | .tooDeep limit => "query nesting exceeds the limit of " ++ toString limit
  | .unclosedBracket => "unclosed '[' at end of input"
  | .splitSource => "cluster and index names must not be separated by whitespace or comments"
  | .emptyStats => "STATS requires at least one aggregation or grouping"
  | .emptyInlineStats => "INLINESTATS requires at least one aggregation"
  | .limitOutOfRange digits => "LIMIT value [" ++ digits ++ "] is out of range"
  | .numberOutOfRange digits => "number [" ++ digits ++ "] is out of range"
  | .parameterOutOfRange digits => "parameter index [" ++ digits ++ "] is out of range"
  | .dropAll => "removing all fields is not allowed [*]"
  | .renameWildcard name => "using wildcards [*] in RENAME is not allowed [" ++ name ++ "]"
  | .enrichWildcard name =>
    "using wildcards [*] in ENRICH WITH projections is not allowed [" ++ name ++ "]"
  | .dissectOption name =>
    "invalid option for DISSECT: [" ++ name ++ "], only [append_separator] is supported"
  | .dissectValue value =>
    "invalid value for DISSECT append_separator: expected a string, found [" ++ value ++ "]"
  | .repeatedSetting name => "only one [" ++ name ++ "] setting is allowed"
  | .unsupportedSetting name => "unsupported setting [" ++ name ++ "], expected [ccq.mode]"
  | .settingValue value =>
    "unrecognized value [" ++ value ++ "] for setting [ccq.mode], expected one of " ++
      "[any, coordinator, remote]"
  | .policyMode qualifier =>
    "unrecognized value [" ++ qualifier ++ "], ENRICH policy qualifier needs to be one of " ++
      "[_any, _coordinator, _remote]"
  | .strayPredicate text => "unexpected '" ++ text ++ "' after an expression"

/-- The error that a cause makes at a place. -/
def located (cause : Cause) (span : Span) (line col : Nat) : Diagnostic where
  kind := cause.kind
  severity := .error
  message := cause.message
  span := span
  line := line
  col := col

/-- The error that a cause makes at a token. -/
def onToken (cause : Cause) (token : Token) : Diagnostic :=
  cause.located token.span token.line token.col

end Cause

end PipeQuery.Diagnostic
