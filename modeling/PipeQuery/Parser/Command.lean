import PipeQuery.Parser.Expr
import PipeQuery.Query.Command

/-!
# `PipeQuery.Parser.Command`: commands

One step per verb. Each is entered with the verb ahead, takes it, and reads what belongs to it. A
command whose parts are in order but make no sense is returned all the same, with a diagnostic
recorded.

`sub` reads expressions, as in `PipeQuery.Parser.Expr`; `explained` reads the commands between the
brackets of an `EXPLAIN`.
-/

set_option autoImplicit false

namespace PipeQuery.Parser

open Diagnostic (Cause)

/-! ### Parts of commands -/

/-- A value, behind `target =` if a field is to receive it. The target is an attempt: a field name
without `=` behind it is read again as an expression. -/
def assignment (sub : Nat → Parse Expr) : Parse Assignment := do
  let target ← attempt do
    let name ← fieldName
    return if ← eat .assign then some name else none
  let value ← sub 0
  match target with
  | some name => return ⟨some name, value, name.span.merge value.span⟩
  | none => return ⟨none, value, value.span⟩

/-- Assignments with commas between them. -/
def assignments (sub : Nat → Parse Expr) : Parse (List Assignment) :=
  separated .comma (assignment sub)

/-- A token of this kind ends a command. -/
def endsCommand : Token.Kind → Bool
  | .pipe | .eof | .closeBracket => true
  | _ => false

/-- Aggregations and groupings, either of which may be missing. -/
def statsParts (sub : Nat → Parse Expr) : Parse (List Assignment × List Assignment) := do
  let first ← peek
  let aggregations ←
    if endsCommand first || first = .keyword .«by» then pure [] else assignments sub
  let groupings ← if ← eat (.keyword .«by») then assignments sub else pure []
  return (aggregations, groupings)

/-- The metadata clause of `FROM`, if there is one. -/
def metadata : Parse (Option Metadata) := do
  let first ← current
  let bracketed := first.kind = .openBracket && (← peekSecond) = .keyword .metadata
  if bracketed || first.kind = .keyword .metadata then
    let _ ← advance
    if bracketed then
      let _ ← advance
    let fields ← separated .comma source
    if bracketed then
      let _ ← expect .closeBracket "']'"
    return some ⟨fields, bracketed, ← spanFrom first.span⟩
  else
    return none

/-- The direction behind a sort key, if there is one. -/
def direction : Parse (Option Direction) := do
  if ← eat (.keyword .asc) then return some .asc
  else if ← eat (.keyword .desc) then return some .desc
  else return none

/-- The order of nulls behind a sort key, if there is one. -/
def nullsOrder : Parse (Option NullsOrder) := do
  if ← eat (.keyword .nulls) then
    if ← eat (.keyword .first) then return some .first
    else if ← eat (.keyword .last) then return some .last
    else unexpected "FIRST or LAST"
  else
    return none

/-- A key of `SORT`. -/
def sortKey (sub : Nat → Parse Expr) : Parse SortKey := do
  let e ← sub 0
  let dir ← direction
  let nulls ← nullsOrder
  return ⟨e, dir, nulls, ← spanFrom e.span⟩

/-- A renaming in either spelling. Neither name may have a wildcard. -/
def renameClause : Parse RenameClause := do
  let first ← fieldPattern
  let as ← eat (.keyword .as)
  let assign ← if as then pure false else eat .assign
  if !as && !assign then unexpected "AS or '='"
  else
    let second ← fieldPattern
    let (oldName, newName, form) :=
      if as then (first, second, RenameForm.as) else (second, first, RenameForm.assign)
    let refuse (name : FieldPattern) : Parse Unit :=
      if name.hasWildcard then report (.renameWildcard name.render) name.span else pure ()
    refuse oldName
    refuse newName
    return ⟨oldName, newName, form, oldName.span.merge newName.span⟩

/-- An option of `DISSECT`. The only one is the separator for appended fields, a string. -/
def dissectOption (sub : Nat → Parse Expr) : Parse DissectOption := do
  let name ← identifier "an option name"
  let _ ← expect .assign "'='"
  let value ← constant sub
  if !Text.sameWord name.name "append_separator" then
    report (.dissectOption name.name) name.span
  else if !value.isString then
    report (.dissectValue value.render) value.span
  return ⟨name, value, name.span.merge value.span⟩

/-- The options of `DISSECT`, if there are any. -/
def dissectOptions (sub : Nat → Parse Expr) : Parse (List DissectOption) := do
  let first ← peek
  if first = .identifier || first = .quotedIdentifier then separated .comma (dissectOption sub)
  else return []

/-- A setting of `ENRICH`, whose name and value must be known. -/
def setting : Parse Setting := do
  let opening ← advance
  let name ← expect .setting "a setting name"
  let _ ← expect .colon "':'"
  let value ← expect .setting "a setting value"
  let _ ← expect .closeBracket "']'"
  let span ← spanFrom opening.span
  if !Text.sameWord name.text "ccq.mode" then
    report (.unsupportedSetting name.text) name.span
  else if (EnrichMode.ofName? value.text).isNone then
    report (.settingValue value.text) value.span
  return ⟨name.text, value.text, span⟩

/-- The settings of `ENRICH` behind some others. No name may come twice. The first argument bounds
their number. -/
def settings : Nat → List Setting → Parse (List Setting)
  | 0, before => return before
  | fuel + 1, before => do
    if ← check .openBracket then
      let next ← setting
      if before.any fun s => Text.sameWord s.name next.name then
        report (.repeatedSetting next.name) next.span
      settings fuel (before ++ [next])
    else
      return before

/-- The mode that the qualifier of a policy names, an underscore in front of it. -/
def qualifiedMode? : List Char → Option EnrichMode
  | '_' :: name => EnrichMode.ofName? (String.ofList name)
  | _ => none

/-- A policy, whose qualifier must name a mode. -/
def policy : Parse Policy := do
  let token ← expect .policy "an enrich policy name"
  let cs := token.text.toList
  let qualifier := cs.takeWhile (· ≠ ':')
  if qualifier.length = cs.length then return ⟨none, token.text, token.span⟩
  else
    let mode := qualifiedMode? qualifier
    if mode.isNone then report (.policyMode (String.ofList qualifier)) token.span
    return ⟨mode, String.ofList (cs.drop (qualifier.length + 1)), token.span⟩

/-- A field that `ENRICH` adds. Neither of its names may have a wildcard. -/
def enrichField : Parse EnrichField := do
  let first ← fieldPattern
  let refuse (name : FieldPattern) : Parse Unit :=
    if name.hasWildcard then report (.enrichWildcard name.render) name.span else pure ()
  if ← eat .assign then
    let second ← fieldPattern
    refuse first
    refuse second
    return ⟨some first, second, first.span.merge second.span⟩
  else
    refuse first
    return ⟨none, first, first.span⟩

/-! ### Source commands -/

/-- `FROM index, ... [METADATA field, ...]` -/
def fromCommand : Parse Command := do
  let verb ← advance
  let sources ← indexPatterns
  let clause ← metadata
  return .«from» sources clause (← spanFrom verb.span)

/-- `ROW field = value, ...` -/
def rowCommand (sub : Nat → Parse Expr) : Parse Command := do
  let verb ← advance
  let fields ← assignments sub
  return .row fields (← spanFrom verb.span)

/-- `SHOW INFO` -/
def showCommand : Parse Command := do
  let verb ← advance
  let _ ← expect (.keyword .info) "INFO"
  return .showInfo (← spanFrom verb.span)

/-- `EXPLAIN [ command | ... ]` -/
def explainCommand (explained : Parse (List Command)) : Parse Command := do
  let verb ← advance
  let opening ← expect .openBracket "'['"
  let commands ← explained
  let s ← Parse.state
  if commands.isEmpty && s.prevEnd = opening.span.stop then
    record (← expected "a command")
  let _ ← expect .closeBracket "']'"
  let inner := (Command.spanOf? commands).getD (.point opening.span.stop)
  return .explain commands inner (← spanFrom verb.span)

/-- `METRICS index, ... [aggregation, ...] [BY grouping, ...]` -/
def metricsCommand (sub : Nat → Parse Expr) : Parse Command := do
  let verb ← advance
  let sources ← indexPatterns
  let (aggregations, groupings) ← statsParts sub
  return .metrics sources aggregations groupings (← spanFrom verb.span)

/-! ### Processing commands -/

/-- `EVAL field = value, ...` -/
def evalCommand (sub : Nat → Parse Expr) : Parse Command := do
  let verb ← advance
  let fields ← assignments sub
  return .eval fields (← spanFrom verb.span)

/-- `WHERE condition` -/
def whereCommand (sub : Nat → Parse Expr) : Parse Command := do
  let verb ← advance
  let condition ← sub 0
  return .«where» condition (← spanFrom verb.span)

/-- `STATS [aggregation, ...] [BY grouping, ...]`, one of the two at least. -/
def statsCommand (sub : Nat → Parse Expr) : Parse Command := do
  let verb ← advance
  let (aggregations, groupings) ← statsParts sub
  if aggregations.isEmpty && groupings.isEmpty then report .emptyStats verb.span
  return .stats aggregations groupings (← spanFrom verb.span)

/-- `INLINESTATS aggregation, ... [BY grouping, ...]` -/
def inlineStatsCommand (sub : Nat → Parse Expr) : Parse Command := do
  let verb ← advance
  let (aggregations, groupings) ← statsParts sub
  if aggregations.isEmpty then report .emptyInlineStats verb.span
  return .inlineStats aggregations groupings (← spanFrom verb.span)

/-- `SORT key, ...` -/
def sortCommand (sub : Nat → Parse Expr) : Parse Command := do
  let verb ← advance
  let keys ← separated .comma (sortKey sub)
  return .sort keys (← spanFrom verb.span)

/-- `LIMIT count` -/
def limitCommand : Parse Command := do
  let verb ← advance
  let token ← expect .integer "an integer"
  match integerValue token with
  | some count => return .limit count token.text (← spanFrom verb.span)
  | none => .stop (← located (.limitOutOfRange token.text) token.span)

/-- `KEEP pattern, ...` -/
def keepCommand : Parse Command := do
  let verb ← advance
  let fields ← fieldPatterns
  return .keep fields (← spanFrom verb.span)

/-- Refuses each bare `*` among the patterns of `DROP`. -/
def refuseStars : List FieldPattern → Parse Unit
  | [] => pure ()
  | field :: fields => do
    if field.isStar then report .dropAll field.span
    refuseStars fields

/-- `DROP pattern, ...` -/
def dropCommand : Parse Command := do
  let verb ← advance
  let fields ← fieldPatterns
  refuseStars fields
  return .drop fields (← spanFrom verb.span)

/-- `RENAME old AS new, new = old, ...` -/
def renameCommand : Parse Command := do
  let verb ← advance
  let clauses ← separated .comma renameClause
  return .rename clauses (← spanFrom verb.span)

/-- `DISSECT input pattern [append_separator = value]` -/
def dissectCommand (sub : Nat → Parse Expr) : Parse Command := do
  let verb ← advance
  let input ← primary sub
  let pattern ← stringLiteral "a dissect pattern"
  let options ← dissectOptions sub
  return .dissect input pattern options (← spanFrom verb.span)

/-- `GROK input pattern` -/
def grokCommand (sub : Nat → Parse Expr) : Parse Command := do
  let verb ← advance
  let input ← primary sub
  let pattern ← stringLiteral "a grok pattern"
  return .grok input pattern (← spanFrom verb.span)

/-- `ENRICH [name:value] policy [ON field] [WITH new = field, ...]` -/
def enrichCommand : Parse Command := do
  let verb ← advance
  let given ← settings (← remaining) []
  let name ← policy
  let on ← if ← eat (.keyword .on) then some <$> fieldPattern else pure none
  let fields ← if ← eat (.keyword .«with») then separated .comma enrichField else pure []
  return .enrich given name on fields (← spanFrom verb.span)

/-- `MV_EXPAND field` -/
def mvExpandCommand : Parse Command := do
  let verb ← advance
  let field ← fieldName
  return .mvExpand field (← spanFrom verb.span)

/-- `LOOKUP [JOIN] table ON field, ...`. The word `JOIN` is a table itself when none follows. -/
def lookupCommand : Parse Command := do
  let verb ← advance
  let first ← current
  let second ← peekSecond
  let join := first.kind = .source && Text.sameWord first.text "join" &&
    (second = .source || second = .quotedString)
  if join then
    let _ ← advance
  let table ← indexPattern
  let _ ← expect (.keyword .on) "ON"
  let matchFields ← fieldPatterns
  return .lookup table matchFields join (← spanFrom verb.span)

/-- `MATCH string` -/
def matchCommand : Parse Command := do
  let verb ← advance
  let query ← stringLiteral "a query string"
  return .«match» query (← spanFrom verb.span)

/-- The command ahead. -/
def command (sub : Nat → Parse Expr) (explained : Parse (List Command)) : Parse Command := do
  let token ← current
  match token.kind with
  | .command .«from» => fromCommand
  | .command .row => rowCommand sub
  | .command .«show» => showCommand
  | .command .explain => explainCommand explained
  | .command .metrics => metricsCommand sub
  | .command .eval => evalCommand sub
  | .command .«where» => whereCommand sub
  | .command .stats => statsCommand sub
  | .command .inlineStats => inlineStatsCommand sub
  | .command .sort => sortCommand sub
  | .command .limit => limitCommand
  | .command .keep => keepCommand
  | .command .drop => dropCommand
  | .command .rename => renameCommand
  | .command .dissect => dissectCommand sub
  | .command .grok => grokCommand sub
  | .command .enrich => enrichCommand
  | .command .mvExpand => mvExpandCommand
  | .command .lookup => lookupCommand
  | .command .«match» => matchCommand
  | .unknownCommand =>
    .stop (Cause.onToken (.unknownCommand token.text (Verb.ofWord? token.text).isSome) token)
  | _ => unexpected "a command"

end PipeQuery.Parser
