import PipeQuery.Parser.Command

/-!
# `PipeQuery.Parser.Pipeline`: pipelines

A pipeline is read to its end whatever it holds. A command that stops leaves a diagnostic, and
reading goes on at the next pipe, where the lexer starts over as well.
-/

set_option autoImplicit false

namespace PipeQuery.Parser

/-- The result of a step that may stop, as a value. -/
def caught {α : Type} (p : Parse α) : Parse (Except Diagnostic α) :=
  fun c s =>
    match p c s with
    | (result, s') => (.ok result, s')

/-- The lexemes at which reading goes on, and the end of the last one passed over: the next pipe or,
in brackets, the `]` that closes them. `depth` brackets were opened on the way. -/
def resumption (inBrackets : Bool) : Nat → Nat → List Lexeme → List Lexeme × Nat
  | _, prevEnd, [] => ([], prevEnd)
  | depth, prevEnd, l :: rest =>
    match l.token.kind with
    | .pipe => (l :: rest, prevEnd)
    | .openBracket => resumption inBrackets (depth + 1) l.token.span.stop rest
    | .closeBracket =>
      if inBrackets && depth = 0 then (l :: rest, prevEnd)
      else resumption inBrackets (depth - 1) l.token.span.stop rest
    | _ => resumption inBrackets depth l.token.span.stop rest

/-- Passes over what is left of a command. -/
def recover (inBrackets : Bool) : Parse Unit :=
  fun _ s =>
    match resumption inBrackets 0 s.prevEnd s.rest with
    | (rest, prevEnd) => (.ok (), { s with rest := rest, prevEnd := prevEnd })

/-- The pipeline ends here: at the end of the text or, in brackets, at a `]`. -/
def atPipelineEnd (inBrackets : Bool) : Parse Bool := do
  let kind ← peek
  return kind = .eof || (inBrackets && kind = .closeBracket)

/-- The command ahead, if it can be read, up to the pipe behind it. -/
def stage (read : Parse Command) (inBrackets : Bool) : Parse (Option Command) := do
  let result ← caught read
  match result with
  | .ok _ => pure ()
  | .error d =>
    record d
    recover inBrackets
  if !(← atPipelineEnd inBrackets) && !(← check .pipe) then
    record (← expected "'|'")
    recover inBrackets
  if ← eat .pipe then
    if ← atPipelineEnd inBrackets then
      record (← expected "a command after '|'")
  return result.toOption

/-- The commands ahead, in at most so many rounds. Each round takes a lexeme at least, so the number
of those ahead is enough. -/
def stages (read : Parse Command) (inBrackets : Bool) : Nat → Parse (List Command)
  | 0 => return []
  | fuel + 1 => do
    if ← atPipelineEnd inBrackets then return []
    else if ← check .pipe then
      record (← expected "a command")
      let _ ← advance
      stages read inBrackets fuel
    else
      let first ← stage read inBrackets
      let rest ← stages read inBrackets fuel
      return first.toList ++ rest

/-- The commands up to the end of the pipeline. -/
def pipeline (read : Parse Command) (inBrackets : Bool) : Parse (List Command) := do
  stages read inBrackets (← remaining)

/-- The commands between the brackets of an `EXPLAIN`, with so many levels of nesting left. -/
def explained : Nat → Parse (List Command)
  | 0 => tooDeep
  | headroom + 1 =>
    deeper (pipeline (command (expressionAt headroom) (explained headroom)) true)

/-- The commands of a whole text. -/
def wholePipeline (maxDepth : Nat) : Parse (List Command) :=
  pipeline (command (expressionAt maxDepth) (explained maxDepth)) false

/-- A whole query. `lexicalErrors` says whether the lexer found any, `openBracket` whether it ended
with a bracket open. A query without commands is always wrong in some way. -/
def query (maxDepth : Nat) (lexicalErrors openBracket : Bool) : Parse Query := do
  let commands ← wholePipeline maxDepth
  if openBracket then
    let token ← current
    report .unclosedBracket token.span
  let s ← Parse.state
  if commands.isEmpty && s.recorded.isEmpty && !lexicalErrors then
    let token ← current
    record (Diagnostic.Cause.emptyQuery.onToken token)
  return .ofCommands commands

end PipeQuery.Parser
