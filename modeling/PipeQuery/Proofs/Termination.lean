import PipeQuery.Proofs.Command.Limit
import PipeQuery.Proofs.Command.Loop
import PipeQuery.Proofs.Isolation

/-!
# `PipeQuery.Proofs.Termination`: every parse comes to its end

The readers of the parser are recursive in two ways. Its loops go from round to round, and
expressions and `EXPLAIN` descend one level of nesting. In the model both are bounded, by the
lexemes ahead and by the levels left. `Terminating` says that neither bound cuts anything off: the
parser is the recursion that the grammar calls for, each round of a loop takes a lexeme, and each
descent raises a counter that stays within the limit. `parse_terminates` adds that a query comes out
for every list of tokens, and that the parser is then at the token that ends the list and not past
it.
-/

set_option autoImplicit false

namespace PipeQuery

/-- The parser sees no token behind this one. -/
def Token.endsText (t : Token) : Bool :=
  !t.isHidden && t.kind = .eof

namespace Parser

variable {α : Type} {c : Context} {s s' : State}

/-- The lexemes of a token list in front of the token that ends it. -/
def lexemesBefore (tokens : List Token) : List Lexeme :=
  Lexeme.ofTokens false (tokens.takeWhile fun t => !t.endsText)

/-- The lexemes of a text are those in front of the token at its end. -/
theorem lexemesBefore_all (preview : Bool) (text : String) :
    lexemesBefore (Lexer.lex preview text).all = (Lexer.lex preview text).lexemes := by
  obtain ⟨tokens, diagnostics, l', hreads, hlex⟩ := Lexer.exists_lex_eq preview text
  have hkinds : ∀ t ∈ tokens.map Token.truncated, (!t.endsText) = true := fun t ht => by
    obtain ⟨s, hs, rfl⟩ := List.mem_map.mp ht
    simp [Token.endsText, Lexer.kind_ne_eof_of_reads hreads s hs]
  have hlast : [l'.endToken.truncated].takeWhile (fun t => !t.endsText) = [] := rfl
  rw [hlex]
  show Lexeme.ofTokens false
    (List.takeWhile _ (tokens.map Token.truncated ++ [l'.endToken.truncated])) = _
  rw [List.takeWhile_append_of_pos hkinds, hlast, List.append_nil]
  rfl

/-- The lists of the grammar: the token between two items, and what reads an item. -/
inductive IsList (sub : Nat → Parse Expr) : {α : Type} → Token.Kind → Parse α → Prop where
  | nameParts : IsList sub .dot namePart
  | patternParts : IsList sub .dot patternPart
  | fieldPatterns : IsList sub .comma fieldPattern
  | indexPatterns : IsList sub .comma indexPattern
  | metadata : IsList sub .comma source
  | expressions (power : Nat) : IsList sub .comma (sub power)
  | assignments : IsList sub .comma (assignment sub)
  | sortKeys : IsList sub .comma (sortKey sub)
  | renameClauses : IsList sub .comma renameClause
  | dissectOptions : IsList sub .comma (dissectOption sub)
  | enrichFields : IsList sub .comma enrichField

/-- No list is separated by the end of the text. -/
theorem IsList.separator_ne_eof {sub : Nat → Parse Expr} {separator : Token.Kind} {item : Parse α}
    (h : IsList sub separator item) : separator ≠ .eof := by
  cases h <;> decide

/-- The items of every list are read by steady steps. -/
theorem IsList.steady {sub : Nat → Parse Expr} (hsub : ∀ power, Steady (sub power))
    {separator : Token.Kind} {item : Parse α} (h : IsList sub separator item) : Steady item := by
  cases h with
  | nameParts => exact steady_of_level fun depth => (Lockstep.level depth).relates_namePart
  | patternParts => exact steady_of_level fun depth => (Lockstep.level depth).relates_patternPart
  | fieldPatterns => exact steady_of_level fun depth => (Lockstep.level depth).relates_fieldPattern
  | indexPatterns => exact steady_of_level fun depth => (Lockstep.level depth).relates_indexPattern
  | metadata => exact steady_of_level fun depth => (Lockstep.level depth).relates_source
  | expressions power => exact hsub power
  | assignments =>
      exact steady_of_level fun depth => Lockstep.relates_assignment (relatesAll_level hsub depth)
  | sortKeys =>
      exact steady_of_level fun depth => Lockstep.relates_sortKey (relatesAll_level hsub depth)
  | renameClauses => exact steady_of_level fun depth => (Lockstep.level depth).relates_renameClause
  | dissectOptions =>
      exact steady_of_level fun depth =>
        Lockstep.relates_dissectOption (relatesAll_level hsub depth)
  | enrichFields => exact steady_of_level fun depth => (Lockstep.level depth).relates_enrichField

/-- The parser with a limit of nesting is a recursion that comes to an end. -/
structure Terminating (limit : Nat) : Prop where
  /-- A text is a pipeline at level 0. -/
  text : ∀ {c s}, s.depth = 0 → wholePipeline limit c s = pipeline (commandIn limit) false c s
  /-- An expression is an operation over expressions, one level deeper and within the limit. -/
  expression : ∀ power,
    expressionIn limit power = nested limit (operation (expressionIn limit) power)
  /-- `EXPLAIN` holds a pipeline, one level deeper and within the limit. -/
  explained : explainedIn limit = nested limit (pipeline (commandIn limit) true)
  /-- A pipeline is a loop, in the text and between brackets. -/
  pipelines : ∀ inBrackets,
    pipeline (commandIn limit) inBrackets = pipelineBehind (commandIn limit) inBrackets [] ∧
      IsLoop (pipelineRound (commandIn limit) inBrackets)
        (pipelineBehind (commandIn limit) inBrackets)
  /-- To pass over the rest of a command is a loop. -/
  recovery : ∀ inBrackets,
    recover inBrackets = recoverBehind inBrackets 0 ∧
      IsLoop (recoverRound inBrackets) (recoverBehind inBrackets)
  /-- The operators behind an operand are a loop. -/
  operations : ∀ power,
    operation (expressionIn limit) power =
        (do operatorsBehind (expressionIn limit) power (← leading (expressionIn limit) power)) ∧
      IsLoop (operatorRound (expressionIn limit) power)
        (operatorsBehind (expressionIn limit) power)
  /-- The casts behind an operand are a loop. -/
  operands : primary (expressionIn limit) = (do castsBehind (← atom (expressionIn limit))) ∧
    IsLoop castRound castsBehind
  /-- The settings of `ENRICH` are a loop. -/
  settings : IsLoop settingRound settingsBehind
  /-- Every list is a loop. -/
  lists : ∀ {α : Type} {separator : Token.Kind} {item : Parse α},
    IsList (expressionIn limit) separator item →
      others separator item = itemsBehind separator item [] ∧
        IsLoop (itemRound separator item) (itemsBehind separator item)
  /-- No command goes back in the text or leaves the level at which it was entered. -/
  onward : Steady (commandIn limit)
  /-- At the end of the text nothing is taken. -/
  stays : ∀ {c s}, s.rest = [] → advance c s = (.ok c.endToken, s)

/-- All loops of the parser take a lexeme in each round, at every limit of nesting. -/
theorem terminating (limit : Nat) : Terminating limit where
  text hs := wholePipeline_apply_limit hs
  expression := expressionIn_eq limit
  explained := explainedIn_eq limit
  pipelines inBrackets := ⟨pipeline_eq _ _, isLoop_pipeline (steady_commandIn limit) inBrackets⟩
  recovery inBrackets := ⟨recover_eq inBrackets, isLoop_recover inBrackets⟩
  operations power := ⟨operation_eq _ power, isLoop_operators (steady_expressionIn limit) power⟩
  operands := ⟨primary_eq _, isLoop_casts⟩
  settings := isLoop_settings
  lists h := ⟨others_eq _ _,
    isLoop_items h.separator_ne_eof (h.steady (steady_expressionIn limit))⟩
  onward := steady_commandIn limit
  stays hrest := by rw [advance, hrest]

/-- In front of the token that ends a list no lexeme ends the text. -/
theorem kind_ne_eof_of_mem_lexemesBefore {tokens : List Token} {l : Lexeme}
    (h : l ∈ lexemesBefore tokens) : l.token.kind ≠ .eof := by
  have hends : l.token.endsText = false := by
    simpa using List.mem_takeWhile_imp ((Lexeme.mem_ofTokens h).1)
  rw [Token.endsText, (Lexeme.mem_ofTokens h).2] at hends
  simpa using hends

/-- What is recorded behind the pipeline of a text takes nothing. -/
theorem query_rest {maxDepth : Nat} {lexicalErrors openBracket : Bool} {q : Query}
    (hkinds : ∀ l ∈ s.rest, l.token.kind ≠ .eof)
    (h : query maxDepth lexicalErrors openBracket c s = (.ok q, s')) : s'.rest = [] := by
  obtain ⟨commands, s₁, hpipeline, h⟩ := bind_ok.mp h
  have hends := endsPipeline_of_pipeline
    (steady_command (steady_expressionAt maxDepth) (steady_explained maxDepth)) hpipeline
  have hsuffix := ((steady_wholePipeline maxDepth).onward hpipeline).rest
  have hrest := rest_eq_nil_of_endsPipeline (fun l hl => hkinds l (hsuffix.subset hl)) hends
  -- What is left may record something.
  have hempty : Steady (do
      let s ← Parse.state
      if commands.isEmpty && s.recorded.isEmpty && !lexicalErrors then
        let token ← current
        record (Diagnostic.Cause.emptyQuery.onToken token)
      return Query.ofCommands commands) :=
    Steady.bind (fun _ s => .refl s) fun _ => .ite
      ((steady_look _).bind fun _ => (steady_record _).bind fun _ => steady_pure _)
      (steady_pure _)
  have hbehind := Steady.onward (.ite
    ((steady_look _).bind fun _ => (steady_report _ _).bind fun _ => hempty) hempty) h
  exact List.suffix_nil.mp (hrest ▸ hbehind.rest)

end Parser

open PipeQuery.Parser

/-- The parser makes a query of every list of tokens that ends with the end of a text, whatever the
limit of nesting is, and takes all of its lexemes. -/
theorem parse_terminates (tokens : List Token) {last : Token} (hlast : tokens.getLast? = some last)
    (hends : last.endsText = true) (source : List Char) (errorStarts : List Nat) (limit : Nat)
    (lexicalErrors openBracket : Bool) :
    Terminating limit ∧ ∃ endToken q s', tokens.find? Token.endsText = some endToken ∧
      Parser.query limit lexicalErrors openBracket ⟨source, endToken, errorStarts⟩
        (.initial (lexemesBefore tokens)) = (.ok q, s') ∧ s'.rest = [] := by
  refine ⟨terminating limit, ?_⟩
  have hmem : last ∈ tokens := List.mem_of_getLast? hlast
  obtain ⟨endToken, hfind⟩ : ∃ endToken, tokens.find? Token.endsText = some endToken := by
    rw [← Option.isSome_iff_exists, List.find?_isSome]
    exact ⟨last, hmem, hends⟩
  obtain ⟨q, s', hquery⟩ := total_query limit lexicalErrors openBracket
    ⟨source, endToken, errorStarts⟩ (.initial (lexemesBefore tokens))
  exact ⟨endToken, q, s', hfind, hquery,
    query_rest (fun l hl => kind_ne_eof_of_mem_lexemesBefore hl) hquery⟩

/-- An `EXPLAIN` that is refused at its bracket, with a pipe behind it and no end. -/
theorem parse_terminates_explain :
    (Lexer.lex false "EXPLAIN [ |").all.getLast? =
        some (Lexer.lex false "EXPLAIN [ |").endToken ∧
      (Lexer.lex false "EXPLAIN [ |").endToken.endsText = true ∧
      Terminating 0 ∧ ∃ endToken q s',
        (Lexer.lex false "EXPLAIN [ |").all.find? Token.endsText = some endToken ∧
        Parser.query 0 false true ⟨"EXPLAIN [ |".toList, endToken, []⟩
          (.initial (lexemesBefore (Lexer.lex false "EXPLAIN [ |").all)) = (.ok q, s') ∧
        s'.rest = [] := by
  have hlast : (Lexer.lex false "EXPLAIN [ |").all.getLast? =
      some (Lexer.lex false "EXPLAIN [ |").endToken := by
    simp [Lexing.all]
  have hends : (Lexer.lex false "EXPLAIN [ |").endToken.endsText = true := by
    decide +kernel
  exact ⟨hlast, hends,
    parse_terminates _ hlast hends "EXPLAIN [ |".toList [] 0 false true⟩

end PipeQuery
