import PipeQuery.Proofs.Command.Report
import PipeQuery.Proofs.Unbounded

/-!
# `PipeQuery.Proofs.Located`: lines and columns of a text are those of its offsets

The lexer counts as it goes, the parser takes the places of tokens or counts anew. They agree on
what a line and a column are (`parse_located`): whatever has a place in the text, a token or a
diagnostic of either, has the line and the column of its start.

Over tokens at their places the parser begins in a state that is tracked (`tracked_initial`), so all
that the readers ensure holds of what it reads (`tracked_of_query`). In texts of fewer than 2 ^ 32
bytes that is the parse (`exists_tracked`). What is ensured of verbs and expressions apart from
their spans holds of every parse (`parse_allMeet`).
-/

set_option autoImplicit false

namespace PipeQuery

open PipeQuery.Parser

variable {text : String} {options : Options} {tokens : List Token} {diagnostics : List Diagnostic}
  {l' : Lexer}

/-! ### Tokens -/

/-- Every token of a run of the lexer is in the text, and at the line and column it says. -/
theorem Token.located_of_reads {preview : Bool}
    (h : (Lexer.ofText preview text).Reads tokens diagnostics l') :
    ∀ t ∈ tokens ++ [l'.endToken], t.Located text := by
  intro t ht
  -- Its start and its end are boundaries of the text because the tokens tile it.
  obtain ⟨hstart, hstop⟩ := (Token.tiles_of_reads h).boundaries t ht
  have hcut := (Token.cut_of_reads h).1
  have hforward : t.span.start ≤ t.span.stop := by
    rcases List.mem_append.mp ht with ht | ht
    · exact hcut.start_le_stop ht
    · obtain rfl := List.mem_singleton.mp ht
      exact Nat.le_add_right _ _
  exact ⟨⟨hforward, hstop.le_rawEndPos, hstart, hstop⟩,
    Lexer.isPlace_of_reads h rfl Text.Position.isBehind_start t ht⟩

/-- The diagnostics of the lexer have the places of error tokens. -/
theorem Lexer.located_of_reads {preview : Bool}
    (h : (Lexer.ofText preview text).Reads tokens diagnostics l') :
    ∀ d ∈ diagnostics, d.Located text := by
  intro d hd
  obtain ⟨t, ht, hreports⟩ := Diagnostic.exists_token (reports_of_reads h) hd
  have hlocated := Token.located_of_reads h t
    (List.mem_append_left _ (List.mem_of_mem_filter ht))
  exact ⟨hreports.span_eq ▸ hlocated.fits,
    by rw [hreports.span_eq, hreports.line_eq, hreports.col_eq]; exact hlocated.isPlace⟩

/-! ### The state at the start -/

/-- The lexemes of a text are known. -/
theorem Parser.known_of_reads {preview : Bool}
    (h : (Lexer.ofText preview text).Reads tokens diagnostics l') :
    ∀ l ∈ Lexeme.ofTokens false tokens, Known text preview l.token := by
  intro l hl
  refine ⟨Token.located_of_reads h _
    (List.mem_append_left _ (Lexeme.mem_ofTokens hl).1), fun verb hverb => ?_⟩
  -- A verb is spelled by a word that the lexer takes for one, which a preview is not by default.
  obtain ⟨w, w', hw⟩ := List.append_of_mem hl
  have hinside : [l] <:+: Lexeme.ofTokens false tokens :=
    ⟨w, w', by rw [hw, List.append_assoc]; rfl⟩
  obtain ⟨m, hlexed⟩ := (Token.lexed_of_reads h false).stretch hinside
  have hforms := (hlexed.head (by rw [hverb]; nofun)).1
  rw [hverb] at hforms
  exact hforms.of_verb.1

/-- So the parser starts with known tokens and with nothing recorded. -/
theorem Parser.tracked_initial {preview : Bool}
    (h : (Lexer.ofText preview text).Reads tokens diagnostics l') :
    Tracked text preview ((l'.lexing tokens diagnostics).context text)
      (.initial (Lexeme.ofTokens false tokens)) where
  source_eq := rfl
  endToken := ⟨Token.located_of_reads h _ (List.mem_append_right _ (List.mem_singleton_self _)),
    nofun⟩
  eof := rfl
  ahead := known_of_reads h
  prevEnd := String.Pos.Raw.isValid_zero
  found := nofun
  apart := nofun
  distinct := .nil

/-! ### Parses -/

/-- The readers of expressions return what fits, if `MATCH` is the only one for which more is
asked than what every expression meets. -/
theorem Parser.reading_expressionAt {preview : Bool} {V : Verb → Prop} {E : Expr → Prop}
    (hE : ∀ e : Expr, (e.isMatch = true → preview = true) → E e) (headroom : Nat) :
    Reading text preview V E (expressionAt headroom) where
  expr := expressionAt_ensures hE headroom
  primary := primary_ensures hE (expressionAt_ensures hE headroom)
  constant := constant_ensures hE (expressionAt_ensures hE headroom)
  string := stringLiteral_ensures hE

/-- The parser that reads a query from the tokens of a text at their places ends in a tracked state,
and all that the readers ensure is met in the query. -/
theorem tracked_of_query {V : Verb → Prop} {E : Expr → Prop} {q : Query} {s' : State}
    (hV : ∀ verb : Verb, (verb.isPreview = true → options.devFeatures = true) → V verb)
    (hread : ∀ n ≤ options.maxDepth,
      Reading text options.devFeatures V E (expressionAt n))
    (hreads : (Lexer.ofText options.devFeatures text).Reads tokens diagnostics l')
    (hquery : (l'.lexing tokens diagnostics).query text options.maxDepth = (.ok q, s')) :
    Tracked text options.devFeatures ((l'.lexing tokens diagnostics).context text) s' ∧
      q.node.AllMeet V E := by
  have hensures := query_ensures hV options.maxDepth (!diagnostics.isEmpty)
    (!l'.modes.unwind.above.isEmpty) hread (tracked_initial hreads)
  have hquery' : query options.maxDepth (!diagnostics.isEmpty) (!l'.modes.unwind.above.isEmpty)
      ((l'.lexing tokens diagnostics).context text) (.initial (Lexeme.ofTokens false tokens)) =
        (.ok q, s') := hquery
  rw [hquery'] at hensures
  obtain ⟨hmakes, htracked⟩ := hensures
  cases hmakes with
  | ok h => exact ⟨htracked, h⟩

/-- What a parse of a text of fewer than 2 ^ 32 bytes is made of: a reading of the text, and a run
of the parser that ends in a tracked state. -/
theorem exists_tracked (text : String) (options : Options) (hshort : text.utf8ByteSize < 2 ^ 32) :
    ∃ tokens diagnostics l' s',
      (Lexer.ofText options.devFeatures text).Reads tokens diagnostics l' ∧
      (parse text options).diagnostics = Diagnostic.sorted (diagnostics ++ s'.recorded.reverse) ∧
      (parse text options).tokens = tokens ++ [l'.endToken] ∧
      Tracked text options.devFeatures ((l'.lexing tokens diagnostics).context text) s' := by
  obtain ⟨tokens, diagnostics, l', q, s', hreads, hquery, hparse⟩ :=
    exists_reads_of_short text options hshort
  obtain ⟨htracked, -⟩ := tracked_of_query (V := fun _ => True) (E := fun _ => True)
    (fun _ _ => trivial) (fun n _ => reading_expressionAt (fun _ _ => trivial) n) hreads hquery
  exact ⟨tokens, diagnostics, l', s', hreads, by rw [hparse], by rw [hparse], htracked⟩

/-- What the readers ensure of verbs and of expressions, whatever their spans are, is met in the
query of every text, however long it is. -/
theorem parse_allMeet (text : String) (options : Options) {V : Verb → Prop} {E : Expr → Prop}
    (hE : ∀ e : Expr, E (e.mapSpans Span.plain) ↔ E e)
    (hV : ∀ verb : Verb, (verb.isPreview = true → options.devFeatures = true) → V verb)
    (hread : ∀ n ≤ options.maxDepth,
      Reading text options.devFeatures V E (expressionAt n)) :
    (parse text options).query.node.AllMeet V E :=
  forall_contains_of_places (Node.meets_mapSpans hE) fun hreads hquery =>
    (tracked_of_query hV hread hreads hquery).2

/-- Every diagnostic of a parse, whether the lexer found it or the parser, has its place. -/
theorem Diagnostic.located_of_mem (hshort : text.utf8ByteSize < 2 ^ 32) {d : Diagnostic}
    (hd : d ∈ (parse text options).diagnostics) : d.Located text := by
  obtain ⟨tokens, diagnostics, l', s', hreads, hdiagnostics, -, htracked⟩ :=
    exists_tracked text options hshort
  rw [hdiagnostics, Diagnostic.sorted, List.mem_mergeSort] at hd
  rcases List.mem_append.mp hd with hd | hd
  · exact Lexer.located_of_reads hreads d hd
  · exact (htracked.found d (List.mem_reverse.mp hd)).located

/-- Every token of a text of fewer than 2 ^ 32 bytes and every diagnostic of its parse, whoever
found it, is in the text and has the line and the column of its start. -/
theorem parse_located (text : String) (options : Options) (hshort : text.utf8ByteSize < 2 ^ 32) :
    (∀ t ∈ tokenize text options, t.Located text) ∧
      ∀ d ∈ (parse text options).diagnostics, d.Located text := by
  obtain ⟨tokens, diagnostics, l', hreads, hlex⟩ :=
    Lexer.exists_lex_eq options.devFeatures text
  refine ⟨?_, fun _ => Diagnostic.located_of_mem hshort⟩
  rw [tokenize, hlex, Lexer.truncated_lexing hreads hshort]
  exact Token.located_of_reads hreads

/-- A string that is never closed, on the second line. -/
theorem parse_located_secondLine :
    "ROW a =\n \"b".utf8ByteSize < 2 ^ 32 ∧
      ∃ d ∈ (parse "ROW a =\n \"b" .default).diagnostics, d.kind = .lexical ∧ d.line = 2 ∧
        d.Located "ROW a =\n \"b" := by
  have hlexical : (parse "ROW a =\n \"b" .default).diagnostics.any
      (fun d => d.kind = .lexical && d.line = 2) = true := by decide +kernel
  obtain ⟨d, hd, h⟩ := List.any_eq_true.mp hlexical
  simp only [Bool.and_eq_true, decide_eq_true_eq] at h
  exact ⟨by decide, d, hd, h.1, h.2, (parse_located _ _ (by decide)).2 d hd⟩

end PipeQuery
