import PipeQuery.Proofs.Command.Pipeline
import PipeQuery.Proofs.Token.Blanks
import PipeQuery.Proofs.Token.Tiling
import PipeQuery.Parse

/-!
# `PipeQuery.Proofs.Parse`: what a parse is made of

`parse` is a reading of the text and a run of the parser over its lexemes. `parse_eq_of_reads` puts
the two together and `exists_reads_of_parse` takes every parse apart. Without a diagnostic both are
clean, and then the lexemes are those of the commands with pipes between them (`parse_clean`).

The parser runs over tokens with spans of 32 bits. In a text of fewer than 2 ^ 32 bytes these are
the places in the text (`exists_reads_of_short`).
-/

set_option autoImplicit false

namespace PipeQuery

open PipeQuery.Parser

variable {text : String} {options : Options}

/-- The parser makes a query of whatever the lexer found. -/
theorem Lexing.exists_query (l : Lexing) (text : String) (maxDepth : Nat) :
    ∃ q s', l.query text maxDepth = (.ok q, s') :=
  total_query _ _ _ _ _

/-- A parse is put together from what the lexer found and from the query that the parser makes of
that. -/
theorem parse_eq_of_lex {lexing : Lexing} (hlex : Lexer.lex options.devFeatures text = lexing)
    {q : Query} {s' : State} (hquery : lexing.query text options.maxDepth = (.ok q, s')) :
    parse text options = ⟨q, Diagnostic.sorted (lexing.diagnostics ++ s'.recorded.reverse),
      lexing.all, lexing.modes.modes⟩ := by
  simp only [parse, hlex, hquery]
  rfl

/-- A parse comes from a chain of steps of the lexer and the query that the parser makes of its
tokens with spans of 32 bits. -/
theorem parse_eq_of_reads {tokens : List Token} {diagnostics : List Diagnostic} {l' : Lexer}
    (hreads : (Lexer.ofText options.devFeatures text).Reads tokens diagnostics l')
    {q : Query} {s' : State}
    (hquery : (l'.lexing tokens diagnostics).truncated.query text options.maxDepth = (.ok q, s')) :
    parse text options =
      ⟨q, Diagnostic.sorted (diagnostics.map Diagnostic.truncated ++ s'.recorded.reverse),
        (tokens ++ [l'.endToken]).map Token.truncated, l'.modes.unwind.modes⟩ := by
  rw [parse_eq_of_lex (Lexer.lex_eq_of_reads hreads) hquery, List.map_append]
  rfl

/-- Every parse comes from a chain of steps of the lexer and a query that the parser makes. -/
theorem exists_reads_of_parse (text : String) (options : Options) :
    ∃ tokens diagnostics l' q s',
      (Lexer.ofText options.devFeatures text).Reads tokens diagnostics l' ∧
      (l'.lexing tokens diagnostics).truncated.query text options.maxDepth = (.ok q, s') ∧
      parse text options =
        ⟨q, Diagnostic.sorted (diagnostics.map Diagnostic.truncated ++ s'.recorded.reverse),
          (tokens ++ [l'.endToken]).map Token.truncated, l'.modes.unwind.modes⟩ := by
  obtain ⟨tokens, diagnostics, l', hreads, -⟩ := Lexer.exists_lex_eq options.devFeatures text
  obtain ⟨q, s', hquery⟩ := (l'.lexing tokens diagnostics).truncated.exists_query text
    options.maxDepth
  exact ⟨tokens, diagnostics, l', q, s', hreads, hquery, parse_eq_of_reads hreads hquery⟩

/-- In a text of fewer than 2 ^ 32 bytes the tokens with spans of 32 bits are those at their
places. -/
theorem parse_eq_of_short {tokens : List Token} {diagnostics : List Diagnostic} {l' : Lexer}
    (hshort : text.utf8ByteSize < 2 ^ 32)
    (hreads : (Lexer.ofText options.devFeatures text).Reads tokens diagnostics l')
    {q : Query} {s' : State}
    (hquery : (l'.lexing tokens diagnostics).query text options.maxDepth = (.ok q, s')) :
    parse text options = ⟨q, Diagnostic.sorted (diagnostics ++ s'.recorded.reverse),
      tokens ++ [l'.endToken], l'.modes.unwind.modes⟩ :=
  parse_eq_of_lex
    ((Lexer.lex_eq_of_reads hreads).trans (Lexer.truncated_lexing hreads hshort)) hquery

/-- In a text of fewer than 2 ^ 32 bytes the parser runs over tokens at their places. -/
theorem exists_reads_of_short (text : String) (options : Options)
    (hshort : text.utf8ByteSize < 2 ^ 32) :
    ∃ tokens diagnostics l' q s',
      (Lexer.ofText options.devFeatures text).Reads tokens diagnostics l' ∧
      (l'.lexing tokens diagnostics).query text options.maxDepth = (.ok q, s') ∧
      parse text options = ⟨q, Diagnostic.sorted (diagnostics ++ s'.recorded.reverse),
        tokens ++ [l'.endToken], l'.modes.unwind.modes⟩ := by
  obtain ⟨tokens, diagnostics, l', hreads, -⟩ := Lexer.exists_lex_eq options.devFeatures text
  obtain ⟨q, s', hquery⟩ := (l'.lexing tokens diagnostics).exists_query text options.maxDepth
  exact ⟨tokens, diagnostics, l', q, s', hreads, hquery, parse_eq_of_short hshort hreads hquery⟩

/-- No token that the lexer reads is the one that ends a text. -/
theorem Lexer.kind_ne_eof_of_reads {l l' : Lexer} {tokens : List Token}
    {diagnostics : List Diagnostic} (h : Reads l tokens diagnostics l') :
    ∀ t ∈ tokens, t.kind ≠ .eof := by
  induction h with
  | done => simp
  | step hne rest ih => exact List.forall_mem_cons.mpr ⟨step_kind_ne_eof _, ih⟩

/-- The parser knows of no lexical error if no token is one. -/
theorem Lexing.errorStarts_eq_nil {lexing : Lexing} (h : ∀ t ∈ lexing.tokens, t.kind ≠ .error)
    (text : String) : (lexing.context text).errorStarts = [] := by
  have hnone : lexing.tokens.filter (fun t => t.kind = .error) = [] :=
    List.filter_eq_nil_iff.mpr fun t ht herror => h t ht (of_decide_eq_true herror)
  simp [Lexing.context, hnone]

/-- Over tokens at their places the parser knows of no lexical error if the lexer made none. -/
theorem Lexer.errorStarts_of_accepted {l l' : Lexer} {tokens : List Token}
    (h : Reads l tokens [] l') (text : String) :
    ((l'.lexing tokens []).context text).errorStarts = [] :=
  Lexing.errorStarts_eq_nil (kind_ne_error_of_reads h) text

/-- Over tokens with spans of 32 bits it knows of none either. -/
theorem Lexer.errorStarts_truncated_of_accepted {l l' : Lexer} {tokens : List Token}
    (h : Reads l tokens [] l') (text : String) :
    ((l'.lexing tokens []).truncated.context text).errorStarts = [] := by
  refine Lexing.errorStarts_eq_nil (fun t ht => ?_) text
  obtain ⟨t', ht', rfl⟩ := List.mem_map.mp ht
  exact kind_ne_error_of_reads h t' ht'

/-- There is no diagnostic just if neither the lexer nor the parser made one. -/
theorem diagnostics_eq_nil_iff {diagnostics : List Diagnostic} {s' : State} :
    Diagnostic.sorted (diagnostics ++ s'.recorded.reverse) = [] ↔
      diagnostics = [] ∧ s'.IsClean := by
  rw [← List.length_eq_zero_iff, Diagnostic.sorted, List.length_mergeSort, List.length_eq_zero_iff,
    List.append_eq_nil_iff, List.reverse_eq_nil_iff]
  rfl

/-- What a parse without a diagnostic is made of. -/
theorem parse_clean (h : (parse text options).diagnostics = []) :
    ∃ tokens l' s', (Lexer.ofText options.devFeatures text).Reads tokens [] l' ∧
      l'.modes.unwind.above = [] ∧
      (l'.lexing tokens []).truncated.query text options.maxDepth =
        (.ok (parse text options).query, s') ∧ s'.recorded = [] ∧
      SepBy .pipe IsCommand (Lexeme.ofTokens false (tokens.map Token.truncated))
        (parse text options).query.commands := by
  obtain ⟨tokens, diagnostics, l', q, s', hreads, hquery, hparse⟩ :=
    exists_reads_of_parse text options
  rw [hparse] at h ⊢
  -- Neither the lexer nor the parser has reported anything.
  obtain ⟨hnone, hclean⟩ := diagnostics_eq_nil_iff.mp h
  rw [List.map_eq_nil_iff] at hnone
  obtain rfl := hnone
  have hkinds : ∀ l ∈ Lexeme.ofTokens false (tokens.map Token.truncated), l.token.kind ≠ .eof := by
    intro l hl
    obtain ⟨t, ht, heq⟩ := List.mem_map.mp (Lexeme.mem_ofTokens hl).1
    rw [← heq]
    exact Lexer.kind_ne_eof_of_reads hreads t ht
  obtain ⟨hmodes, hall⟩ := query_clean rfl (Lexer.errorStarts_truncated_of_accepted hreads text)
    hkinds hquery hclean
  have hclosed : l'.modes.unwind.above = [] := by
    simpa [Lexing.truncated, Lexer.lexing] using hmodes
  exact ⟨tokens, l', s', hreads, hclosed, hquery, hclean, hall⟩

/-- What a parse without a diagnostic is made of in a text of fewer than 2 ^ 32 bytes, where the
tokens are at their places. -/
theorem parse_clean_of_short (hshort : text.utf8ByteSize < 2 ^ 32)
    (h : (parse text options).diagnostics = []) :
    ∃ tokens l' s', (Lexer.ofText options.devFeatures text).Reads tokens [] l' ∧
      l'.modes.unwind.above = [] ∧
      (l'.lexing tokens []).query text options.maxDepth =
        (.ok (parse text options).query, s') ∧ s'.recorded = [] ∧
      SepBy .pipe IsCommand (Lexeme.ofTokens false tokens)
        (parse text options).query.commands := by
  obtain ⟨tokens, l', s', hreads, hclosed, hquery, hclean, hall⟩ := parse_clean h
  have hlexing := Lexer.truncated_lexing hreads hshort
  have htokens : tokens.map Token.truncated = tokens := congrArg Lexing.tokens hlexing
  rw [hlexing] at hquery
  rw [htokens] at hall
  exact ⟨tokens, l', s', hreads, hclosed, hquery, hclean, hall⟩

/-! ### Blanks in front -/

/-- A text in which nothing is wrong behind the blanks at its start is read from the lexemes there,
at the places that the blanks lead to. -/
theorem parse_blanks (options : Options) (q : Query) (s' : State) {blanks rest : List Char}
    (hne : blanks ≠ [])
    (hblank : ∀ c ∈ blanks, Text.isBlank c = true)
    (hrest : Token.Shape.startsWith Text.isBlank rest = false) {tokens : List Token} {last : Token}
    (hrun : Lexer.run ⟨options.devFeatures, ⟨rest, Text.Position.start.after blanks⟩, .bottom⟩
      [] [] = ⟨tokens, last, [], .bottom⟩)
    (hclean : s'.IsClean)
    (hquery : ∀ source, Parser.query options.maxDepth false false
      ⟨source, last, (tokens.filter fun t => t.kind = .error).map fun t => t.span.start⟩
      (.initial (Lexeme.ofTokens true tokens)) = (.ok q, s')) :
    parse (String.ofList (blanks ++ rest)) options =
      ⟨q, [], (Token.spanning .whitespace .start blanks).truncated :: (tokens ++ [last]),
        [.default]⟩ := by
  have hparse := parse_eq_of_lex (Lexer.lex_blanks options.devFeatures hne hblank hrest hrun)
    (hquery (String.ofList (blanks ++ rest)).toList)
  rw [hparse, hclean]
  simp [Diagnostic.sorted, Lexing.all, ModeStack.modes, ModeStack.bottom]

/-! ### Commands of a parse -/

/-- The command is one of these, or an `EXPLAIN` among them holds it. -/
inductive Command.Occurs (command : Command) : List Command → Prop where
  | here {commands : List Command} (h : command ∈ commands) : Occurs command commands
  | inside {held commands : List Command} {inner span : Span}
    (h : Command.explain held inner span ∈ commands) (hheld : Occurs command held) :
    Occurs command commands

end PipeQuery
