import PipeQuery.Proofs.Command.Plain
import PipeQuery.Proofs.Parse
import PipeQuery.Proofs.Query.NodeSpans

/-!
# `PipeQuery.Proofs.Unbounded`: what a parse keeps in texts of any length

Behind byte 2 ^ 32 the spans of tokens are no places in the text, and what is proved of places fails
there. The kinds of the tokens and their texts are what they are in a text of any length. So the
parser reads from the tokens with spans of 32 bits what it would read from the tokens at their
places, but for the spans (`exists_query_of_parse`). What holds of the nodes of the latter query,
whatever their spans, holds of the nodes of every parse (`forall_contains_of_places`).
-/

set_option autoImplicit false

namespace PipeQuery

open PipeQuery.Parser

variable {text : String} {options : Options}

/-- The plain form of lexemes does not tell whether their spans are places in the text. -/
theorem Lexeme.plain_map_truncated (behindColon : Bool) (w : List Lexeme) :
    plain behindColon (w.map truncated) = plain behindColon w := by
  induction w generalizing behindColon with
  | nil => rfl
  | cons l w ih =>
      rw [List.map_cons, plain, plain, truncated_kind, ih]
      rfl

/-- The query of a parse is, but for the spans, what the parser reads from the tokens of the text at
their places. -/
theorem exists_query_of_parse (text : String) (options : Options) :
    ∃ tokens diagnostics l' q s',
      (Lexer.ofText options.devFeatures text).Reads tokens diagnostics l' ∧
      (l'.lexing tokens diagnostics).query text options.maxDepth = (.ok q, s') ∧
      q.mapSpans Span.plain = (parse text options).query.mapSpans Span.plain := by
  obtain ⟨tokens, diagnostics, l', q', s₁, hreads, hquery', hparse⟩ :=
    exists_reads_of_parse text options
  obtain ⟨q, s', hquery⟩ := (l'.lexing tokens diagnostics).exists_query text options.maxDepth
  refine ⟨tokens, diagnostics, l', q, s', hreads, hquery, ?_⟩
  rw [hparse]
  have hcontext : ((l'.lexing tokens diagnostics).context text).plain =
      ((l'.lexing tokens diagnostics).truncated.context text).plain := rfl
  have hplain : Lexeme.plain false (l'.lexing tokens diagnostics).lexemes =
      Lexeme.plain false (l'.lexing tokens diagnostics).truncated.lexemes := by
    rw [Lexing.truncated_lexemes, Lexeme.plain_map_truncated]
  exact query_mapSpans_plain_eq rfl rfl hcontext hplain hquery hquery'

/-- What holds of all nodes of a query that is read from the tokens of a text at their places,
whatever the spans of the nodes are, holds of all nodes of its parse. -/
theorem forall_contains_of_places {P : Node → Prop}
    (hP : ∀ node : Node, P (node.mapSpans Span.plain) ↔ P node)
    (h : ∀ {tokens diagnostics l' q s'},
      (Lexer.ofText options.devFeatures text).Reads tokens diagnostics l' →
      (l'.lexing tokens diagnostics).query text options.maxDepth = (.ok q, s') →
      ∀ node, q.node.Contains node → P node) :
    ∀ node, (parse text options).query.node.Contains node → P node := by
  obtain ⟨tokens, diagnostics, l', q, s', hreads, hquery, hmapped⟩ :=
    exists_query_of_parse text options
  have hnodes : q.node.mapSpans Span.plain = (parse text options).query.node.mapSpans Span.plain :=
    congrArg Query.node hmapped
  exact Node.forall_contains_of_mapSpans_eq hP hnodes (h hreads hquery)

end PipeQuery
