import PipeQuery.Proofs.Located
import PipeQuery.Proofs.Token.Preview

/-!
# `PipeQuery.Proofs.Preview`: what previews change

With the preview verbs switched off no query has one of their commands, or the operator `MATCH`.
Switching them on changes the kinds of some tokens and leaves everything else about the tokens as it
was, the modes behind each of them included. This holds as long as no word of the text is a preview
verb that enters a mode of its own; `preview_relabels` has both.
-/

set_option autoImplicit false

namespace PipeQuery

open PipeQuery.Parser

/-- The previews are four verbs. -/
theorem Verb.isPreview_iff (verb : Verb) :
    verb.isPreview = true ↔ verb ∈ [.inlineStats, .lookup, .«match», .metrics] := by
  cases verb <;> decide

/-- A command that is a preview, or the operator that is one. -/
def Node.isPreview : Node → Bool
  | .command c => c.verb.isPreview
  | .expr e => e.isMatch
  | _ => false

/-- The tokens of a text, each with the modes in force behind it. -/
def traced (text : String) (options : Options) : List (Token × ModeStack) :=
  Lexer.calls (tokenize text options).length (.ofText options.devFeatures text)

/-- The tokens of the trace are those of the text. -/
theorem traced_tokens (text : String) (options : Options) :
    (traced text options).map Prod.fst = tokenize text options := by
  obtain ⟨tokens, diagnostics, l', hreads, hlex⟩ := Lexer.exists_lex_eq options.devFeatures text
  have htokens : tokenize text options = (tokens ++ [l'.endToken]).map Token.truncated := by
    rw [tokenize, hlex, List.map_append]
    rfl
  rw [traced, htokens, List.length_map, List.length_append, List.length_singleton]
  exact Lexer.calls_of_reads hreads

/-- With previews switched off, nothing in a query is one. -/
theorem parse_isPreview {text : String} {options : Options} (h : options.devFeatures = false)
    {node : Node} (hnode : (parse text options).query.node.Contains node) :
    node.isPreview = false := by
  have hoff : ∀ {b : Bool}, (b = true → options.devFeatures = true) → b = false := by
    intro b hb
    rw [h] at hb
    cases b with
    | false => rfl
    | true => cases hb rfl
  have hmatch : ∀ e : Expr, (e.mapSpans Span.plain).isMatch = false ↔ e.isMatch = false := by
    intro e
    cases e <;> rfl
  have hmeets := parse_allMeet text options (V := fun verb => verb.isPreview = false)
    (E := fun e => e.isMatch = false) hmatch (fun _ => hoff)
    (fun n _ => reading_expressionAt (fun _ => hoff) n) node hnode
  cases node with
  | command | expr => exact hmeets
  | _ => rfl

/-- Without previews a query has none. With them, if no unknown command is spelled like a verb that
enters a mode of its own, there are as many tokens, with the same texts, places, channels and modes
behind them, and their kinds differ only where a word has become `INLINESTATS` or `MATCH`. -/
theorem preview_relabels (text : String) {off on : Options} (hoff : off.devFeatures = false)
    (hon : on.devFeatures = true) :
    (∀ node, (parse text off).query.node.Contains node → node.isPreview = false) ∧
      ((∀ t ∈ tokenize text off, t.entersMode = false) →
        (traced text off).map Prod.fst = tokenize text off ∧
        (traced text on).map Prod.fst = tokenize text on ∧
        List.Forall₂ (fun a b => a.1.Relabelled b.1 ∧ b.2 = a.2)
          (traced text off) (traced text on)) := by
  refine ⟨fun _ hnode => parse_isPreview hoff hnode, fun hfree =>
    ⟨traced_tokens text off, traced_tokens text on, ?_⟩⟩
  obtain ⟨tokens, diagnostics, l', hreads, hlex⟩ := Lexer.exists_lex_eq false text
  have htokens : tokenize text off = (tokens ++ [l'.endToken]).map Token.truncated := by
    rw [tokenize, hoff, hlex, List.map_append]
    rfl
  rw [htokens] at hfree
  have hfree' : ∀ t ∈ tokens, t.entersMode = false := fun t ht =>
    hfree t.truncated (List.mem_map_of_mem (List.mem_append_left _ ht))
  obtain ⟨tokens', diagnostics', m', hreads', hall, -⟩ :=
    Lexer.relabelled_of_reads hreads (Lexer.matches_ofText text) hfree'
  have htokens' : tokenize text on = (tokens' ++ [m'.endToken]).map Token.truncated := by
    rw [tokenize, hon, Lexer.lex_eq_of_reads hreads', List.map_append]
    rfl
  -- The calls with the gate on are as many as the tokens, and these are as many as without it.
  have hlength : (tokenize text on).length = (tokenize text off).length := by
    simp [htokens, htokens', hall.length_eq]
  rw [traced, traced, hlength, hoff, hon]
  exact Lexer.calls_relabelled hreads (Lexer.matches_ofText text) hfree' _

/-- `INLINESTATS` and `MATCH` become verbs, in any case of their letters. -/
theorem preview_relabels_inlineStats :
    (∀ t ∈ tokenize "ROW a | inlinestats b MATCH" .default, t.entersMode = false) ∧
      List.Forall₂ (fun a b => a.1.Relabelled b.1 ∧ b.2 = a.2)
        (traced "ROW a | inlinestats b MATCH" .default)
        (traced "ROW a | inlinestats b MATCH" { Options.default with devFeatures := true }) := by
  have hfree : ∀ t ∈ tokenize "ROW a | inlinestats b MATCH" .default, t.entersMode = false := by
    decide +kernel
  exact ⟨hfree, ((preview_relabels _ rfl rfl).2 hfree).2.2⟩

end PipeQuery
