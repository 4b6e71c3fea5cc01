import PipeQuery.Proofs.Command.Spread
import PipeQuery.Proofs.Parse

/-!
# `PipeQuery.Proofs.Contained`: the nodes of a query are made of lexemes of the text

The lexemes of a text stand in their places (`Lexeme.placed_ofTokens`), and what is hidden in front
of one of them is told by its flag (`Lexeme.exists_of_cons`). A query of lexemes at their places is
made of some of them in a row, and so is every node that it contains (`exists_made_of_contains`). A
query without commands is the exception: it stands at the start of the text.
-/

set_option autoImplicit false

namespace PipeQuery

open PipeQuery.Parser

/-! ### The lexemes of a text -/

namespace Lexeme

variable {tokens : List Token} {spaced : Bool} {l : Lexeme} {v w : List Lexeme}

/-- Tokens that were cut from a text, one behind the other, make lexemes in order. -/
theorem placed_ofTokens {offset : Nat} {cs : List Char} (h : Token.Cut offset cs tokens)
    (spaced : Bool) : Placed (ofTokens spaced tokens) where
  apart := by
    have hapart := h.pairwise_apart.filter fun t => !t.isHidden
    rw [← map_token_ofTokens spaced, List.pairwise_map] at hapart
    exact hapart
  forward _ hl := h.start_le_stop (mem_ofTokens hl).1

/-- In front of a lexeme there are hidden tokens, and none if it is not spaced. -/
theorem exists_of_cons (h : ofTokens spaced tokens = l :: v) :
    ∃ hidden rest, tokens = hidden ++ l.token :: rest ∧ ofTokens false rest = v ∧
      (l.spaced = false → spaced = false ∧ hidden = []) := by
  induction tokens generalizing spaced with
  | nil => cases h
  | cons t tokens ih =>
      rw [ofTokens] at h
      split at h
      · obtain ⟨hidden, rest, rfl, hrest, hspaced⟩ := ih h
        exact ⟨t :: hidden, rest, rfl, hrest, fun hl => absurd (hspaced hl).1 (by decide)⟩
      · obtain ⟨rfl, rfl⟩ := List.cons.inj h
        exact ⟨[], tokens, rfl, rfl, fun hl => ⟨hl, rfl⟩⟩

/-- The token of a lexeme is one of the text, and the parser looks at it. -/
theorem mem_ofTokens_token (hl : l ∈ ofTokens spaced tokens) :
    l.token ∈ tokens ∧ l.token.channel = .default := by
  obtain ⟨hmem, hshown⟩ := mem_ofTokens hl
  refine ⟨hmem, ?_⟩
  cases hchannel : l.token.channel with
  | default => rfl
  | hidden => simp [Token.isHidden, hchannel] at hshown

/-- A lexeme among others is a token among others. -/
theorem exists_of_among (h : l :: w <:+: ofTokens spaced tokens) :
    ∃ before rest v, tokens = before ++ l.token :: rest ∧ ofTokens false rest = w ++ v := by
  obtain ⟨u, v, h⟩ := h
  rw [List.append_assoc] at h
  induction u generalizing spaced tokens with
  | nil =>
      obtain ⟨hidden, rest, htokens, hrest, -⟩ := exists_of_cons h.symm
      exact ⟨hidden, rest, v, htokens, hrest⟩
  | cons l' u ih =>
      obtain ⟨hidden, tokens, rfl, htokens, -⟩ := exists_of_cons h.symm
      obtain ⟨before, rest, v, rfl, hrest⟩ := ih htokens.symm
      exact ⟨hidden ++ l'.token :: before, rest, v, by simp, hrest⟩

end Lexeme

/-! ### The nodes of a query -/

/-- A query that was read is made of lexemes of the text, unless it has no commands. -/
theorem Parser.made_of_query {c : Context} {s' : State} (hend : c.endToken.kind = .eof)
    {maxDepth : Nat} {lexicalErrors openBracket : Bool} {lexemes : List Lexeme}
    (hlexemes : Placed lexemes) {q : Query}
    (h : query maxDepth lexicalErrors openBracket c (.initial lexemes) = (.ok q, s')) :
    q.node = .query [] (.point 0) ∨ ∃ w, w <:+: lexemes ∧ Made w q.node := by
  obtain ⟨commands, s₁, hcommands⟩ := total_wholePipeline maxDepth c (.initial lexemes)
  obtain ⟨s₂, hquery, -⟩ := query_of_wholePipeline hcommands lexicalErrors openBracket
  rw [hquery] at h
  obtain ⟨⟩ := h
  obtain ⟨w, hrest, hscattered⟩ := wholePipeline_spreads hend hcommands
  have hbegins : w <:+: lexemes := ⟨[], s₁.rest, hrest.symm⟩
  have hw := hlexemes.stretch hbegins
  cases hspan : Command.spanOf? commands with
  | none =>
      cases commands with
      | nil => exact .inl rfl
      | cons => cases hspan
  -- The query stretches from its first command to its last.
  | some span =>
      have hstretch := stretch_query (hscattered hw) hw hspan
      obtain ⟨w', hwithin, h⟩ := hstretch.scattered.exists_of_mem (List.mem_singleton_self _)
      refine .inr ⟨w', hwithin.trans hbegins, ?_⟩
      rw [Query.node, Query.ofCommands, hspan]
      exact h.made

/-- Every node of a query that is read from the tokens of a text at their places is made of lexemes
among them, or it is the query and has no commands. -/
theorem exists_made_of_contains {text : String} {preview : Bool} {tokens : List Token}
    {diagnostics : List Diagnostic} {l' : Lexer} {q : Query} {s' : State} {maxDepth : Nat}
    (hreads : (Lexer.ofText preview text).Reads tokens diagnostics l')
    (hquery : (l'.lexing tokens diagnostics).query text maxDepth = (.ok q, s')) {node : Node}
    (hnode : q.node.Contains node) :
    node = .query [] (.point 0) ∨ ∃ w, w <:+: Lexeme.ofTokens false tokens ∧ Made w node := by
  have hplaced := Lexeme.placed_ofTokens (Token.cut_of_reads hreads).1 false
  induction hnode with
  | root => exact made_of_query rfl hplaced hquery
  | child _ hchild ih =>
      rcases ih with rfl | ⟨w, hwithin, hmade⟩
      · cases hchild
      · obtain ⟨w', hwithin', h⟩ := hmade.scattered.exists_of_mem hchild
        exact .inr ⟨w', hwithin'.trans hwithin, h⟩

end PipeQuery
