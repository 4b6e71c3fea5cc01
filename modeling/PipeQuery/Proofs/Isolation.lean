import PipeQuery.Proofs.Command.Segmented
import PipeQuery.Proofs.Parse

/-!
# `PipeQuery.Proofs.Isolation`: errors are isolated between pipes

A stream of tokens without an `EXPLAIN`, however wrong, is read segment by segment: the commands are
those that the tokens between the pipes give alone, which is one command for each segment or none.
So other tokens in one segment leave the commands of all other segments as they are.

This is a matter of the parser alone. The tokens may be those of a text or any others, and neither
the place of the end nor what the lexer has to report makes a difference.
-/

set_option autoImplicit false

namespace PipeQuery

open PipeQuery.Parser

/-- The token parts two commands of a pipeline. -/
def Token.isSeparator (t : Token) : Bool :=
  !t.isHidden && t.kind = .pipe

/-- The parser looks at the token and takes it for the end of the text or for an `EXPLAIN`. -/
def Token.isEndOrExplain (t : Token) : Bool :=
  !t.isHidden && (t.kind = .eof || t.kind = .command .explain)

namespace Lexing

/-- The commands that are read from the tokens. -/
def commands (l : Lexing) (text : String) (maxDepth : Nat) : List Command :=
  ((l.query text maxDepth).1.toOption.getD (.ofCommands [])).commands

/-- The tokens between the pipes, in front of the first one and behind the last one. -/
def segments (l : Lexing) : List (List Token) :=
  l.tokens.splitOnP Token.isSeparator

/-- Other tokens with the same end. -/
def only (l : Lexing) (tokens : List Token) : Lexing :=
  { l with tokens := tokens }

end Lexing

/-- The commands of a parse are those of its tokens. -/
theorem parse_commands (text : String) (options : Options) :
    (parse text options).query.commands =
      (Lexer.lex options.devFeatures text).commands text options.maxDepth := rfl

/-- The token behind the last one ends the text. -/
theorem Lexer.kind_endToken (preview : Bool) (text : String) :
    (lex preview text).endToken.kind = .eof := by
  obtain ⟨tokens, diagnostics, l, -, h⟩ := exists_lex_eq preview text
  rw [h]
  rfl

variable {l l' l₁ l₂ : Lexing} {text text' text₁ text₂ : String} {maxDepth : Nat}
  {before after : List Token} {pipe : Token}

/-! ### Lexemes of a segment -/

/-- A pipe divides the lexemes, as it divides the tokens. -/
theorem Lexeme.ofTokens_append_pipe (hpipe : pipe.isSeparator) (spaced : Bool)
    (before after : List Token) :
    ∃ b, ofTokens spaced (before ++ pipe :: after) =
      ofTokens spaced before ++ ⟨pipe, b⟩ :: ofTokens false after :=
  ofTokens_append_cons spaced before
    (by simpa [Token.isSeparator] using (Bool.and_eq_true_iff.mp hpipe).1) after

/-- Between pipes, and without an end of the text or an `EXPLAIN`, the lexemes are a segment. -/
theorem isSegment_ofTokens {tokens : List Token} (hpipes : ∀ t ∈ tokens, ¬ t.isSeparator)
    (hkinds : ∀ t ∈ tokens, ¬ t.isEndOrExplain) :
    IsSegment (Lexeme.ofTokens false tokens) ∧
      ∀ l ∈ Lexeme.ofTokens false tokens, l.token.kind ≠ .command .explain := by
  have hlook : ∀ l ∈ Lexeme.ofTokens false tokens,
      l.token.kind ≠ .pipe ∧ l.token.kind ≠ .eof ∧ l.token.kind ≠ .command .explain := by
    intro l hl
    obtain ⟨hmem, hhidden⟩ := Lexeme.mem_ofTokens hl
    have hpipe := hpipes _ hmem
    have hkind := hkinds _ hmem
    simp only [Token.isSeparator, Token.isEndOrExplain, hhidden] at hpipe hkind
    simpa [not_or] using And.intro hpipe hkind
  exact ⟨fun l hl h => h.elim (hlook l hl).2.1 (hlook l hl).1, fun l hl => (hlook l hl).2.2⟩

/-! ### The commands of a stream -/

/-- The commands are those of the pipeline. -/
theorem Lexing.wholePipeline_commands (l : Lexing) (text : String) (maxDepth : Nat) :
    ∃ s, wholePipeline maxDepth (l.context text) (.initial l.lexemes) =
      (.ok (l.commands text maxDepth), s) := by
  obtain ⟨commands, s, h⟩ := total_wholePipeline maxDepth (l.context text) (.initial l.lexemes)
  obtain ⟨s', hquery, -⟩ :=
    query_of_wholePipeline h (!l.diagnostics.isEmpty) (!l.modes.above.isEmpty)
  refine ⟨s, ?_⟩
  rw [h, Lexing.commands, Lexing.query, hquery]
  rfl

/-- Nothing but the tokens tells what the commands are. -/
theorem Lexing.commands_congr (hend : l.endToken.kind = .eof) (hend' : l'.endToken.kind = .eof)
    (h : l.tokens = l'.tokens) : l.commands text maxDepth = l'.commands text' maxDepth := by
  obtain ⟨s, hpipeline⟩ := l.wholePipeline_commands text maxDepth
  obtain ⟨s', hpipeline'⟩ := l'.wholePipeline_commands text' maxDepth
  have hlexemes : l.lexemes = l'.lexemes := congrArg (Lexeme.ofTokens false) h
  obtain ⟨s₁, hagain⟩ := stages_again (c := l.context text) hend hend' (s := .initial l.lexemes)
    hlexemes (le_refl _) hpipeline'
  rw [wholePipeline, pipeline, bind_apply_of_ok remaining_apply] at hpipeline
  rw [← hlexemes] at hagain
  obtain ⟨heq, -⟩ := Prod.mk.inj (hpipeline.symm.trans hagain)
  exact Except.ok.inj heq

/-- Behind a segment and a pipe a stream goes on as at its start. -/
theorem Lexing.commands_append (hend : l.endToken.kind = .eof) (hend₁ : l₁.endToken.kind = .eof)
    (hend₂ : l₂.endToken.kind = .eof) (htokens : l.tokens = l₁.tokens ++ pipe :: l₂.tokens)
    (hpipe : pipe.isSeparator) (hpipes : ∀ t ∈ l₁.tokens, ¬ t.isSeparator)
    (hkinds : ∀ t ∈ l₁.tokens, ¬ t.isEndOrExplain) :
    l.commands text maxDepth = l₁.commands text₁ maxDepth ++ l₂.commands text₂ maxDepth := by
  obtain ⟨s, h⟩ := l.wholePipeline_commands text maxDepth
  obtain ⟨s₁, h₁⟩ := l₁.wholePipeline_commands text₁ maxDepth
  obtain ⟨s₂, h₂⟩ := l₂.wholePipeline_commands text₂ maxDepth
  obtain ⟨hsegment, hexplain⟩ := isSegment_ofTokens hpipes hkinds
  obtain ⟨b, hlexemes⟩ := Lexeme.ofTokens_append_pipe hpipe false l₁.tokens l₂.tokens
  rw [← htokens] at hlexemes
  have hkind : (⟨pipe, b⟩ : Lexeme).token.kind = .pipe :=
    of_decide_eq_true (Bool.and_eq_true_iff.mp hpipe).2
  obtain ⟨s', hboth⟩ := wholePipeline_segment (c := l.context text) hend hend₁ hend₂ hsegment
    hexplain hkind h₁ h₂
  rw [show l.lexemes = _ from hlexemes] at h
  obtain ⟨heq, -⟩ := Prod.mk.inj (h.symm.trans hboth)
  exact Except.ok.inj heq

/-- Without a separator there is one segment, so one command at most. -/
theorem Lexing.length_commands_le_one (hend : l.endToken.kind = .eof)
    (hpipes : ∀ t ∈ l.tokens, ¬ t.isSeparator) (hkinds : ∀ t ∈ l.tokens, ¬ t.isEndOrExplain) :
    (l.commands text maxDepth).length ≤ 1 := by
  obtain ⟨s, h⟩ := l.wholePipeline_commands text maxDepth
  obtain ⟨hsegment, hexplain⟩ := isSegment_ofTokens hpipes hkinds
  exact length_le_one_of_segment hend hsegment hexplain h

/-! ### Segment by segment -/

/-- The tokens of the segments are all tokens but the pipes. -/
theorem mem_segments {tokens : List Token} {t : Token} :
    (∃ segment ∈ tokens.splitOnP Token.isSeparator, t ∈ segment) ↔
      t ∈ tokens ∧ ¬ t.isSeparator := by
  induction tokens with
  | nil => simp
  | cons first tokens ih =>
      rw [List.splitOnP_cons_eq_if_modifyHead]
      by_cases hfirst : first.isSeparator
      · rw [if_pos hfirst, List.exists_mem_cons_iff, ih, List.mem_cons]
        constructor
        · rintro (h | ⟨h, hnot⟩)
          · cases h
          · exact ⟨.inr h, hnot⟩
        · rintro ⟨rfl | h, hnot⟩
          · exact absurd hfirst hnot
          · exact .inr ⟨h, hnot⟩
      · -- The first token is put in front of the first segment, which there always is.
        rw [if_neg hfirst]
        obtain ⟨head, others, h⟩ :=
          List.exists_cons_of_ne_nil (List.splitOnP_ne_nil Token.isSeparator tokens)
        rw [h, List.exists_mem_cons_iff] at ih
        rw [h, List.modifyHead_cons, List.exists_mem_cons_iff, List.mem_cons, List.mem_cons,
          or_assoc, ih]
        constructor
        · rintro (rfl | ⟨h, hnot⟩)
          · exact ⟨.inl rfl, hfirst⟩
          · exact ⟨.inr h, hnot⟩
        · rintro ⟨rfl | h, hnot⟩
          · exact .inl rfl
          · exact .inr ⟨h, hnot⟩

/-- What each segment gives alone. -/
def Lexing.yields (l : Lexing) (text : String) (maxDepth : Nat) : List (List Command) :=
  l.segments.map fun segment => (l.only segment).commands text maxDepth

/-- The commands are those of the segments, one behind the other. -/
theorem Lexing.commands_eq_flatten (hend : l.endToken.kind = .eof)
    (hkinds : ∀ t ∈ l.tokens, ¬ t.isEndOrExplain) :
    l.commands text maxDepth = (l.yields text maxDepth).flatten := by
  -- By the number of tokens: behind the first pipe there are fewer of them.
  induction hlength : l.tokens.length using Nat.strong_induction_on generalizing l with
  | _ n ih =>
      cases hfind : l.tokens.find? Token.isSeparator with
      | none =>
          have hsegments : l.segments = [l.tokens] :=
            List.splitOnP_eq_singleton fun t ht =>
              Bool.eq_false_iff.mpr (List.find?_eq_none.mp hfind t ht)
          rw [Lexing.yields, hsegments, List.map_singleton, List.flatten_singleton]
          rfl
      | some pipe =>
          obtain ⟨hpipe, before, after, htokens, hpipes⟩ := List.find?_eq_some_iff_append.mp hfind
          have hpipes : ∀ t ∈ before, t.isSeparator = false := by simpa using hpipes
          have hsegments : l.segments = before :: (l.only after).segments := by
            rw [Lexing.segments, htokens, List.splitOnP_append_cons _ _ hpipe,
              List.splitOnP_eq_singleton hpipes]
            rfl
          rw [htokens] at hkinds hlength
          have hboth : l.commands text maxDepth =
              (l.only before).commands text maxDepth ++ (l.only after).commands text maxDepth :=
            Lexing.commands_append hend hend hend htokens hpipe
              (fun t ht => Bool.eq_false_iff.mp (hpipes t ht))
              (fun t ht => hkinds t (List.mem_append_left _ ht))
          rw [Lexing.yields, hsegments, List.map_cons, List.flatten_cons, hboth,
            ih after.length (by rw [← hlength]; simp; omega) (l := l.only after) hend
              (fun t ht => hkinds t (List.mem_append_right _ (List.mem_cons_of_mem _ ht))) rfl]
          rfl

/-- The commands of a stream without an `EXPLAIN` are those that its segments give, one at most for
each segment. With other tokens in one segment they are the same but for what this segment gives. -/
theorem Lexing.commands_isolated (l : Lexing) (text : String) (maxDepth : Nat)
    (hend : l.endToken.kind = .eof) (hkinds : ∀ t ∈ l.tokens, ¬ t.isEndOrExplain) :
    l.commands text maxDepth = (l.yields text maxDepth).flatten ∧
      (∀ made ∈ l.yields text maxDepth, made.length ≤ 1) ∧
      ∀ (l' : Lexing) (text' : String) (i : Nat) (segment : List Token),
        l'.endToken.kind = .eof → (∀ t ∈ segment, ¬ t.isEndOrExplain) →
        l'.segments = l.segments.set i segment →
        l'.commands text' maxDepth =
          ((l.yields text maxDepth).set i ((l.only segment).commands text maxDepth)).flatten := by
  refine ⟨Lexing.commands_eq_flatten hend hkinds, ?_, ?_⟩
  · intro made hmade
    obtain ⟨segment, hsegment, rfl⟩ := List.mem_map.mp hmade
    have hmem : ∀ t ∈ segment, t ∈ l.tokens ∧ ¬ t.isSeparator :=
      fun t ht => mem_segments.mp ⟨segment, hsegment, ht⟩
    exact Lexing.length_commands_le_one hend (fun t ht => (hmem t ht).2)
      fun t ht => hkinds t (hmem t ht).1
  · intro l' text' i segment hend' hsegment hset
    have hkinds' : ∀ t ∈ l'.tokens, ¬ t.isEndOrExplain := by
      intro t ht
      by_cases hpipe : t.isSeparator
      · have hkind : t.kind = .pipe := of_decide_eq_true (Bool.and_eq_true_iff.mp hpipe).2
        simp [Token.isEndOrExplain, hkind]
      · obtain ⟨ts, hts, hmem⟩ := mem_segments.mpr ⟨ht, hpipe⟩
        rw [show l'.tokens.splitOnP _ = _ from hset] at hts
        -- A token of the new text is a pipe, or is in a segment: an old one or the new one.
        rcases List.mem_or_eq_of_mem_set hts with hts | rfl
        · exact hkinds t (mem_segments.mp ⟨ts, hts, hmem⟩).1
        · exact hsegment t hmem
    rw [Lexing.commands_eq_flatten hend' hkinds', Lexing.yields, hset, Lexing.yields,
      ← List.map_set]
    refine congrArg List.flatten (List.map_congr_left fun ts _ => ?_)
    exact Lexing.commands_congr hend' hend rfl

/-- A bracket that is left open in one command, and a number in its place. -/
theorem Lexing.commands_isolated_open_bracket :
    (Lexer.lex false "FROM a | LIMIT [ | KEEP b").endToken.kind = .eof ∧
      (∀ t ∈ (Lexer.lex false "FROM a | LIMIT [ | KEEP b").tokens, ¬ t.isEndOrExplain) ∧
      (Lexer.lex false "FROM a | LIMIT [ | KEEP b").commands "FROM a | LIMIT [ | KEEP b" 128 =
        ((Lexer.lex false "FROM a | LIMIT [ | KEEP b").yields "FROM a | LIMIT [ | KEEP b"
          128).flatten ∧
      (Lexer.lex false "FROM a | LIMIT 1 | KEEP b").commands "FROM a | LIMIT 1 | KEEP b" 128 =
        (((Lexer.lex false "FROM a | LIMIT [ | KEEP b").yields "FROM a | LIMIT [ | KEEP b" 128).set 1
          (((Lexer.lex false "FROM a | LIMIT [ | KEEP b").only
            ((Lexer.lex false "FROM a | LIMIT 1 | KEEP b").segments.getD 1 [])).commands
              "FROM a | LIMIT [ | KEEP b" 128)).flatten := by
  have hend := Lexer.kind_endToken false "FROM a | LIMIT [ | KEEP b"
  have hkinds : ∀ t ∈ (Lexer.lex false "FROM a | LIMIT [ | KEEP b").tokens, ¬ t.isEndOrExplain := by
    decide +kernel
  obtain ⟨hflatten, -, hset⟩ := Lexing.commands_isolated
    (Lexer.lex false "FROM a | LIMIT [ | KEEP b") "FROM a | LIMIT [ | KEEP b" 128 hend hkinds
  exact ⟨hend, hkinds, hflatten,
    hset _ _ 1 _ (Lexer.kind_endToken _ _) (by decide +kernel) (by decide +kernel)⟩

end PipeQuery
