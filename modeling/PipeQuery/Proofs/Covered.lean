import PipeQuery.Proofs.Command.Run
import PipeQuery.Proofs.Parse

/-!
# `PipeQuery.Proofs.Covered`: nothing in a text is passed over without a diagnostic

The tokens of a text that is parsed without a diagnostic are runs of its commands, with pipes
between them and nothing else, up to the token that ends the text. This is `parse_clean_covers`, for
texts of fewer than 2 ^ 32 bytes.

From there on the end of a command may be lost. It is the greater one of the end of the last token
and the end of the verb, and where byte 2 ^ 32 lies between them it is the end of the verb that is
the greater one in 32 bits.
-/

set_option autoImplicit false

namespace PipeQuery

open PipeQuery.Parser

/-- The tokens of a text are those of its commands, with pipes between them and nothing else. -/
structure Covers (p : Parsed) : Prop where
  /-- The lexer accepted the whole text. -/
  accepted : ∀ t ∈ p.tokens, t.kind ≠ .error
  /-- Only the bottom mode is left at the end. -/
  modes : p.modes = [.default]
  /-- There is a command. -/
  commands : p.query.commands ≠ []
  /-- The tokens that are not hidden are runs of the commands, up to the end of the text. -/
  runs : ∃ run last, (p.tokens.filter fun t => !t.isHidden) = run ++ [last] ∧ last.kind = .eof ∧
    IsRuns run p.query.commands

/-- Runs are those of one command at least. -/
theorem IsRuns.ne_nil {tokens : List Token} {commands : List Command}
    (h : IsRuns tokens commands) : commands ≠ [] := by
  cases h <;> simp

/-- The run of a single command is all there is. -/
theorem IsRuns.isRun {tokens : List Token} {command : Command} (h : IsRuns tokens [command]) :
    IsRun tokens command := by
  cases h with
  | one h => exact h
  | more _ _ rest => exact absurd rfl rest.ne_nil

/-- A command that holds no other ones ends with the last token of its run. -/
theorem IsRun.stop_eq {tokens : List Token} {last : Token} {command : Command}
    (h : IsRun tokens command) (hplain : command.verb ≠ .explain)
    (hlast : tokens.getLast? = some last) : command.span.stop = last.span.stop := by
  cases h with
  | plain _ _ hlast' hspan _ =>
      obtain rfl := Option.some.inj (hlast'.symm.trans hlast)
      rw [hspan]
  | explain => exact absurd rfl hplain

/-- The lexemes of a text end one behind the other. -/
theorem Token.Cut.ordered {offset : Nat} {cs : List Char} {tokens : List Token}
    (h : Cut offset cs tokens) (spaced : Bool) : Ordered (Lexeme.ofTokens spaced tokens) := by
  have hpairwise := h.pairwise_stop.filter fun t => !t.isHidden
  rw [← Lexeme.map_token_ofTokens spaced, List.pairwise_map] at hpairwise
  exact hpairwise

/-- Nothing in a text of fewer than 2 ^ 32 bytes is passed over without a diagnostic. -/
theorem parse_clean_covers (text : String) (options : Options)
    (hshort : text.utf8ByteSize < 2 ^ 32) (h : (parse text options).diagnostics = []) :
    Covers (parse text options) := by
  obtain ⟨tokens, l', s', hreads, hclosed, hquery, -, hall⟩ := parse_clean_of_short hshort h
  have hparse := parse_eq_of_short hshort hreads hquery
  have haccepted := Lexer.kind_ne_error_of_reads hreads
  have hruns : IsRuns (tokens.filter fun t => !t.isHidden) (parse text options).query.commands :=
    Lexeme.map_token_ofTokens false tokens ▸
      hall.isRuns (fun _ _ h => h.isRun) ((Token.cut_of_reads hreads).1.ordered false)
  have htokens : (parse text options).tokens = tokens ++ [l'.endToken] := by rw [hparse]
  refine ⟨fun t ht => ?_, ?_, hruns.ne_nil, ⟨_, l'.endToken, ?_, rfl, hruns⟩⟩
  · rw [htokens] at ht
    rcases List.mem_append.mp ht with ht | ht
    · exact haccepted t ht
    · obtain rfl := List.mem_singleton.mp ht
      exact Token.Kind.noConfusion
  · rw [hparse]
    show ModeStack.modes l'.modes.unwind = _
    rw [ModeStack.modes, hclosed]
    rfl
  · rw [htokens, List.filter_append]
    rfl

/-- A pipeline with another one between the brackets of its first command. -/
theorem parse_clean_covers_explain :
    "EXPLAIN [ ROW a = 1 | LIMIT 2 ] | LIMIT 1".utf8ByteSize < 2 ^ 32 ∧
      (parse "EXPLAIN [ ROW a = 1 | LIMIT 2 ] | LIMIT 1" .default).diagnostics = [] ∧
      Covers (parse "EXPLAIN [ ROW a = 1 | LIMIT 2 ] | LIMIT 1" .default) :=
  ⟨by decide, by decide +kernel, parse_clean_covers _ _ (by decide) (by decide +kernel)⟩

/-- Byte 2 ^ 32 of a text may lie between a verb and the last token of its command. Then the command
ends with its verb, and its tokens are no run of it. Blanks bring `LIMIT 1` there. -/
theorem not_covers_across :
    (parse (String.ofList (Text.blankLine 4294967289 ++ "LIMIT 1".toList)) .default).diagnostics =
        [] ∧
      ¬ Covers (parse (String.ofList (Text.blankLine 4294967289 ++ "LIMIT 1".toList))
        .default) := by
  -- So many blanks are never to be counted one by one.
  obtain ⟨n, hn⟩ : ∃ n, n = 4294967289 := ⟨_, rfl⟩
  rw [← hn]
  have hrun : Lexer.run ⟨false, ⟨"LIMIT 1".toList,
      Text.Position.start.after (Text.blankLine n)⟩, .bottom⟩ [] [] =
        ⟨[⟨.command .limit, "LIMIT", ⟨4294967290, 4294967295⟩, 2, 1, .default⟩,
          ⟨.whitespace, " ", ⟨4294967295, 0⟩, 2, 6, .hidden⟩,
          ⟨.integer, "1", ⟨0, 1⟩, 2, 7, .default⟩],
          ⟨.eof, "", ⟨1, 1⟩, 2, 8, .default⟩, [], .bottom⟩ := by
    rw [Text.Position.after_blankLine, hn]
    decide +kernel
  have hparse := parse_blanks .default
    ⟨[.limit 1 "1" ⟨4294967290, 4294967295⟩], ⟨4294967290, 4294967295⟩⟩ ⟨[], 1, 0, []⟩
    (by simp [Text.blankLine]) (fun _ => Text.isBlank_of_mem_blankLine) rfl hrun rfl
    fun _ => by rfl
  rw [hparse]
  refine ⟨rfl, fun hcovers => ?_⟩
  obtain ⟨run, last, htokens, hlast, hruns⟩ := hcovers.runs
  obtain ⟨rfl, -⟩ := List.append_inj' (show [_, _] ++ [_] = run ++ [last] from htokens) rfl
  have hstop := hruns.isRun.stop_eq (by decide) rfl
  exact absurd hstop (by decide)

end PipeQuery
