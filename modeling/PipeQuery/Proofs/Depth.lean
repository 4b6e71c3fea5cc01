import PipeQuery.Proofs.Command.Headroom
import PipeQuery.Proofs.Command.Limit
import PipeQuery.Proofs.Command.Loop
import PipeQuery.Proofs.Parse
import Mathlib.Order.UpperLower.Basic

/-!
# `PipeQuery.Proofs.Depth`: the limit of nesting and what is read within it

A limit either refuses a text or plays no part: where a text has no diagnostic, a higher limit gives
the same (`parse_of_le`). The counter behind it stays within the limit and is back at 0 behind every
command of a text, one that stops included (`parse_depth`).
-/

set_option autoImplicit false

namespace PipeQuery

open PipeQuery.Parser

/-- The options with another limit of nesting. -/
def Options.within (options : Options) (limit : Nat) : Options :=
  { options with maxDepth := limit }

variable {text : String} {options : Options}

/-- A text without a diagnostic is read the same with a higher limit. -/
theorem parse_of_le {limit limit' : Nat} (hle : limit ≤ limit')
    (h : (parse text (options.within limit)).diagnostics = []) :
    parse text (options.within limit') = parse text (options.within limit) := by
  obtain ⟨tokens, diagnostics, l', q, s', hreads, hquery, hparse⟩ :=
    exists_reads_of_parse text (options.within limit)
  rw [hparse] at h ⊢
  obtain ⟨hnone, hclean⟩ := diagnostics_eq_nil_iff.mp h
  obtain rfl := List.map_eq_nil_iff.mp hnone
  have hreads' : (Lexer.ofText (options.within limit').devFeatures text).Reads tokens [] l' :=
    hreads
  have hquery' : (l'.lexing tokens []).truncated.query text (options.within limit').maxDepth =
      (.ok q, s') :=
    query_of_le hle (Lexer.errorStarts_truncated_of_accepted hreads text) hquery hclean
  exact parse_eq_of_reads hreads' hquery'

namespace Parser

/-- The command ahead in a text, with a limit of nesting. -/
def topCommand (limit : Nat) : Parse Command :=
  command (expressionAt limit) (explained limit)

/-- A command at the top is read by a steady step. -/
theorem steady_topCommand (limit : Nat) : Steady (topCommand limit) :=
  steady_command (steady_expressionAt limit) (steady_explained limit)

/-- How the counter of nesting moves over a text. -/
structure KeepsDepth (limit : Nat) (c : Context) (lexemes : List Lexeme) : Prop where
  /-- An alarm that is sounded above the limit is never heard, whatever it does. -/
  bounded : ∀ alarm,
    watchedPipeline limit alarm limit c (.initial lexemes) =
      wholePipeline limit c (.initial lexemes)
  /-- The commands of the text are read in rounds. -/
  rounds : wholePipeline limit = pipelineBehind (topCommand limit) false [] ∧
    IsLoop (pipelineRound (topCommand limit) false) (pipelineBehind (topCommand limit) false)
  /-- Between the rounds the counter is at 0, and behind the command of each of them, whether that
  was read or stopped. -/
  restored : ∀ {before : List Command} {s : State},
    Reaches (pipelineRound (topCommand limit) false) c [] (.initial lexemes) before s →
      s.depth = 0 ∧ (topCommand limit c s).2.depth = 0

/-- The counter starts at zero, is back there behind every command and never above the limit. -/
theorem keepsDepth (limit : Nat) (c : Context) (lexemes : List Lexeme) :
    KeepsDepth limit c lexemes where
  bounded _ := watchedPipeline_apply rfl
  rounds := ⟨pipeline_eq _ _, isLoop_pipeline (steady_topCommand limit) false⟩
  restored {before s} h := by
    have hdepth : s.depth = 0 :=
      (h.onward (steady_pipelineRound (steady_topCommand limit) false)).depth
    exact ⟨hdepth, (steady_topCommand limit c s).depth.trans hdepth⟩

/-- A limit below what a text needs lets the alarm be heard. -/
example :
    (watchedPipeline 0 (report .emptyQuery (.point 0)) 1
      ((Lexer.lex false "ROW a = 1").context "ROW a = 1")
      (.initial (Lexer.lex false "ROW a = 1").lexemes)).2.recorded.length = 1 := by
  decide +kernel

end Parser

/-- The limits that accept a text are all those from one on, and with each of them the text is read
the same. With any limit the counter of nesting stays within it and is at 0 between commands. -/
theorem parse_depth (text : String) (options : Options) :
    (∀ {limit limit' : Nat}, limit ≤ limit' →
      (parse text (options.within limit)).diagnostics = [] →
        parse text (options.within limit') = parse text (options.within limit)) ∧
      IsUpperSet {limit | (parse text (options.within limit)).diagnostics = []} ∧
      (∃ parsed, ∀ limit, (parse text (options.within limit)).diagnostics = [] →
        parse text (options.within limit) = parsed) ∧
      ∀ limit, KeepsDepth limit ((Lexer.lex options.devFeatures text).context text)
        (Lexer.lex options.devFeatures text).lexemes := by
  refine ⟨fun hle h => parse_of_le hle h, fun limit limit' hle h => ?_, ?_,
    fun limit => keepsDepth limit _ _⟩
  · show (parse text (options.within limit')).diagnostics = []
    rw [parse_of_le hle h]
    exact h
  · by_cases hsome : ∃ limit, (parse text (options.within limit)).diagnostics = []
    · obtain ⟨limit, hlimit⟩ := hsome
      refine ⟨parse text (options.within limit), fun limit' hlimit' => ?_⟩
      rcases Nat.le_total limit limit' with hle | hle
      · exact parse_of_le hle hlimit
      · exact (parse_of_le hle hlimit').symm
    · exact ⟨parse text options, fun limit hlimit => absurd ⟨limit, hlimit⟩ hsome⟩

/-- Parentheses are one level and what they hold is another. -/
theorem parse_depth_parens :
    (parse "ROW a = (1)" (Options.default.within 1)).diagnostics ≠ [] ∧
      (parse "ROW a = (1)" (Options.default.within 2)).diagnostics = [] ∧
      parse "ROW a = (1)" (Options.default.within 128) =
        parse "ROW a = (1)" (Options.default.within 2) ∧
      KeepsDepth 1 ((Lexer.lex false "ROW a = (1)").context "ROW a = (1)")
        (Lexer.lex false "ROW a = (1)").lexemes := by
  have hrefused : (parse "ROW a = (1)" (Options.default.within 1)).diagnostics ≠ [] := by
    decide +kernel
  have haccepted : (parse "ROW a = (1)" (Options.default.within 2)).diagnostics = [] := by
    decide +kernel
  obtain ⟨hsame, -, -, hkeeps⟩ := parse_depth "ROW a = (1)" .default
  exact ⟨hrefused, haccepted, hsame (by decide) haccepted, hkeeps 1⟩

end PipeQuery
