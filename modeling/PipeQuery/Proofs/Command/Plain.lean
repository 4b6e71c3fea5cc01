import PipeQuery.Proofs.Command.Lockstep
import PipeQuery.Proofs.Parser.Plain

/-!
# `PipeQuery.Proofs.Command.Plain`: pipelines without places

A text and its plain form are read in lockstep, with any number of levels left. The check for empty
brackets is the one step that asks for a place and has another answer over the plain form, where
brackets with commands that all stopped look empty. But if so, a diagnostic was recorded already.
-/

set_option autoImplicit false

namespace PipeQuery.Parser

variable {c : Context} {s s' : State}

/-- Between brackets nothing is passed over without a diagnostic. -/
theorem prevEnd_eq_of_explained (hend : c.endToken.kind = .eof) (herr : c.errorStarts = [])
    {headroom : Nat} (h : explained headroom c s = (.ok [], s')) (hclean : s'.IsClean) :
    s'.prevEnd = s.prevEnd := by
  obtain ⟨w, hmoves, hall⟩ := explained_ok hend herr headroom h hclean
  have hw : w = [] := hall.elim (fun hnil => hnil.1) fun hall => absurd rfl hall.ne_nil
  rw [hmoves.prevEnd_eq, hw, lastStop_nil]

/-- Without commands between the brackets one is asked for, if nothing was taken there. -/
theorem reportHollow_nil (opening : Token) (c : Context) (s : State) :
    reportHollow opening [] c s =
      if s.prevEnd = opening.span.stop then (do record (← expected "a command")) c s
      else (.ok (), s) := by
  have hstate : Parse.state c s = (.ok s, s) := rfl
  rw [reportHollow, bind_apply_of_ok hstate]
  by_cases h : s.prevEnd = opening.span.stop <;> simp [h]

/-- The plain form of brackets that seem empty is reported, and so are the brackets if they are. -/
theorem reportHollow_plain {opening : Token} {commands : List Command} (h : IsPlain c s s')
    (hhollow : c.errorStarts = [] → s.IsClean → commands = [] → s.prevEnd = opening.span.stop) :
    OutcomePlain c id (reportHollow opening commands c s)
      (reportHollow opening.plain (commands.map (Command.mapSpans Span.plain)) c.plain s') := by
  have hreport := Lockstep.plain.relates_recordExpected "a command" h
  cases commands with
  | cons command commands => exact ⟨rfl, h⟩
  | nil =>
      have hplain : reportHollow opening.plain [] c.plain s' =
          (do record (← expected "a command")) c.plain s' := by
        have hprevEnd : s'.prevEnd = opening.plain.span.stop := h.prevEnd
        rw [reportHollow_nil, if_pos hprevEnd]
      rw [List.map_nil, hplain, reportHollow_nil]
      split
      · exact hreport
      · next hpast =>
          -- The brackets only look empty, so what they hold was reported.
          obtain ⟨d, _, hexpected⟩ := total_expected "a command" c.plain s'
          rw [expected_ok hexpected] at hexpected
          obtain ⟨_, s₁', hrecord⟩ := total_record d c.plain s'
          obtain ⟨hmoves, hdirty⟩ := record_ok rfl hrecord
          rw [bind_apply_of_ok hexpected, hrecord]
          refine ⟨rfl, h.stays (.refl s) hmoves fun herr => iff_of_false hdirty fun hclean => ?_⟩
          exact hpast (hhollow herr hclean rfl)

/-- What is between the brackets of an `EXPLAIN` has a plain form. -/
theorem enclosed_plain {headroom : Nat}
    (hexplained : ReadsPlain (List.map (Command.mapSpans Span.plain)) (explained headroom)
      (explained headroom)) :
    Lockstep.plain.RelatesEnclosed (explained headroom) (explained headroom) := by
  intro c s s' h
  refine (Lockstep.plain.relates_expect _ _ h).bind fun opening s₁ s₁' hopening h₁ =>
    (hexplained h₁).bind fun commands s₂ s₂' hcommands h₂ => ?_
  refine (reportHollow_plain h₂ fun herr hclean hnil => ?_).bind fun _ _ _ _ h₃ => ⟨rfl, h₃⟩
  obtain ⟨l, -, rfl, hmoves⟩ := expect_ok (by decide) hopening
  rw [prevEnd_eq_of_explained h.eof herr (hnil ▸ hcommands) hclean, hmoves.prevEnd_eq]
  rfl

/-- An expression is read from plain lexemes as from others, but for its spans. -/
theorem expressionAt_plain (headroom : Nat) :
    Lockstep.plain.RelatesAll (expressionAt headroom) (expressionAt headroom) := by
  induction headroom with
  | zero => exact fun _ => ReadsPlain.tooDeep
  | succ headroom ih =>
      exact fun minPower => ReadsPlain.deeper (Lockstep.relates_operation ih minPower)

/-- Pipelines are in lockstep if the commands between the brackets of an `EXPLAIN` are. -/
theorem pipeline_plain {headroom : Nat}
    (hexplained : ReadsPlain (List.map (Command.mapSpans Span.plain)) (explained headroom)
      (explained headroom)) (inBrackets : Bool) :
    ReadsPlain (List.map (Command.mapSpans Span.plain))
      (pipeline (command (expressionAt headroom) (explained headroom)) inBrackets)
      (pipeline (command (expressionAt headroom) (explained headroom)) inBrackets) :=
  have hcommand :=
    Lockstep.relates_command (expressionAt_plain headroom) (enclosed_plain hexplained)
  Lockstep.relates_pipeline hcommand inBrackets

/-- The pipeline of an `EXPLAIN` is read from plain lexemes as from others, but for its spans. -/
theorem explained_plain (headroom : Nat) :
    ReadsPlain (List.map (Command.mapSpans Span.plain)) (explained headroom)
      (explained headroom) := by
  induction headroom with
  | zero => exact ReadsPlain.tooDeep
  | succ headroom ih => exact ReadsPlain.deeper (pipeline_plain ih true)

/-- A text and its plain form have the same commands but for the spans. Without lexical errors one
is read in a clean way if the other is. -/
theorem wholePipeline_plain (maxDepth : Nat) :
    ReadsPlain (List.map (Command.mapSpans Span.plain)) (wholePipeline maxDepth)
      (wholePipeline maxDepth) :=
  pipeline_plain (explained_plain maxDepth) false

/-- A query is read as the pipeline of its plain form is. Without lexical errors it is read in a
clean way just if that pipeline is, no bracket is open behind it and there is a command. -/
theorem exists_plain_of_query (hend : c.endToken.kind = .eof) {maxDepth : Nat}
    {lexicalErrors openBracket : Bool} {w : List Lexeme} {q : Query}
    (h : query maxDepth lexicalErrors openBracket c (.initial w) = (.ok q, s)) :
    ∃ s', wholePipeline maxDepth c.plain (.initial (Lexeme.plain false w)) =
        (.ok (q.mapSpans Span.plain).commands, s') ∧
      (c.errorStarts = [] → lexicalErrors = false →
        (s.IsClean ↔ s'.IsClean ∧ openBracket = false ∧ q.commands ≠ [])) := by
  obtain ⟨commands, s₂, hcommands⟩ := total_wholePipeline maxDepth c (.initial w)
  -- Behind the pipeline only an open bracket or a text without commands is still reported.
  obtain ⟨s₃, hsame, hclean⟩ := query_of_wholePipeline hcommands lexicalErrors openBracket
  obtain ⟨hq, rfl⟩ := Prod.mk.inj (hsame.symm.trans h)
  obtain rfl : Query.ofCommands commands = q := Except.ok.inj hq
  have hinitial : IsPlain c (.initial w) (.initial (Lexeme.plain false w)) :=
    ⟨hend, ⟨false, rfl⟩, rfl, rfl, fun _ => .rfl⟩
  obtain ⟨hresult, hstate⟩ := wholePipeline_plain maxDepth hinitial
  rw [hcommands] at hresult hstate
  generalize hrun : wholePipeline maxDepth c.plain _ = outcome at hresult hstate
  obtain ⟨result, s'⟩ := outcome
  refine ⟨s', congrArg (·, s') hresult, fun herr hlexical => ?_⟩
  rw [(hclean herr hlexical).1, hstate.recorded herr]
  rfl

/-- The query is a matter of the plain form but for the spans. -/
theorem query_mapSpans_plain_eq {c' : Context} {maxDepth : Nat}
    {lexicalErrors openBracket lexicalErrors' openBracket' : Bool}
    {w w' : List Lexeme} {q q' : Query} (hend : c.endToken.kind = .eof)
    (hend' : c'.endToken.kind = .eof) (hc : c.plain = c'.plain)
    (hw : Lexeme.plain false w = Lexeme.plain false w')
    (h : query maxDepth lexicalErrors openBracket c (.initial w) = (.ok q, s))
    (h' : query maxDepth lexicalErrors' openBracket' c' (.initial w') = (.ok q', s')) :
    q.mapSpans Span.plain = q'.mapSpans Span.plain := by
  obtain ⟨s₁, hrun, -⟩ := exists_plain_of_query hend h
  obtain ⟨s₁', hrun', -⟩ := exists_plain_of_query hend' h'
  rw [hc, hw, hrun'] at hrun
  obtain ⟨hcommands, -⟩ := Prod.mk.inj hrun
  rw [Query.mapSpans, Query.mapSpans, Query.mk.injEq]
  exact ⟨(Except.ok.inj hcommands).symm, rfl⟩

end PipeQuery.Parser
