import PipeQuery.Proofs.Text.Place
import PipeQuery.Proofs.Token.Lexed

/-!
# `PipeQuery.Proofs.Token.Report`: what the lexer tells

Every token of a text has the line and the column of its start (`isPlace_of_reads`), and the lexer
tells of an error where it makes an error token and nowhere else (`reports_of_reads`). An error is
always a lexical one; each mode has its own way to make errors, and `step_isLexical` goes through
them.
-/

set_option autoImplicit false

namespace PipeQuery

namespace Token

namespace Step

variable {preview : Bool} {modes : ModeStack} {mode : Mode} {cs : List Char}

/-- If something is wrong with the token, it is an error token, and the error is a lexical one. -/
def IsLexical (s : Step) : Prop :=
  ∀ cause, s.cause = some cause → s.kind = .error ∧ cause.kind = .lexical

/-- A step that makes a token reports nothing. -/
@[simp]
theorem token_isLexical (kind : Kind) (length : Nat) : (token modes kind length).IsLexical :=
  fun _ h => by cases h

/-- A token of one character reports nothing. -/
@[simp]
theorem single_isLexical (kind : Kind) : (single modes kind).IsLexical :=
  token_isLexical kind 1

/-- A bracket that is opened reports nothing. -/
@[simp]
theorem opening_isLexical : (opening modes mode).IsLexical :=
  single_isLexical .openBracket

/-- A bracket that is closed reports nothing. -/
@[simp]
theorem closing_isLexical : (closing modes).IsLexical :=
  single_isLexical .closeBracket

/-- A character that begins nothing is a lexical error. -/
@[simp]
theorem unrecognized_isLexical : (unrecognized modes cs).IsLexical := by
  rintro _ ⟨⟩
  exact ⟨rfl, rfl⟩

/-- A construct that is open is a lexical error. -/
@[simp]
theorem unterminated_isLexical (construct : Diagnostic.Enclosed) (length : Nat) :
    (unterminated modes construct length).IsLexical := by
  rintro _ ⟨⟩
  exact ⟨rfl, rfl⟩

/-- A word reports nothing, and the lack of one is a lexical error. -/
@[simp]
theorem word_isLexical (length : Nat) (decide : String → Kind × ModeStack) :
    (word modes cs length decide).IsLexical := by
  unfold word
  split
  · exact unrecognized_isLexical
  · exact token_isLexical _ _

/-- A parameter reports nothing. -/
@[simp]
theorem parameter_isLexical : (parameter modes cs).IsLexical :=
  token_isLexical _ _

/-- A string reports an escape it does not know, or that it is open, as lexical errors. -/
@[simp]
theorem quotedString_isLexical : (quotedString modes cs).IsLexical := by
  unfold quotedString
  dsimp only
  split
  · exact token_isLexical _ _
  · rintro _ ⟨⟩
    exact ⟨rfl, rfl⟩
  · exact unterminated_isLexical _ _

/-- A quoted name reports that it is open as a lexical error. -/
@[simp]
theorem quotedIdentifier_isLexical : (quotedIdentifier modes cs).IsLexical := by
  unfold quotedIdentifier
  split
  · exact token_isLexical _ _
  · exact unterminated_isLexical _ _

/-- A pattern reports that it is open as a lexical error. -/
@[simp]
theorem pattern_isLexical (decide : String → Kind) : (pattern modes cs decide).IsLexical := by
  unfold pattern
  split
  · exact unterminated_isLexical _ _
  · exact word_isLexical _ _

/-- Where a mode goes on in other modes behind a token, an error stays as it was. -/
theorem IsLexical.onward {s : Step} (h : s.IsLexical) (modes : ModeStack) :
    (if s.kind = .error then s else { s with modes := modes }).IsLexical := by
  split
  · exact h
  · exact fun cause hcause => absurd (h cause hcause).1 ‹_›

/-- In an expression all that is reported is lexical. -/
theorem inExpression_isLexical : (inExpression preview modes cs).IsLexical := by
  unfold inExpression
  split
  case h_6 =>
    split
    · exact token_isLexical _ _
    · split
      · exact word_isLexical _ _
      · split <;> simp
  all_goals simp

/-- In `METRICS` it is. -/
theorem inMetrics_isLexical : (inMetrics modes cs).IsLexical := by
  unfold inMetrics
  dsimp only
  split
  · exact quotedString_isLexical.onward _
  · exact word_isLexical _ _

/-- Behind the sources of `METRICS` it is. -/
theorem inClosingMetrics_isLexical : (inClosingMetrics modes cs).IsLexical := by
  unfold inClosingMetrics
  dsimp only
  split
  case h_3 => exact quotedIdentifier_isLexical.onward _
  all_goals simp

/-- In every mode all that is reported is lexical. -/
theorem inMode_isLexical : (inMode preview modes cs).IsLexical := by
  unfold inMode
  split
  · unfold inDefault; split <;> simp
  · exact inExpression_isLexical
  · unfold inExplain; split <;> simp
  · unfold inSources; split <;> simp
  · unfold inProject; split <;> simp
  · unfold inRename; split <;> simp
  · unfold inEnrich; split <;> simp
  · unfold inEnrichField; split <;> simp
  · unfold inMvExpand; split <;> simp
  · unfold inInfo; split <;> simp
  · unfold inSetting; split <;> simp
  · unfold inLookup; split <;> simp
  · unfold inLookupField; split <;> simp
  · exact inMetrics_isLexical
  · exact inClosingMetrics_isLexical

end Step

/-- Whatever the mode, an error is a lexical one. -/
theorem step_isLexical (preview : Bool) (modes : ModeStack) (cs : List Char) :
    (step preview modes cs).IsLexical := by
  unfold step
  split
  · simp
  · unfold Step.blockComment
    split <;> simp
  · simp
  · split
    · simp
    · exact Step.inMode_isLexical

end Token

/-- The diagnostic tells of the token: it is a lexical error of the same place. -/
structure Diagnostic.Reports (d : Diagnostic) (t : Token) : Prop where
  kind_eq : d.kind = .lexical
  span_eq : d.span = t.span
  line_eq : d.line = t.line
  col_eq : d.col = t.col

/-- Each of the diagnostics tells of one of the tokens. -/
theorem Diagnostic.exists_token {ds : List Diagnostic} {ts : List Token}
    (h : List.Forall₂ Reports ds ts) {d : Diagnostic} (hd : d ∈ ds) : ∃ t ∈ ts, d.Reports t := by
  induction h with
  | nil => cases hd
  | @cons d' t ds ts hreports _ ih =>
      rcases List.mem_cons.mp hd with rfl | hd
      · exact ⟨t, List.mem_cons_self, hreports⟩
      · obtain ⟨t', ht', h⟩ := ih hd
        exact ⟨t', List.mem_cons_of_mem t ht', h⟩

namespace Lexer

variable {l l' : Lexer} {tokens : List Token} {diagnostics : List Diagnostic}

/-- A step makes an error token and tells of it, or it does neither. -/
theorem step_reports (l : Lexer) :
    l.stepToken.kind ≠ .error ∧ l.stepDiagnostic? = none ∨
      l.stepToken.kind = .error ∧ ∃ d, l.stepDiagnostic? = some d ∧ d.Reports l.stepToken := by
  have hlexical := Token.step_isLexical l.preview l.modes l.cursor.rest
  cases hcause : l.step.cause with
  | none =>
      have hnone : l.stepDiagnostic? = none := by rw [stepDiagnostic?, hcause, Option.map_none]
      exact .inl ⟨l.step_kind_ne_error hnone, hnone⟩
  | some cause =>
      obtain ⟨hkind, hcauseKind⟩ := hlexical cause hcause
      refine .inr ⟨hkind, _, by rw [stepDiagnostic?, hcause, Option.map_some], ?_⟩
      exact ⟨hcauseKind, rfl, rfl, rfl⟩

/-- The diagnostics of the lexer tell of its error tokens, each of one, in their order. -/
theorem reports_of_reads (h : l.Reads tokens diagnostics l') :
    List.Forall₂ Diagnostic.Reports diagnostics (tokens.filter fun t => t.kind = .error) := by
  induction h with
  | done => exact .nil
  | @step l l' tokens diagnostics hne rest ih =>
      rcases l.step_reports with ⟨hkind, hnone⟩ | ⟨hkind, d, hsome, hreports⟩
      · rw [hnone, Option.toList_none, List.nil_append,
          List.filter_cons_of_neg (by simpa using hkind)]
        exact ih
      · rw [hsome, Option.toList_some, List.filter_cons_of_pos (by simpa using hkind)]
        exact .cons hreports ih

/-- The tokens of a text have the lines and the columns of their starts, the one at its end too. -/
theorem isPlace_of_reads {text : String} (h : l.Reads tokens diagnostics l') {before : List Char}
    (htext : text.toList = before ++ l.cursor.rest) (hbehind : l.cursor.position.IsBehind before) :
    ∀ t ∈ tokens ++ [l'.endToken], Text.IsPlace text t.span.start t.line t.col := by
  induction h generalizing before with
  | done hend =>
      intro t ht
      obtain rfl := List.mem_singleton.mp ht
      exact ⟨before, _, htext, hbehind⟩
  | @step l l' tokens diagnostics hne rest ih =>
      intro t ht
      rcases List.mem_cons.mp ht with rfl | ht
      · exact ⟨before, _, htext, hbehind⟩
      · refine ih ?_ (hbehind.after _) t ht
        rw [htext, List.append_assoc, take_append_afterStep]

end Lexer

end PipeQuery
