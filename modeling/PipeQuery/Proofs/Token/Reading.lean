import PipeQuery.Parse
import PipeQuery.Proofs.Span
import PipeQuery.Proofs.Token.Rule

/-!
# `PipeQuery.Proofs.Token.Reading`: a text read token by token

`Lexer.run` keeps what it has read in accumulators. `Lexer.Reads` is the same reading as a chain of
steps, on which facts about all tokens of a text are proved by induction. `exists_reads` says that
the chain comes to an end on every text.

The tokens of the chain have their places in the text, those that the lexer hands out have what is
left of these in 32 bits. `Lexing.truncated` is the step from the one to the other, and
`lex_eq_of_reads` ties the chain to `Lexer.lex` by it. Kinds, texts and channels are the same on
both sides.
-/

set_option autoImplicit false

namespace PipeQuery

/-- A token that stretches over some characters is hidden if it is a blank or a comment. -/
theorem Token.spanning_hidden_iff (kind : Kind) (position : Text.Position) (cs : List Char) :
    (spanning kind position cs).channel = .hidden ↔ kind.isTrivia = true := by
  simp only [spanning]
  split <;> simp_all

/-! ### Spans of 32 bits -/

namespace Token

variable (t : Token)

/-- A token keeps its kind in 32 bits. -/
@[simp]
theorem truncated_kind : t.truncated.kind = t.kind := rfl

/-- A token keeps its text in 32 bits. -/
@[simp]
theorem truncated_text : t.truncated.text = t.text := rfl

/-- A token stays on its channel in 32 bits. -/
@[simp]
theorem truncated_channel : t.truncated.channel = t.channel := rfl

/-- The parser passes over a token in 32 bits just if it passes over the token. -/
@[simp]
theorem isHidden_truncated : t.truncated.isHidden = t.isHidden := rfl

end Token

namespace Lexeme

/-- The lexeme with a span of 32 bits. -/
def truncated (l : Lexeme) : Lexeme :=
  { l with token := l.token.truncated }

/-- A lexeme keeps its kind in 32 bits. -/
@[simp]
theorem truncated_kind (l : Lexeme) : l.truncated.token.kind = l.token.kind := rfl

/-- A lexeme keeps its text in 32 bits. -/
@[simp]
theorem truncated_text (l : Lexeme) : l.truncated.token.text = l.token.text := rfl

/-- The lexemes of some tokens are those that are not hidden. -/
theorem map_token_ofTokens (spaced : Bool) (tokens : List Token) :
    (ofTokens spaced tokens).map token = tokens.filter fun t => !t.isHidden := by
  induction tokens generalizing spaced with
  | nil => rfl
  | cons t tokens ih =>
      rw [ofTokens]
      split
      · rw [ih, List.filter_cons_of_neg (by simpa)]
      · next h => rw [List.map_cons, ih, List.filter_cons_of_pos (by simpa using h)]

/-- There are as many lexemes as tokens that are not hidden. -/
theorem length_ofTokens (spaced : Bool) (tokens : List Token) :
    (ofTokens spaced tokens).length = (tokens.filter fun t => !t.isHidden).length := by
  rw [← map_token_ofTokens spaced, List.length_map]

/-- The token of a lexeme is one of the tokens, and it is not hidden. -/
theorem mem_ofTokens {spaced : Bool} {tokens : List Token} {l : Lexeme}
    (hl : l ∈ ofTokens spaced tokens) : l.token ∈ tokens ∧ l.token.isHidden = false := by
  have hmem := List.mem_map_of_mem (f := token) hl
  rw [map_token_ofTokens, List.mem_filter, Bool.not_eq_true'] at hmem
  exact hmem

/-- A token that is not hidden is the first lexeme. -/
theorem ofTokens_cons (spaced : Bool) {t : Token} (h : t.isHidden = false) (tokens : List Token) :
    ofTokens spaced (t :: tokens) = ⟨t, spaced⟩ :: ofTokens false tokens := by
  rw [ofTokens, h, if_neg Bool.false_ne_true]

/-- A token that is not hidden divides the lexemes, as it divides the tokens. -/
theorem ofTokens_append_cons (spaced : Bool) (before : List Token) {t : Token}
    (h : t.isHidden = false) (after : List Token) :
    ∃ b, ofTokens spaced (before ++ t :: after) =
      ofTokens spaced before ++ ⟨t, b⟩ :: ofTokens false after := by
  induction before generalizing spaced with
  | nil => exact ⟨spaced, ofTokens_cons spaced h after⟩
  | cons s before ih =>
      rw [List.cons_append, ofTokens, ofTokens]
      split
      · exact ih true
      · obtain ⟨b, heq⟩ := ih false
        exact ⟨b, by rw [heq, List.cons_append]⟩

/-- Which tokens are lexemes does not depend on their spans. -/
theorem ofTokens_map_truncated (spaced : Bool) (tokens : List Token) :
    ofTokens spaced (tokens.map Token.truncated) = (ofTokens spaced tokens).map truncated := by
  induction tokens generalizing spaced with
  | nil => rfl
  | cons t tokens ih =>
      rw [List.map_cons, ofTokens, ofTokens, Token.isHidden_truncated]
      split
      · exact ih true
      · rw [ih, List.map_cons]
        rfl

end Lexeme

namespace Lexing

/-- What the lexer found, with spans of 32 bits. -/
def truncated (l : Lexing) : Lexing where
  tokens := l.tokens.map Token.truncated
  endToken := l.endToken.truncated
  diagnostics := l.diagnostics.map Diagnostic.truncated
  modes := l.modes

/-- The lexemes of a text with spans of 32 bits. -/
theorem truncated_lexemes (l : Lexing) : l.truncated.lexemes = l.lexemes.map Lexeme.truncated :=
  Lexeme.ofTokens_map_truncated false l.tokens

end Lexing

/-! ### Chains of steps -/

namespace Lexer

/-- The lexer `l` makes these tokens and diagnostics, and stands at the end of the text as `l'`. -/
inductive Reads : Lexer → List Token → List Diagnostic → Lexer → Prop where
  | done {l : Lexer} (h : l.cursor.rest = []) : Reads l [] [] l
  | step {l l' : Lexer} {tokens : List Token} {diagnostics : List Diagnostic}
    (h : l.cursor.rest ≠ []) (rest : Reads l.afterStep tokens diagnostics l') :
    Reads l (l.stepToken :: tokens) (l.stepDiagnostic?.toList ++ diagnostics) l'

/-- What a chain of steps makes of a text, with the places in the text. -/
def lexing (l' : Lexer) (tokens : List Token) (diagnostics : List Diagnostic) : Lexing :=
  ⟨tokens, l'.endToken, diagnostics, l'.modes.unwind⟩

/-- A chain of steps is what `run` goes through. -/
theorem run_eq_of_reads {l l' : Lexer} {tokens : List Token} {diagnostics : List Diagnostic}
    (h : Reads l tokens diagnostics l') (tokens₀ : List Token) (diagnostics₀ : List Diagnostic) :
    run l tokens₀ diagnostics₀ =
      ⟨tokens₀.reverse ++ tokens.map Token.truncated, l'.endToken.truncated,
        diagnostics₀.reverse ++ diagnostics.map Diagnostic.truncated, l'.modes.unwind⟩ := by
  induction h generalizing tokens₀ diagnostics₀ with
  | done hend =>
      rw [run, dif_pos hend, List.map_nil, List.map_nil, List.append_nil, List.append_nil]
      rfl
  | @step l l' tokens diagnostics hne rest ih =>
      have hreverse : ((l.stepDiagnostic?.map Diagnostic.truncated).toList ++
          diagnostics₀).reverse =
          diagnostics₀.reverse ++ l.stepDiagnostic?.toList.map Diagnostic.truncated := by
        cases l.stepDiagnostic? <;> simp
      rw [run, dif_neg hne, ih, hreverse, List.reverse_cons, List.append_assoc, List.append_assoc,
        List.map_append]
      rfl

/-- What the lexer makes of a text is what a chain of steps from its start makes of it, with spans
of 32 bits. -/
theorem lex_eq_of_reads {preview : Bool} {text : String} {tokens : List Token}
    {diagnostics : List Diagnostic} {l' : Lexer}
    (h : Reads (ofText preview text) tokens diagnostics l') :
    lex preview text = (l'.lexing tokens diagnostics).truncated :=
  run_eq_of_reads h [] []

/-- Every text is read to its end. -/
theorem exists_reads (l : Lexer) : ∃ tokens diagnostics l', Reads l tokens diagnostics l' := by
  induction hlen : l.cursor.rest.length using Nat.strong_induction_on generalizing l with
  | _ n ih =>
      by_cases hend : l.cursor.rest = []
      · exact ⟨[], [], l, .done hend⟩
      · have hshort := afterStep_rest_length_lt l hend
        obtain ⟨tokens, diagnostics, l', hreads⟩ := ih _ (hlen ▸ hshort) l.afterStep rfl
        exact ⟨_, _, l', .step hend hreads⟩

/-- The tokens of a text come from a chain of steps from its start. -/
theorem exists_lex_eq (preview : Bool) (text : String) :
    ∃ tokens diagnostics l', Reads (ofText preview text) tokens diagnostics l' ∧
      lex preview text = (l'.lexing tokens diagnostics).truncated := by
  obtain ⟨tokens, diagnostics, l', hreads⟩ := exists_reads (ofText preview text)
  exact ⟨tokens, diagnostics, l', hreads, lex_eq_of_reads hreads⟩

/-- Before the end of the text the next token is that of a step. -/
theorem next_of_rest_ne_nil {l : Lexer} (h : l.cursor.rest ≠ []) :
    l.next = (l.stepToken.truncated, l.stepDiagnostic?.map Diagnostic.truncated, l.afterStep) :=
  if_neg h

/-- At the end of the text the next token is the one that ends it. -/
theorem next_of_rest_eq_nil {l : Lexer} (h : l.cursor.rest = []) :
    l.next = (l.endToken.truncated, none, l.atEnd) :=
  if_pos h

/-- A step takes the text that it leaves behind. -/
theorem take_append_afterStep (l : Lexer) :
    l.cursor.rest.take l.step.length ++ l.afterStep.cursor.rest = l.cursor.rest :=
  List.take_append_drop _ _

/-- A step moves the offset by the bytes it takes. -/
@[simp]
theorem afterStep_offset (l : Lexer) : l.afterStep.cursor.position.offset =
    l.cursor.position.offset + Text.byteLength (l.cursor.rest.take l.step.length) := rfl

/-- What a step takes is not empty. -/
theorem take_step_ne_nil (l : Lexer) (h : l.cursor.rest ≠ []) :
    l.cursor.rest.take l.step.length ≠ [] := by
  intro hnil
  have hpos := Token.step_length_pos l.preview l.modes h
  rcases List.take_eq_nil_iff.mp hnil with hzero | hrest
  · exact absurd hzero (Nat.pos_iff_ne_zero.mp hpos)
  · exact h hrest

/-- A step never makes the token that ends a text. -/
theorem step_kind_ne_eof (l : Lexer) : l.step.kind ≠ .eof := by
  have haccounts := Token.step_accounts l.preview l.modes l.cursor.rest
  unfold step
  intro heof
  generalize Token.step l.preview l.modes l.cursor.rest = s at haccounts heof
  cases haccounts with
  | error => cases heof
  | trivia _ h =>
      obtain rfl : _ = Token.Kind.eof := heof
      cases h
  | token _ h =>
      obtain rfl : _ = Token.Kind.eof := heof
      cases h.isRegular

/-- An error token never comes without a diagnostic. -/
theorem step_kind_ne_error (l : Lexer) (h : l.stepDiagnostic? = none) : l.step.kind ≠ .error := by
  have haccounts := Token.step_accounts l.preview l.modes l.cursor.rest
  rw [stepDiagnostic?, Option.map_eq_none_iff] at h
  unfold step at h ⊢
  intro herror
  generalize Token.step l.preview l.modes l.cursor.rest = s at haccounts h herror
  cases haccounts with
  | error => cases h
  | trivia _ htrivia =>
      obtain rfl : _ = Token.Kind.error := herror
      cases htrivia
  | token _ hforms =>
      obtain rfl : _ = Token.Kind.error := herror
      cases hforms.isRegular

/-- A text in which the lexer finds nothing wrong has no error token. -/
theorem kind_ne_error_of_reads {l l' : Lexer} {tokens : List Token} (h : Reads l tokens [] l') :
    ∀ t ∈ tokens, t.kind ≠ .error := by
  generalize hnone : ([] : List Diagnostic) = diagnostics at h
  induction h with
  | done => simp
  | @step l l' tokens diagnostics hne rest ih =>
      obtain ⟨hhead, rfl⟩ := List.append_eq_nil_iff.mp hnone.symm
      have hstep := l.step_kind_ne_error (Option.toList_eq_nil_iff.mp hhead)
      intro t ht
      rcases List.mem_cons.mp ht with rfl | ht
      · exact hstep
      · exact ih rfl t ht

end Lexer

end PipeQuery
