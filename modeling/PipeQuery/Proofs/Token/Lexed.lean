import PipeQuery.Proofs.Token.Reading
import PipeQuery.Proofs.Token.Taking
import PipeQuery.Parse

/-!
# `PipeQuery.Proofs.Token.Lexed`: where the lexemes of a text come from

The parser sees lexemes without the modes they were read in. `Lexed` keeps both: the lexemes that
are read one behind the other, each a text of the mode in force at its place. The lexemes of every
text are such (`lexed_of_reads`), and so is any stretch of them (`Lexed.stretch`). The lemmas at the
end read off the kind of a token what its text must be.
-/

set_option autoImplicit false

namespace PipeQuery.Token

open Shape (startsWith IsWord IsNumber)

/-- From the modes `m` the lexemes are read one behind the other. Behind an error any modes may be
in force. -/
inductive Lexed (preview : Bool) : ModeStack → List Lexeme → Prop where
  | nil {m : ModeStack} : Lexed preview m []
  | error {m m' : ModeStack} {l : Lexeme} {w : List Lexeme} (h : l.token.kind = .error)
    (rest : Lexed preview m' w) : Lexed preview m (l :: w)
  | token {m : ModeStack} {l : Lexeme} {w : List Lexeme}
    (h : Forms preview m.current l.token.kind l.token.text.toList)
    (rest : Lexed preview (m.behind l.token.kind) w) : Lexed preview m (l :: w)

/-- The lexemes that a lexer reads. The induction is on the chain of its steps, each of which makes
an error, passes over a hidden token or takes a text of the mode. -/
theorem lexed_of_reads {l l' : Lexer} {tokens : List Token} {diagnostics : List Diagnostic}
    (h : l.Reads tokens diagnostics l') (spaced : Bool) :
    Lexed l.preview l.modes (Lexeme.ofTokens spaced tokens) := by
  induction h generalizing spaced with
  | done => exact .nil
  | @step l l' tokens diagnostics hne rest ih =>
      -- The rule that made the step says which of the three kinds its token is of.
      have haccounts := step_accounts l.preview l.modes l.cursor.rest
      have hhidden : l.stepToken.isHidden = l.step.kind.isTrivia := by
        rw [Token.isHidden, Lexer.stepToken, Bool.eq_iff_iff, decide_eq_true_eq,
          spanning_hidden_iff]
      have hkind : l.stepToken.kind = l.step.kind := rfl
      have htext : l.stepToken.text.toList = l.cursor.rest.take l.step.length :=
        String.toList_ofList
      have hmodes : l.afterStep.modes = l.step.modes := rfl
      change Accounts l.preview l.modes l.cursor.rest l.step at haccounts
      generalize hstep : l.step = step at haccounts hhidden hkind htext hmodes
      cases haccounts with
      | error =>
          rw [Lexeme.ofTokens, hhidden]
          exact .error hkind (ih false)
      -- Trivia only say that what is behind is spaced.
      | trivia _ htrivia =>
          have hpassed : Lexed l.preview l.afterStep.modes (Lexeme.ofTokens true tokens) := ih true
          rw [Lexeme.ofTokens, if_pos (hhidden.trans htrivia)]
          rwa [hmodes] at hpassed
      | @token kind length hlength hforms =>
          have hregular : ¬ l.stepToken.isHidden = true := by
            rw [hhidden]
            exact hforms.not_isTrivia
          have hpassed : Lexed l.preview l.afterStep.modes (Lexeme.ofTokens false tokens) :=
            ih false
          replace hkind : l.stepToken.kind = kind := hkind
          rw [hmodes] at hpassed
          rw [Lexeme.ofTokens, if_neg hregular]
          refine .token ?_ ?_
          · show Forms _ _ l.stepToken.kind l.stepToken.text.toList
            rw [hkind, htext]
            exact hforms
          · show Lexed _ (l.modes.behind l.stepToken.kind) _
            rw [hkind]
            exact hpassed

/-- What the modes have to do with a lexeme is a matter of its kind and its text. -/
theorem Lexed.truncated {preview : Bool} {m : ModeStack} {w : List Lexeme}
    (h : Lexed preview m w) : Lexed preview m (w.map Lexeme.truncated) := by
  induction h with
  | nil => exact .nil
  | error h _ ih => exact .error h ih
  | token h _ ih => exact .token h ih

/-- The lexemes that a lexer hands out. -/
theorem lexed_truncated_of_reads {l l' : Lexer} {tokens : List Token}
    {diagnostics : List Diagnostic} (h : l.Reads tokens diagnostics l') :
    Lexed l.preview l.modes (Lexeme.ofTokens false (tokens.map Token.truncated)) := by
  rw [Lexeme.ofTokens_map_truncated]
  exact (lexed_of_reads h false).truncated

/-- The lexemes of every text. -/
theorem lexed_lexemes (preview : Bool) (text : String) :
    Lexed preview .bottom (Lexer.lex preview text).lexemes := by
  obtain ⟨tokens, diagnostics, l', hreads, heq⟩ := Lexer.exists_lex_eq preview text
  rw [heq]
  exact lexed_truncated_of_reads hreads

namespace Lexed

variable {preview : Bool} {m : ModeStack} {l : Lexeme} {w w' : List Lexeme}

/-- A lexeme that is no error is a text of the mode in force. -/
theorem head (h : Lexed preview m (l :: w)) (hkind : l.token.kind ≠ .error) :
    Forms preview m.current l.token.kind l.token.text.toList ∧
      Lexed preview (m.behind l.token.kind) w := by
  cases h with
  | error herror _ => exact absurd herror hkind
  | token h rest => exact ⟨h, rest⟩

/-- The first of some lexemes, whose kind is known. -/
theorem head_of_kind (h : Lexed preview m (l :: w)) {kind : Kind} (hl : l.token.kind = kind)
    (hkind : kind ≠ .error) :
    Forms preview m.current kind l.token.text.toList ∧ Lexed preview (m.behind kind) w := by
  subst hl
  exact h.head hkind

/-- Lexemes in front of others come from the lexer in the same modes. -/
theorem left (h : Lexed preview m (w ++ w')) : Lexed preview m w := by
  induction w generalizing m with
  | nil => exact .nil
  | cons l w ih =>
      cases h with
      | error herror rest => exact .error herror (ih rest)
      | token h rest => exact .token h (ih rest)

/-- Lexemes behind others come from it in the modes it had reached. -/
theorem right (h : Lexed preview m (w ++ w')) : ∃ m', Lexed preview m' w' := by
  induction w generalizing m with
  | nil => exact ⟨m, h⟩
  | cons l w ih =>
      cases h with
      | error _ rest => exact ih rest
      | token _ rest => exact ih rest

/-- So do the lexemes behind the first. -/
theorem tail (h : Lexed preview m (l :: w)) : ∃ m', Lexed preview m' w := by
  rw [← List.singleton_append] at h
  exact h.right

/-- Behind lexemes that leave the modes as they are, the rest is read from the same modes. -/
theorem right_of_stays (h : Lexed preview m (w ++ w'))
    (hstays : ∀ l ∈ w, l.token.kind ≠ .error ∧ m.behind l.token.kind = m) :
    Lexed preview m w' := by
  induction w with
  | nil => exact h
  | cons l w ih =>
      obtain ⟨hkind, hbehind⟩ := hstays l (by simp)
      obtain ⟨-, hrest⟩ := h.head hkind
      rw [hbehind] at hrest
      exact ih hrest fun l' hl' => hstays l' (List.mem_cons_of_mem _ hl')

/-- Any stretch of the lexemes is read from some modes. -/
theorem stretch (h : Lexed preview m w) (hw : w' <:+: w) : ∃ m', Lexed preview m' w' := by
  obtain ⟨before, behind, rfl⟩ := hw
  exact h.left.right

end Lexed

/-! ### What the kind of a token tells of its text -/

/-- The kinds of the tokens that are signs. -/
def Kind.isSign : Kind → Bool
  | .command _ | .unknownCommand | .keyword _ | .identifier | .quotedIdentifier | .source
  | .pattern | .policy | .setting | .integer | .decimal | .quotedString | .anonymousParam
  | .param => false
  | _ => true

/-- A character that is a token of its own is a sign. -/
theorem isSign_of_single? {mode : Mode} {c : Char} {kind : Kind} (h : single? mode c = some kind) :
    kind.isSign = true := by
  unfold single? at h
  split at h
  all_goals simp only [Option.some.injEq, reduceCtorEq] at h
  all_goals
    subst h
    rfl

/-- So is an operator. -/
theorem isSign_of_operator? {text : List Char} {kind : Kind} {length : Nat}
    (h : Step.operator? text = some (kind, length)) : kind.isSign = true := by
  unfold Step.operator? at h
  split at h
  all_goals simp only [Option.some.injEq, Prod.mk.injEq, reduceCtorEq] at h
  all_goals
    obtain ⟨rfl, -⟩ := h
    rfl

namespace Forms

variable {preview : Bool} {mode : Mode} {kind : Kind} {text : List Char}

/-- A word that is no sign and not the one word of `SHOW` is a word of its mode. -/
theorem of_isWord (h : Forms preview mode kind text) (hword : kind.isWord = true)
    (hsign : kind.isSign = false) (hinfo : kind ≠ .keyword .info) :
    IsWord (scan mode) (carries mode) text ∧ wordKind preview mode (String.ofList text) = kind := by
  cases h with
  | word h => exact ⟨h, rfl⟩
  | single h => rw [isSign_of_single? h] at hsign; cases hsign
  | operator h => rw [isSign_of_operator? h] at hsign; cases hsign
  | info => exact absurd rfl hinfo
  | number => split at hword <;> cases hword
  | pipe | string | quotedName | anonymous | param => cases hword

/-- A string token is a literal, in a mode that has strings. -/
theorem of_quotedString (h : Forms preview mode .quotedString text) :
    hasStrings mode = true ∧ Text.Quoted.IsLiteral text := by
  generalize hkind : Kind.quotedString = kind at h
  cases h with
  | string hmode h => exact ⟨hmode, h⟩
  | single h => rw [← hkind] at h; cases isSign_of_single? h
  | operator h => rw [← hkind] at h; cases isSign_of_operator? h
  | number => split at hkind <;> cases hkind
  | word =>
      have hword := wordKind_isWord preview mode (String.ofList text)
      rw [← hkind] at hword
      cases hword
  | pipe | quotedName | anonymous | param | info => cases hkind

/-- The text of a string token is a literal. -/
theorem isLiteral (h : Forms preview mode .quotedString text) : Text.Quoted.IsLiteral text :=
  h.of_quotedString.2

/-- Numbers are tokens of expressions only. -/
theorem mode_eq_expression (h : Forms preview mode kind text)
    (hnumber : kind = .integer ∨ kind = .decimal) : mode = .expression := by
  have hsign : kind.isSign = false := by rcases hnumber with rfl | rfl <;> rfl
  have hword : kind.isWord = false := by rcases hnumber with rfl | rfl <;> rfl
  cases h with
  | number => rfl
  | single h => rw [isSign_of_single? h] at hsign; cases hsign
  | operator => rfl
  | word => rw [wordKind_isWord] at hword; cases hword
  | pipe | string | quotedName | anonymous | param | info =>
      rcases hnumber with hkind | hkind <;> cases hkind

/-- The text of an integer token is made of digits. -/
theorem isDigit_of_integer (h : Forms preview mode .integer text) :
    ∀ c ∈ text, c.isDigit = true := by
  generalize hkind : Kind.integer = kind at h
  cases h with
  | @number n _ _ h =>
      refine h.isDigit ?_
      cases hn : n.isDecimal with
      | false => rfl
      | true => simp [hn] at hkind
  | single h => rw [← hkind] at h; cases isSign_of_single? h
  | operator h => rw [← hkind] at h; cases isSign_of_operator? h
  | word =>
      have hword := wordKind_isWord preview mode (String.ofList text)
      rw [← hkind] at hword
      cases hword
  | pipe | string | quotedName | anonymous | param | info => cases hkind

/-- Parameters are tokens of the modes that have them. -/
theorem hasParameters (h : Forms preview mode kind text)
    (hkind : kind = .anonymousParam ∨ kind = .param) : hasParameters mode = true := by
  have hsign : kind.isSign = false := by rcases hkind with rfl | rfl <;> rfl
  have hword : kind.isWord = false := by rcases hkind with rfl | rfl <;> rfl
  cases h with
  | anonymous hmode => exact hmode
  | param hmode => exact hmode
  | single h => rw [isSign_of_single? h] at hsign; cases hsign
  | operator h => rfl
  | word => rw [wordKind_isWord] at hword; cases hword
  | number => rfl
  | pipe | string | quotedName | info => rcases hkind with hkind | hkind <;> cases hkind

/-- What stands behind the question mark of a parameter. -/
theorem parameter_body (h : Forms preview mode .param text) :
    ∃ body, text = '?' :: body ∧ IsWord Shape.parameter Shape.isNameChar body := by
  generalize hkind : Kind.param = kind at h
  cases h with
  | param _ h => exact ⟨_, rfl, h⟩
  | single h => rw [← hkind] at h; cases isSign_of_single? h
  | operator h => rw [← hkind] at h; cases isSign_of_operator? h
  | number => split at hkind <;> cases hkind
  | word =>
      have hword := wordKind_isWord preview mode (String.ofList text)
      rw [← hkind] at hword
      cases hword
  | pipe | string | quotedName | anonymous | info => cases hkind

/-- A verb is a token in command position, where a preview must be known, and `MATCH` in
expressions as well. -/
theorem of_verb {verb : Verb} (h : Forms preview mode (.command verb) text) :
    (verb.isPreview = true → preview = true) ∧
      (mode = .default ∨ mode = .expression ∧ verb = .«match») := by
  obtain ⟨-, hkind⟩ := h.of_isWord rfl rfl (by simp)
  -- Which words are commands is asked of `wordKind`, mode by mode; in most modes none is.
  cases mode with
  | default =>
      rw [wordKind] at hkind
      cases hword : Verb.ofWord? (String.ofList text) with
      | none => rw [hword] at hkind; cases hkind
      | some verb' =>
          rw [hword] at hkind
          dsimp only at hkind
          split at hkind
          · cases hkind
          · rename_i hknown
            obtain rfl : verb' = verb := by simpa using hkind
            exact ⟨fun hverb => by simpa [hverb] using hknown, .inl rfl⟩
  | expression =>
      rw [wordKind] at hkind
      split at hkind
      · cases hkind
      · split at hkind
        · rename_i hmatch
          cases hkind
          exact ⟨fun _ => (Bool.and_eq_true_iff.mp hmatch).1, .inr ⟨rfl, rfl⟩⟩
        · cases hkind
  | enrich | lookup =>
      rw [wordKind] at hkind
      split at hkind
      · cases hkind
      · split at hkind <;> cases hkind
  | sources | rename | enrichField | closingMetrics =>
      rw [wordKind] at hkind
      split at hkind <;> cases hkind
  | project | lookupField | mvExpand | setting | metrics | explain | info => cases hkind

end Forms

end PipeQuery.Token
