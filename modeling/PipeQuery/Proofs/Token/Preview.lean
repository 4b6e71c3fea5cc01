import PipeQuery.Proofs.Token.Tiling

/-!
# `PipeQuery.Proofs.Token.Preview`: one text with and without the preview verbs

Previews can be switched on, and then some words are verbs that were not. `LOOKUP` and `METRICS`
enter modes of their own; in front of the other words what is read goes on as before. So, unless an
unknown command is spelled like one of the two (`Token.entersMode`), the lexer goes through a text
in the same steps either way. `step_relabels` says so of a step, `Lexer.relabelled_of_reads` of a
reading to the end and `Lexer.calls_relabelled` of any number of calls, the modes included.
-/

set_option autoImplicit false

namespace PipeQuery

namespace Token

/-- What becomes of the kind of a token with this text when previews are switched on. -/
inductive Kind.Relabels (text : String) : Kind → Kind → Prop where
  | same {kind : Kind} : Relabels text kind kind
  /-- The words `INLINESTATS` and `MATCH` are verbs. -/
  | verb {verb : Verb} (hverb : verb = .inlineStats ∨ verb = .«match»)
    (h : Text.sameWord text verb.text = true) : Relabels text .unknownCommand (.command verb)
  /-- The word `MATCH` is an operator. -/
  | operator (h : Text.sameWord text Verb.«match».text = true) :
    Relabels text .identifier (.command .«match»)

/-- The same token, as far as its kind allows. -/
structure Relabelled (t t' : Token) : Prop where
  kind : t.kind.Relabels t.text t'.kind
  text_eq : t'.text = t.text
  span_eq : t'.span = t.span
  line_eq : t'.line = t.line
  col_eq : t'.col = t.col
  channel_eq : t'.channel = t.channel

/-- Spans of 32 bits do not tell the tokens apart. -/
theorem Relabelled.truncated {t t' : Token} (h : t.Relabelled t') :
    t.truncated.Relabelled t'.truncated where
  kind := h.kind
  text_eq := h.text_eq
  span_eq := congrArg Span.truncated h.span_eq
  line_eq := h.line_eq
  col_eq := h.col_eq
  channel_eq := h.channel_eq

/-- The token would be a verb that enters a mode of its own. -/
def entersMode (t : Token) : Bool :=
  t.kind = .unknownCommand && (Text.sameWord t.text "lookup" || Text.sameWord t.text "metrics")

/-- A word that is relabelled is seen by the parser with either label. -/
theorem Kind.Relabels.isTrivia_eq {text : String} {kind kind' : Kind}
    (h : kind.Relabels text kind') : kind'.isTrivia = kind.isTrivia := by
  cases h <;> rfl

/-! ### Steps -/

namespace Step

variable {modes : ModeStack} {cs : List Char}

/-- The steps differ in the kind only, and in the way that the text allows. -/
structure Relabels (cs : List Char) (s s' : Step) : Prop where
  kind : s.kind.Relabels (String.ofList (cs.take s.length)) s'.kind
  length_eq : s'.length = s.length
  modes_eq : s'.modes = s.modes
  cause_eq : s'.cause = s.cause

/-- A step may stay as it is. -/
theorem Relabels.refl (s : Step) : s.Relabels cs s :=
  ⟨.same, rfl, rfl, rfl⟩

/-- The text of the step would be a verb that enters a mode of its own. -/
def EntersMode (cs : List Char) (s : Step) : Prop :=
  s.kind = .unknownCommand ∧ (Text.sameWord (String.ofList (cs.take s.length)) "lookup" = true ∨
    Text.sameWord (String.ofList (cs.take s.length)) "metrics" = true)

/-- Of two readings of a word only the decisions have to be compared. -/
theorem word_relabels {length : Nat} {decide decide' : String → Kind × ModeStack}
    (h : length ≠ 0 → ∀ text, text = String.ofList (cs.take length) →
      (decide text).1.Relabels text (decide' text).1 ∧ (decide' text).2 = (decide text).2) :
    (word modes cs length decide).Relabels cs (word modes cs length decide') := by
  unfold word
  split
  · exact .refl _
  · obtain ⟨hkind, hmodes⟩ := h ‹_› _ rfl
    exact ⟨hkind, rfl, hmodes, rfl⟩

/-- A word that spells a verb is the same word as the verb. -/
theorem sameWord_of_ofWord? {text : String} {verb : Verb} (h : Verb.ofWord? text = some verb) :
    Text.sameWord text verb.text = true := by
  have hspelled := List.find?_some h
  have hupper : Text.upper verb.text = verb.text := by cases verb <;> decide
  rw [Text.sameWord, hupper]
  exact decide_eq_true (of_decide_eq_true hspelled).symm

/-- `sameWord` does not look at the case of its second word. -/
theorem sameWord_congr {text word word' : String} (h : Text.upper word = Text.upper word') :
    Text.sameWord text word = Text.sameWord text word' := by
  rw [Text.sameWord, Text.sameWord, h]

/-- In the default mode the two lexers part only at the verbs of the gate. -/
theorem inDefault_relabels (hfree : ¬ (inDefault false modes cs).EntersMode cs) :
    (inDefault false modes cs).Relabels cs (inDefault true modes cs) := by
  unfold inDefault at hfree ⊢
  split
  · exact .refl _
  · refine word_relabels fun hlength text htext => ?_
    simp only [word, if_neg hlength, ← htext] at hfree
    cases hword : Verb.ofWord? text with
    | none => exact ⟨.same, rfl⟩
    | some verb =>
        have hsame := sameWord_of_ofWord? hword
        -- A verb of the stable language is known either way.
        cases hpreview : verb.isPreview with
        | false => simp [hpreview, Kind.Relabels.same]
        | true =>
            simp only [hword, hpreview, Bool.not_false, Bool.and_self, if_true] at hfree
            have hwords : ¬ (Text.sameWord text "lookup" = true ∨
                Text.sameWord text "metrics" = true) := fun h => hfree ⟨rfl, htext ▸ h⟩
            cases verb with
            | inlineStats => exact ⟨.verb (.inl rfl) hsame, rfl⟩
            | «match» => exact ⟨.verb (.inr rfl) hsame, rfl⟩
            | lookup =>
                have hupper : Text.upper Verb.lookup.text = Text.upper "lookup" := by decide
                rw [sameWord_congr hupper] at hsame
                exact absurd (.inl hsame) hwords
            | metrics =>
                have hupper : Text.upper Verb.metrics.text = Text.upper "metrics" := by decide
                rw [sameWord_congr hupper] at hsame
                exact absurd (.inr hsame) hwords
            | _ => cases hpreview

/-- In an expression they part at `MATCH` only. -/
theorem inExpression_relabels :
    (inExpression false modes cs).Relabels cs (inExpression true modes cs) := by
  unfold inExpression
  split
  case h_6 =>
    split
    · exact .refl _
    · split
      · refine word_relabels fun _ text _ => ?_
        cases Keyword.ofWord? text with
        | some keyword => exact ⟨.same, rfl⟩
        | none =>
            cases hmatch : Text.sameWord text Verb.«match».text with
            | false => simp [Kind.Relabels.same]
            | true => simpa [hmatch] using Kind.Relabels.operator hmatch
      · exact .refl _
  all_goals exact .refl _

/-- In every mode the two lexers take the same characters, unless the verb brings in a mode of its
own. -/
theorem inMode_relabels (hfree : ¬ (inMode false modes cs).EntersMode cs) :
    (inMode false modes cs).Relabels cs (inMode true modes cs) := by
  unfold inMode at hfree ⊢
  cases hmode : modes.current with
  | default =>
      rw [hmode] at hfree
      exact inDefault_relabels hfree
  | expression => exact inExpression_relabels
  | _ => exact .refl _

end Step

/-- A step is the same with previews and without, up to the kind of its token. -/
theorem step_relabels {modes : ModeStack} {cs : List Char}
    (hfree : ¬ (step false modes cs).EntersMode cs) :
    (step false modes cs).Relabels cs (step true modes cs) := by
  revert hfree
  unfold step
  split
  · exact fun _ => .refl _
  · exact fun _ => .refl _
  · exact fun _ => .refl _
  · split
    · exact fun _ => .refl _
    · exact Step.inMode_relabels

end Token

/-! ### Readings -/

namespace Lexer

variable {l l' m : Lexer} {tokens : List Token} {diagnostics : List Diagnostic}

/-- The same place in a text and the same modes, without previews and with them. -/
structure Matches (l m : Lexer) : Prop where
  preview_eq : l.preview = false ∧ m.preview = true
  cursor_eq : m.cursor = l.cursor
  modes_eq : m.modes = l.modes

/-- At the start of a text the two lexers are in the same modes. -/
theorem matches_ofText (text : String) : (ofText false text).Matches (ofText true text) :=
  ⟨⟨rfl, rfl⟩, rfl, rfl⟩

/-- At the end of the text nothing but the modes is left to compare. -/
theorem Matches.atEnd (h : l.Matches m) :
    l.endToken.Relabelled m.endToken ∧ l.atEnd.Matches m.atEnd := by
  obtain ⟨hpreview, hcursor, hmodes⟩ := h
  refine ⟨?_, hpreview, hcursor, congrArg ModeStack.unwind hmodes⟩
  rw [show m.endToken = l.endToken by rw [endToken, endToken, hcursor]]
  exact ⟨.same, rfl, rfl, rfl, rfl, rfl⟩

/-- One token further on it is the same place again. -/
theorem Matches.step (h : l.Matches m) (hfree : l.stepToken.entersMode = false) :
    l.stepToken.Relabelled m.stepToken ∧ l.afterStep.Matches m.afterStep := by
  obtain ⟨⟨hoff, hon⟩, hcursor, hmodes⟩ := h
  -- What is asked of the token is asked of the step that makes it.
  have hfree' : ¬ l.step.EntersMode l.cursor.rest := by
    rintro ⟨hkind, htext⟩
    have henters : l.stepToken.entersMode = true := by
      rw [Token.entersMode, Bool.and_eq_true, Bool.or_eq_true]
      exact ⟨decide_eq_true hkind, htext⟩
    rw [hfree] at henters
    cases henters
  have hrelabels : l.step.Relabels l.cursor.rest m.step := by
    rw [Lexer.step, hoff] at hfree' ⊢
    rw [Lexer.step, hon, hcursor, hmodes]
    exact Token.step_relabels hfree'
  obtain ⟨hkind, hlength, hstack, -⟩ := hrelabels
  refine ⟨⟨hkind, ?_, ?_, ?_, ?_, ?_⟩, ⟨hoff, hon⟩, ?_, hstack⟩
  · simp only [stepToken, Token.spanning, hcursor, hlength]
  · simp only [stepToken, Token.spanning, hcursor, hlength]
  · simp only [stepToken, Token.spanning, hcursor]
  · simp only [stepToken, Token.spanning, hcursor]
  · simp only [stepToken, Token.spanning, hkind.isTrivia_eq]
  · simp only [afterStep, hcursor, hlength]

/-- A reading without previews is one with them, token by token. -/
theorem relabelled_of_reads (h : l.Reads tokens diagnostics l') (hm : l.Matches m)
    (hfree : ∀ t ∈ tokens, t.entersMode = false) :
    ∃ tokens' diagnostics' m', m.Reads tokens' diagnostics' m' ∧
      List.Forall₂ Token.Relabelled tokens tokens' ∧ l'.Matches m' := by
  induction h generalizing m with
  | done hend => exact ⟨[], [], m, .done (hm.cursor_eq ▸ hend), .nil, hm⟩
  | step hne rest ih =>
      obtain ⟨hhead, htail⟩ := List.forall_mem_cons.mp hfree
      obtain ⟨htoken, hm'⟩ := hm.step hhead
      obtain ⟨tokens', diagnostics', m', hreads, htokens, hend⟩ := ih hm' htail
      exact ⟨_, _, m', .step (hm.cursor_eq ▸ hne) hreads, .cons htoken htokens, hend⟩

/-- The tokens that so many calls return, each with the modes behind it. -/
def calls : Nat → Lexer → List (Token × ModeStack)
  | 0, _ => []
  | n + 1, l => (l.next.1, l.next.2.2.modes) :: calls n l.next.2.2

/-- The tokens of a text are those of the calls that it takes to see its end. -/
theorem calls_of_reads (h : l.Reads tokens diagnostics l') :
    (calls (tokens.length + 1) l).map Prod.fst = (tokens ++ [l'.endToken]).map Token.truncated := by
  induction h with
  | done hend => simp [calls, next_of_rest_eq_nil hend]
  | @step l l' tokens diagnostics hne rest ih =>
      rw [List.length_cons, calls, List.map_cons, List.cons_append, List.map_cons,
        next_of_rest_ne_nil hne]
      exact congrArg _ ih

/-- Any number of calls return the same tokens up to their kinds, and the same modes behind each. -/
theorem calls_relabelled (h : l.Reads tokens diagnostics l') (hm : l.Matches m)
    (hfree : ∀ t ∈ tokens, t.entersMode = false) (n : Nat) :
    List.Forall₂ (fun a b => a.1.Relabelled b.1 ∧ b.2 = a.2) (calls n l) (calls n m) := by
  induction n generalizing l l' m tokens diagnostics with
  | zero => exact .nil
  | succ n ih =>
      cases h with
      | done hend =>
          obtain ⟨htoken, hm'⟩ := hm.atEnd
          have hend' : m.cursor.rest = [] := hm.cursor_eq ▸ hend
          -- Behind the end every call returns the end again.
          have hdone : l.atEnd.Reads [] [] l.atEnd := .done hend
          rw [calls, calls, next_of_rest_eq_nil hend, next_of_rest_eq_nil hend']
          exact .cons ⟨htoken.truncated, hm'.modes_eq⟩ (ih hdone hm' hfree)
      | step hne rest =>
          obtain ⟨hhead, htail⟩ := List.forall_mem_cons.mp hfree
          obtain ⟨htoken, hm'⟩ := hm.step hhead
          have hne' : m.cursor.rest ≠ [] := hm.cursor_eq ▸ hne
          rw [calls, calls, next_of_rest_ne_nil hne, next_of_rest_ne_nil hne']
          exact .cons ⟨htoken.truncated, hm'.modes_eq⟩ (ih rest hm' htail)

end Lexer

end PipeQuery
