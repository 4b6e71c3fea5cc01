import PipeQuery.Proofs.Span
import PipeQuery.Proofs.Token.Ending
import PipeQuery.Proofs.Token.Lexed
import PipeQuery.Proofs.Token.Tiling

/-!
# `PipeQuery.Proofs.Token.Piping`: the tokens of a text that is piped into another

The text `t₁`, a line feed, a pipe, a blank and the text `t₂` are read as `t₁` is, if nothing is
wrong with `t₁`, then as a pipe, and then as `t₂` is, further on by the bytes in front of it:

    reads_extended   the first text keeps its tokens
    popToDefault_eq  the pipe brings the modes back to those at the start of a text
    reads_relocated  the second text keeps its tokens, apart from their places

`reads_piped` puts them together, for the lexemes that the parser sees. The first one of `t₂` has a
blank in front of it even if it had none.
-/

set_option autoImplicit false

namespace PipeQuery

/-! ### Tokens further on -/

/-- The token `t'` is `t`, by `k` bytes further on. The line and the column are left open. -/
structure Token.Moved (k : Nat) (t t' : Token) : Prop where
  kind_eq : t'.kind = t.kind
  text_eq : t'.text = t.text
  span_eq : t'.span = t.span.shift k
  channel_eq : t'.channel = t.channel

/-- The lexeme `l'` is `l`, by `k` bytes further on. -/
structure Lexeme.Moved (k : Nat) (l l' : Lexeme) : Prop where
  token : l.token.Moved k l'.token
  spaced_eq : l'.spaced = l.spaced

/-- A lexeme is where it is. -/
theorem Lexeme.Moved.refl (l : Lexeme) : l.Moved 0 l :=
  ⟨⟨rfl, rfl, rfl, rfl⟩, rfl⟩

/-- Lexemes of tokens that were moved are moved. -/
theorem Lexeme.moved_ofTokens {k : Nat} {ts ts' : List Token}
    (h : List.Forall₂ (Token.Moved k) ts ts') (spaced : Bool) :
    List.Forall₂ (Lexeme.Moved k) (ofTokens spaced ts) (ofTokens spaced ts') := by
  induction h generalizing spaced with
  | nil => exact .nil
  | @cons t t' ts ts' ht _ ih =>
      have hhidden : t'.isHidden = t.isHidden := by rw [Token.isHidden, ht.channel_eq]; rfl
      rw [ofTokens, ofTokens, hhidden]
      split
      · exact ih true
      · exact .cons ⟨ht, rfl⟩ (ih false)

namespace Lexer

/-- The lexer with its text at another place. -/
def relocated (l : Lexer) (position : Text.Position) : Lexer :=
  { l with cursor := { l.cursor with position := position } }

/-- The lexer with more text behind its own. -/
def extended (l : Lexer) (tail : List Char) : Lexer :=
  { l with cursor := { l.cursor with rest := l.cursor.rest ++ tail } }

/-- Where a text stands makes no difference to its tokens but their places. -/
theorem reads_relocated {l l' : Lexer} {tokens : List Token} {diagnostics : List Diagnostic}
    (h : Reads l tokens diagnostics l') {k : Nat} {position : Text.Position}
    (hposition : position.offset = l.cursor.position.offset + k) :
    ∃ tokens' diagnostics' l'', Reads (l.relocated position) tokens' diagnostics' l'' ∧
      List.Forall₂ (Token.Moved k) tokens tokens' ∧ (diagnostics' = [] ↔ diagnostics = []) ∧
      l''.modes = l'.modes ∧ l''.cursor.position.offset = l'.cursor.position.offset + k := by
  induction h generalizing position with
  | done h => exact ⟨[], [], _, .done h, .nil, Iff.rfl, rfl, hposition⟩
  | @step l l' tokens diagnostics hne rest ih =>
      -- Positions move on by what a step takes, which is the same in both places.
      have hoffset : (position.after (l.cursor.rest.take l.step.length)).offset =
          l.afterStep.cursor.position.offset + k := by
        show position.offset + _ = l.cursor.position.offset + _ + k
        omega
      obtain ⟨tokens', diagnostics', l'', hreads, hmoved, hnil, hmodes, hend⟩ := ih hoffset
      refine ⟨_, _, l'', .step hne hreads, .cons ⟨rfl, rfl, ?_, rfl⟩ hmoved, ?_, hmodes, hend⟩
      · show (⟨position.offset, position.offset + _⟩ : Span) =
          ⟨l.cursor.position.offset + k, l.cursor.position.offset + _ + k⟩
        rw [Span.mk.injEq]
        refine ⟨hposition, ?_⟩
        show position.offset + Text.byteLength (l.cursor.rest.take l.step.length) = _
        omega
      · have hcause :
            (l.relocated position).stepDiagnostic? = none ↔ l.stepDiagnostic? = none := by
          rw [stepDiagnostic?, stepDiagnostic?, Option.map_eq_none_iff, Option.map_eq_none_iff]
          rfl
        simp only [List.append_eq_nil_iff, Option.toList_eq_nil_iff, hcause, hnil]

/-! ### The first text -/

/-- A text that is read without a diagnostic goes on without an error. -/
theorem step_kind_of_reads {l l' : Lexer} {tokens : List Token} (h : Reads l tokens [] l')
    (hne : l.cursor.rest ≠ []) : l.step.kind ≠ .error := by
  generalize hnone : ([] : List Diagnostic) = diagnostics at h
  cases h with
  | done hend => exact absurd hend hne
  | step _ rest =>
      obtain ⟨hhead, -⟩ := List.append_eq_nil_iff.mp hnone.symm
      exact l.step_kind_ne_error (Option.toList_eq_nil_iff.mp hhead)

/-- At the end of a text nothing is read. -/
theorem reads_end {l l' : Lexer} {tokens : List Token} {diagnostics : List Diagnostic}
    (h : Reads l tokens diagnostics l') (hend : l.cursor.rest = []) : tokens = [] ∧ l' = l := by
  cases h with
  | done => exact ⟨rfl, rfl⟩
  | step hne => exact absurd hend hne

/-- A step without a diagnostic is the first of a run without one. -/
theorem reads_step {l l' : Lexer} (hne : l.cursor.rest ≠ []) (hnone : l.stepDiagnostic? = none)
    {tokens : List Token} {diagnostics : List Diagnostic}
    (rest : Reads l.afterStep tokens diagnostics l') :
    Reads l (l.stepToken :: tokens) diagnostics l' := by
  have h := Reads.step hne rest
  rwa [hnone] at h

/-- A blank or a comment is passed over. -/
theorem ofTokens_trivia {l : Lexer} (htrivia : l.step.kind.isTrivia = true) (spaced : Bool)
    (ts : List Token) :
    Lexeme.ofTokens spaced (l.stepToken :: ts) = Lexeme.ofTokens true ts := by
  have hhidden : l.stepToken.isHidden = true := by
    rw [Token.isHidden, stepToken, decide_eq_true_eq, Token.spanning_hidden_iff]
    exact htrivia
  rw [Lexeme.ofTokens, if_pos hhidden]

/-- A step that finds the same with more text behind goes on in that text. -/
theorem reads_extended_step {l l' : Lexer} {tail : List Char} (hne : l.cursor.rest ≠ [])
    (hnone : l.stepDiagnostic? = none) (hsame : (l.extended tail).step = l.step)
    {tokens : List Token} {diagnostics : List Diagnostic}
    (h : Reads (l.afterStep.extended tail) tokens diagnostics l') :
    Reads (l.extended tail) (l.stepToken :: tokens) diagnostics l' := by
  have hle : l.step.length ≤ l.cursor.rest.length :=
    Token.step_length_le (l.step_kind_ne_error hnone)
  have htoken : (l.extended tail).stepToken = l.stepToken := by
    rw [stepToken, stepToken, hsame]
    simp only [extended, List.take_append_of_le_length hle]
  have hafter : (l.extended tail).afterStep = l.afterStep.extended tail := by
    rw [afterStep, afterStep, hsame]
    simp only [extended, Text.Cursor.skip, List.take_append_of_le_length hle,
      List.drop_append_of_le_length hle]
  have hnone' : (l.extended tail).stepDiagnostic? = none := by
    rw [stepDiagnostic?, hsame, htoken]
    exact hnone
  rw [← hafter] at h
  rw [← htoken]
  exact reads_step (List.append_ne_nil_of_left_ne_nil hne _) hnone' h

/-- A token that takes all of a text and the line feed behind it leaves the pipe. -/
theorem reads_extended_last {l l' : Lexer} {tail : List Char} {kind : Token.Kind}
    (hstep : (l.extended ('\n' :: '|' :: tail)).step =
      .token l.modes kind (l.cursor.rest.length + 1))
    {tokens : List Token} {diagnostics : List Diagnostic}
    (h : Reads ⟨l.preview, ⟨'|' :: tail, l.cursor.position.after (l.cursor.rest ++ ['\n'])⟩,
      l.modes⟩ tokens diagnostics l') :
    Reads (l.extended ('\n' :: '|' :: tail))
      ((l.extended ('\n' :: '|' :: tail)).stepToken :: tokens) diagnostics l' := by
  have htake : (l.cursor.rest ++ '\n' :: '|' :: tail).take (l.cursor.rest.length + 1) =
      l.cursor.rest ++ ['\n'] := List.take_length_add_append 1
  have hafter : (l.extended ('\n' :: '|' :: tail)).afterStep =
      ⟨l.preview, ⟨'|' :: tail, l.cursor.position.after (l.cursor.rest ++ ['\n'])⟩, l.modes⟩ := by
    rw [afterStep, hstep]
    simp [extended, Text.Cursor.skip, htake, List.drop_append, Token.Step.token]
  rw [← hafter] at h
  exact reads_step (by simp [extended]) (by rw [stepDiagnostic?, hstep]; rfl) h

/-- The tokens of a text that is in order are kept in front of a line feed and a pipe. Blanks or a
line comment at its end take the line feed with them. -/
theorem reads_extended {l l' : Lexer} {tokens : List Token} (h : Reads l tokens [] l')
    (tail : List Char) (spaced : Bool) :
    ∃ position tokens₁, position.offset = l'.cursor.position.offset + 1 ∧
      (∀ ts, Lexeme.ofTokens spaced (tokens₁ ++ ts) =
        Lexeme.ofTokens spaced tokens ++ Lexeme.ofTokens true ts) ∧
      ∀ {ts ds l''}, Reads ⟨l.preview, ⟨'|' :: tail, position⟩, l'.modes⟩ ts ds l'' →
        Reads (l.extended ('\n' :: '|' :: tail)) (tokens₁ ++ ts) ds l'' := by
  generalize hnone : ([] : List Diagnostic) = diagnostics at h
  induction h generalizing spaced with
  | @done l hend =>
      -- The line feed is a blank of its own.
      obtain ⟨preview, ⟨rest, position⟩, modes⟩ := l
      obtain rfl : rest = [] := hend
      refine ⟨position.after ['\n'],
        [(extended ⟨preview, ⟨[], position⟩, modes⟩ ('\n' :: '|' :: tail)).stepToken], rfl,
        fun ts => ofTokens_trivia rfl spaced ts, fun hreads => ?_⟩
      exact reads_step (List.cons_ne_nil _ _) rfl hreads
  | @step l l' tokens diagnostics hne rest ih =>
      obtain ⟨hhead, rfl⟩ := List.append_eq_nil_iff.mp hnone.symm
      have hnone := Option.toList_eq_nil_iff.mp hhead
      rcases Token.step_lineFeed hne (l.step_kind_ne_error hnone)
          (fun hmore => step_kind_of_reads rest hmore) tail with
        hsame | ⟨kind, htrivia, hstep, hlonger⟩
      · -- The same token, and then the rest of the text.
        obtain ⟨position, tokens₁, hoffset, hlexemes, hreads⟩ := ih l.stepToken.isHidden rfl
        refine ⟨position, l.stepToken :: tokens₁, hoffset, fun ts => ?_, fun h =>
          reads_extended_step hne hnone hsame (hreads h)⟩
        have hbehind := hlexemes ts
        rw [List.cons_append, Lexeme.ofTokens, Lexeme.ofTokens]
        cases hhidden : l.stepToken.isHidden with
        | true =>
            rw [hhidden] at hbehind
            exact hbehind
        | false =>
            rw [hhidden] at hbehind
            simp only [Bool.false_eq_true, if_false, List.cons_append, hbehind]
      · -- The token at the end of the text takes the line feed with it.
        have hlonger : (l.extended ('\n' :: '|' :: tail)).step =
            .token l.modes kind (l.cursor.rest.length + 1) := hlonger
        have hstep : l.step = .token l.modes kind l.cursor.rest.length := hstep
        have hend : l.afterStep.cursor.rest = [] := by
          show l.cursor.rest.drop l.step.length = []
          rw [hstep]
          exact List.drop_length
        have hmodes : l.afterStep.modes = l.modes := by
          rw [afterStep, hstep]
          rfl
        obtain ⟨rfl, rfl⟩ := reads_end rest hend
        refine ⟨l.cursor.position.after (l.cursor.rest ++ ['\n']),
          [(l.extended ('\n' :: '|' :: tail)).stepToken], ?_, fun ts => ?_, fun h => ?_⟩
        · have htaken : l.cursor.rest.take l.step.length = l.cursor.rest := by
            rw [hstep]
            exact List.take_length
          rw [afterStep_offset, htaken, Nat.add_assoc]
          exact congrArg (l.cursor.position.offset + ·) (Text.byteLength_append _ _)
        · rw [List.singleton_append, ofTokens_trivia (by rw [hlonger]; exact htrivia),
            ofTokens_trivia (by rw [hstep]; exact htrivia)]
          rfl
        · rw [hmodes] at h
          exact reads_extended_last hlonger h

end Lexer

/-! ### The pipe -/

namespace ModeStack

/-- Only a bracket enters the default mode, the bottom frame apart. -/
def Guarded (m : ModeStack) : Prop :=
  ∀ frame ∈ m.above, frame.mode = .default → frame.bracket = true

/-- No token brings in the default mode. -/
theorem entered_ne_default {mode mode' : Mode} {kind : Token.Kind}
    (h : mode.entered kind = some mode') : mode' ≠ .default := by
  unfold Mode.entered at h
  split at h <;> cases h
  case h_1 verb => cases verb <;> exact Mode.noConfusion
  all_goals exact Mode.noConfusion

/-- Nor is any mode switched to it. -/
theorem switched_ne_default {mode mode' : Mode} {kind : Token.Kind}
    (h : mode.switched kind = some mode') : mode' ≠ .default := by
  unfold Mode.switched at h
  split at h <;> cases h <;> exact Mode.noConfusion

/-- A stack stays guarded when a mode is pushed. -/
theorem Guarded.push {m : ModeStack} (h : m.Guarded) {mode : Mode} (hmode : mode ≠ .default) :
    (m.push mode).Guarded := by
  intro frame hframe
  rcases List.mem_cons.mp hframe with rfl | hframe
  · exact fun heq => absurd heq hmode
  · exact h frame hframe

/-- It stays guarded when its mode is switched. -/
theorem Guarded.switch {m : ModeStack} (h : m.Guarded) {mode : Mode} (hmode : mode ≠ .default) :
    (m.switch mode).Guarded := by
  obtain ⟨above⟩ := m
  cases above with
  | nil => exact h.push hmode
  | cons top above =>
      intro frame hframe
      rcases List.mem_cons.mp hframe with rfl | hframe
      · exact fun heq => absurd heq hmode
      · exact h frame (List.mem_cons_of_mem _ hframe)

/-- It stays guarded behind every token. -/
theorem Guarded.behind {m : ModeStack} (h : m.Guarded) (kind : Token.Kind) :
    (m.behind kind).Guarded := by
  have hdropped : ∀ p : Frame → Bool, ∀ frame ∈ m.above.dropWhile p,
      frame.mode = .default → frame.bracket = true :=
    fun p frame hframe => h frame ((List.dropWhile_suffix p).subset hframe)
  cases kind with
  | pipe => exact hdropped _
  | openBracket =>
      intro frame hframe
      rcases List.mem_cons.mp hframe with rfl | hframe
      · exact fun _ => rfl
      · exact h frame hframe
  -- Closing takes frames off, and those that are left were there before.
  | closeBracket =>
      show (m.closeBracket).Guarded
      unfold closeBracket
      split
      · exact fun frame hframe => hdropped _ frame (List.mem_of_mem_tail hframe)
      · exact h
  | _ =>
      rw [behind_eq m rfl]
      split
      · exact h.push (entered_ne_default ‹_›)
      · exact h.switch (switched_ne_default ‹_›)
      · exact h

/-- Where no bracket is open, a pipe leaves all frames. -/
theorem Guarded.popToDefault_eq {m : ModeStack} (h : m.Guarded) (hclosed : m.unwind.above = []) :
    m.popToDefault = bottom := by
  have hbracket := List.dropWhile_eq_nil_iff.mp hclosed
  refine congrArg ModeStack.mk (List.dropWhile_eq_nil_iff.mpr fun frame hframe => ?_)
  rw [decide_eq_true_eq]
  intro hdefault
  have := hbracket frame hframe
  rw [h frame hframe hdefault] at this
  cases this

end ModeStack

namespace Lexer

/-- A run without diagnostics leaves a guarded stack guarded. -/
theorem guarded_of_reads {l l' : Lexer} {tokens : List Token} (h : Reads l tokens [] l')
    (hguarded : l.modes.Guarded) : l'.modes.Guarded := by
  generalize hnone : ([] : List Diagnostic) = diagnostics at h
  induction h with
  | done => exact hguarded
  | @step l l' tokens diagnostics hne rest ih =>
      obtain ⟨hhead, rfl⟩ := List.append_eq_nil_iff.mp hnone.symm
      have hkind := l.step_kind_ne_error (Option.toList_eq_nil_iff.mp hhead)
      refine ih ?_ rfl
      have haccounts := Token.step_accounts l.preview l.modes l.cursor.rest
      show l.step.modes.Guarded
      unfold step at hkind ⊢
      generalize Token.step l.preview l.modes l.cursor.rest = s at haccounts hkind
      cases haccounts with
      | error => exact absurd rfl hkind
      | trivia => exact hguarded
      | token => exact hguarded.behind _

section

variable {preview : Bool} {text : List Char} {position position' : Text.Position}
  {modes : ModeStack} {l' : Lexer} {tokens : List Token} {diagnostics : List Diagnostic} {k : Nat}

/-- A blank is taken with the blanks behind it. -/
theorem step_blank_cons :
    step ⟨preview, ⟨' ' :: text, position'⟩, modes⟩ =
      .token modes .whitespace (Token.Shape.run Text.isBlank text + 1) :=
  (Token.step_blank preview modes rfl).trans rfl

/-- A blank in front of a text leads to the place behind the blanks that the text itself has. -/
theorem afterStep_blank_cons
    (h : Reads ⟨preview, ⟨text, position⟩, modes⟩ tokens diagnostics l')
    (hposition : position'.offset + 1 = position.offset + k) :
    ∃ l ts, Reads l ts diagnostics l' ∧ Lexeme.ofTokens true tokens = Lexeme.ofTokens true ts ∧
      afterStep ⟨preview, ⟨' ' :: text, position'⟩, modes⟩ =
        l.relocated (afterStep ⟨preview, ⟨' ' :: text, position'⟩, modes⟩).cursor.position ∧
      (afterStep ⟨preview, ⟨' ' :: text, position'⟩, modes⟩).cursor.position.offset =
        l.cursor.position.offset + k := by
  have hoffset : (afterStep ⟨preview, ⟨' ' :: text, position'⟩, modes⟩).cursor.position.offset =
      position'.offset + 1 +
        Text.byteLength (text.take (Token.Shape.run Text.isBlank text)) := by
    rw [afterStep_offset, step_blank_cons, Token.Step.token_length, List.take_succ_cons,
      Text.byteLength_cons, ← Nat.add_assoc]
    rfl
  cases hstart : Token.Shape.startsWith Text.isBlank text with
  | false =>
      -- The text has no blanks at its start, so its own tokens follow.
      have hrun : Token.Shape.run Text.isBlank text = 0 := by
        simpa using Token.Shape.run_append (List.forall_mem_nil _) hstart
      rw [hrun] at hoffset
      refine ⟨_, tokens, h, rfl, ?_, hoffset.trans hposition⟩
      rw [afterStep, step_blank_cons, hrun]
      rfl
  | true =>
      -- The blanks of the text are a token of their own, and the others follow.
      have hstep : step ⟨preview, ⟨text, position⟩, modes⟩ =
          .token modes .whitespace (Token.Shape.run Text.isBlank text) :=
        Token.step_blank preview modes hstart
      cases h with
      | done hend => rw [show text = [] from hend] at hstart; cases hstart
      | @step _ _ ts ds hne rest =>
          refine ⟨afterStep ⟨preview, ⟨text, position⟩, modes⟩, ts, ?_,
            ofTokens_trivia (by rw [hstep]; rfl) true ts, ?_, ?_⟩
          · rw [stepDiagnostic?, hstep]
            exact rest
          · rw [afterStep, afterStep, step_blank_cons, hstep]
            rfl
          · rw [hoffset, afterStep_offset, hstep, Token.Step.token_length]
            show position'.offset + 1 + Text.byteLength (text.take _) =
              position.offset + Text.byteLength (text.take _) + k
            omega

/-- A blank in front of a text is a hidden token more, or makes the one in front of it longer. -/
theorem reads_blank (h : Reads ⟨preview, ⟨text, position⟩, modes⟩ tokens diagnostics l')
    (hposition : position'.offset + 1 = position.offset + k) :
    ∃ tokens' diagnostics' l'', Reads ⟨preview, ⟨' ' :: text, position'⟩, modes⟩ tokens'
        diagnostics' l'' ∧
      List.Forall₂ (Lexeme.Moved k) (Lexeme.ofTokens true tokens) (Lexeme.ofTokens false tokens') ∧
      (diagnostics' = [] ↔ diagnostics = []) ∧ l''.modes = l'.modes ∧
      l''.cursor.position.offset = l'.cursor.position.offset + k := by
  obtain ⟨l, ts, hreads, hlexemes, hafter, hoffset⟩ := afterStep_blank_cons h hposition
  obtain ⟨tokens', diagnostics', l'', hreads', hmoved, hnil, hmodes, hend⟩ :=
    reads_relocated hreads hoffset
  rw [← hafter] at hreads'
  refine ⟨_, diagnostics', l'', reads_step (List.cons_ne_nil _ _) ?_ hreads', ?_, hnil, hmodes,
    hend⟩
  · rw [stepDiagnostic?, step_blank_cons]
    rfl
  · rw [ofTokens_trivia (by rw [step_blank_cons]; rfl), hlexemes]
    exact Lexeme.moved_ofTokens hmoved true

end

/-- No error token is hidden, so the lexemes tell where the errors are. -/
theorem errorStarts_of_reads {l l' : Lexer} {tokens : List Token} {diagnostics : List Diagnostic}
    (h : Reads l tokens diagnostics l') (spaced : Bool) :
    (tokens.filter fun t => t.kind = .error).map (fun t => t.span.start) =
      ((Lexeme.ofTokens spaced tokens).filter fun x => x.token.kind = .error).map
        fun x => x.token.span.start := by
  induction h generalizing spaced with
  | done => rfl
  | @step l l' tokens diagnostics hne rest ih =>
      have hhidden : l.stepToken.isHidden = l.stepToken.kind.isTrivia := by
        rw [Token.isHidden, stepToken, Bool.eq_iff_iff, decide_eq_true_eq,
          Token.spanning_hidden_iff]
        rfl
      rw [Lexeme.ofTokens, hhidden]
      generalize l.stepToken = t
      by_cases herror : t.kind = .error
      · simp [herror, Token.Kind.isTrivia, ih false]
      · split
        · simpa [herror] using ih true
        · simpa [herror] using ih false

/-- The lexemes of a text in order that is piped into another text: those of the first, a pipe, and
those of the second, further on. -/
theorem reads_piped {preview : Bool} {t₁ t₂ : String} {tokens₁ tokens₂ : List Token}
    {diagnostics₂ : List Diagnostic} {l₁ l₂ : Lexer}
    (h₁ : Reads (ofText preview t₁) tokens₁ [] l₁) (hclosed : l₁.modes.unwind.above = [])
    (h₂ : Reads (ofText preview t₂) tokens₂ diagnostics₂ l₂) {k : Nat}
    (hk : k = Text.byteLength t₁.toList + 3) :
    ∃ tokens diagnostics l pipe w,
      Reads (ofText preview (t₁ ++ "\n| " ++ t₂)) tokens diagnostics l ∧
      pipe.token.kind = .pipe ∧
      Lexeme.ofTokens false tokens = Lexeme.ofTokens false tokens₁ ++ pipe :: w ∧
      List.Forall₂ (Lexeme.Moved k) (Lexeme.ofTokens true tokens₂) w ∧
      (diagnostics = [] ↔ diagnostics₂ = []) ∧ l.modes = l₂.modes ∧
      l.cursor.position.offset = l₂.cursor.position.offset + k := by
  obtain ⟨position, before, hoffset, hlexemes, hreads⟩ :=
    reads_extended h₁ (' ' :: t₂.toList) false
  have hend : l₁.cursor.position.offset = 0 + Text.byteLength t₁.toList := (Token.cut_of_reads h₁).2
  have hbottom : l₁.modes.popToDefault = .bottom :=
    (guarded_of_reads h₁ (fun _ h => nomatch h)).popToDefault_eq hclosed
  have hposition : (position.after ['|']).offset + 1 = (Text.Position.start).offset + k := by
    show position.offset + 1 + 1 = 0 + k
    omega
  obtain ⟨behind, diagnostics, l, hreads₂, hmoved, hnil, hmodes, hoffset₂⟩ :=
    reads_blank h₂ hposition
  -- The step over the pipe itself.
  have hpipe : Reads ⟨preview, ⟨'|' :: ' ' :: t₂.toList, position⟩, l₁.modes⟩
      (stepToken ⟨preview, ⟨'|' :: ' ' :: t₂.toList, position⟩, l₁.modes⟩ :: behind)
      diagnostics l := by
    refine reads_step (List.cons_ne_nil _ _) rfl ?_
    have hafter : afterStep ⟨preview, ⟨'|' :: ' ' :: t₂.toList, position⟩, l₁.modes⟩ =
        ⟨preview, ⟨' ' :: t₂.toList, position.after ['|']⟩, .bottom⟩ := by
      rw [← hbottom]
      rfl
    rw [hafter]
    exact hreads₂
  have htext : (ofText preview t₁).extended ('\n' :: '|' :: ' ' :: t₂.toList) =
      ofText preview (t₁ ++ "\n| " ++ t₂) := by
    simp [extended, ofText, Text.Cursor.ofText]
  refine ⟨_, diagnostics, l, ⟨stepToken ⟨preview, ⟨'|' :: ' ' :: t₂.toList, position⟩, l₁.modes⟩,
    true⟩, Lexeme.ofTokens false behind, htext ▸ hreads hpipe, rfl, ?_, hmoved, hnil, hmodes,
    hoffset₂⟩
  rw [hlexemes]
  rfl

end Lexer

end PipeQuery
