import Mathlib.Data.List.Chain
import PipeQuery.Proofs.Token.Reading

/-!
# `PipeQuery.Proofs.Token.Stack`: which frames stand on which

A mode stack can be any list of frames, but the lexer builds few of them. `Frame.standsOn` says what
may stand directly above what, and `ModeStack.IsShaped` that a whole stack is built so. Entering and
leaving frames keeps that, each where the lexer does it, so a token of the mode in force leaves a
shaped stack behind (`IsShaped.behind`). What is no token either leaves the stack alone or clears it
(`step_recovers`), and with that a step is done (`step_shaped`). `calls_keepShape` is the result,
for any number of calls from the start of a text.
-/

set_option autoImplicit false

namespace PipeQuery

/-! ### Frames -/

/-- The frame may stand directly above a frame of the mode `below`. -/
def Frame.standsOn (frame : Frame) (below : Mode) : Bool :=
  match frame.bracket, frame.mode with
  | true, .default => below = .explain
  | true, .expression => below = .expression
  | true, .sources => below = .sources
  | true, .setting => below = .enrich
  | true, _ => false
  | false, .enrichField => below = .enrich
  | false, .lookupField => below = .lookup
  | false, _ => below = .default

namespace ModeStack

/-- All frames, the top first and the one at the bottom last. -/
def frames (s : ModeStack) : List Frame :=
  s.above ++ [⟨.default, false⟩]

/-- At the bottom is an unmarked `default` frame, and each of the others may stand where it does. -/
structure IsShaped (s : ModeStack) : Prop where
  bottom : s.frames.getLast? = some ⟨.default, false⟩
  stands : s.frames.IsChain fun frame below => frame.standsOn below.mode = true

variable {s t : ModeStack} {frame : Frame} {rest : List Frame} {mode : Mode}

/-- A stack is shaped if its frames stand on one another; the lowest frame follows. -/
theorem isShaped_of_stands
    (h : s.frames.IsChain fun frame below => frame.standsOn below.mode = true) : s.IsShaped :=
  ⟨List.getLast?_concat, h⟩

/-- The stack with which the lexer begins is shaped. -/
theorem isShaped_bottom : bottom.IsShaped :=
  isShaped_of_stands (List.isChain_singleton _)

/-- The mode in force is that of the top frame. -/
theorem mode_eq_current (s : ModeStack) : ∀ frame ∈ s.frames.head?, frame.mode = s.current := by
  intro frame hframe
  obtain ⟨above⟩ := s
  cases above with
  | nil =>
      obtain rfl : ⟨.default, false⟩ = frame := Option.some.inj hframe
      rfl
  | cons top above =>
      obtain rfl : top = frame := Option.some.inj hframe
      rfl

/-- A stack is shaped just if its top frame stands on the mode below and the rest is shaped. -/
theorem isShaped_cons_iff :
    (⟨frame :: rest⟩ : ModeStack).IsShaped ↔
      frame.standsOn (⟨rest⟩ : ModeStack).current = true ∧ (⟨rest⟩ : ModeStack).IsShaped := by
  obtain ⟨below, hbelow⟩ : ∃ below, below ∈ (⟨rest⟩ : ModeStack).frames.head? := by
    cases rest <;> exact ⟨_, rfl⟩
  have hmode := mode_eq_current ⟨rest⟩ below hbelow
  have hchain : (⟨frame :: rest⟩ : ModeStack).frames = frame :: (⟨rest⟩ : ModeStack).frames := rfl
  constructor
  · intro h
    have hstands := h.stands
    rw [hchain, List.isChain_cons] at hstands
    exact ⟨hmode ▸ hstands.1 below hbelow, isShaped_of_stands hstands.2⟩
  · rintro ⟨hframe, hrest⟩
    refine isShaped_of_stands ?_
    rw [hchain, List.isChain_cons]
    exact ⟨fun other hother => by rwa [mode_eq_current _ other hother], hrest.stands⟩

/-- Leaving frames keeps the shape. -/
theorem IsShaped.of_suffix (h : s.IsShaped) (hsuffix : t.above <:+ s.above) : t.IsShaped := by
  obtain ⟨left, hleft⟩ := hsuffix
  refine isShaped_of_stands (h.stands.suffix ⟨left, ?_⟩)
  rw [frames, frames, ← hleft, List.append_assoc]

/-- Popping frames from a shaped stack, down to the default mode, leaves it shaped. -/
theorem IsShaped.popToDefault (h : s.IsShaped) : s.popToDefault.IsShaped :=
  h.of_suffix (List.dropWhile_suffix _)

/-- To unwind a shaped stack leaves it shaped, since frames are only taken off. -/
theorem IsShaped.unwind (h : s.IsShaped) : s.unwind.IsShaped :=
  h.of_suffix (List.dropWhile_suffix _)

/-- To close a bracket leaves a shaped stack shaped, whether the bracket was open or not. -/
theorem IsShaped.closeBracket (h : s.IsShaped) : s.closeBracket.IsShaped := by
  rw [ModeStack.closeBracket]
  split
  · exact h.of_suffix ((List.tail_suffix _).trans (List.dropWhile_suffix _))
  · exact h

/-- The frame that a source of `METRICS` replaces is never the one at the bottom. -/
theorem IsShaped.above_of_metrics (h : s.IsShaped)
    (hmode : s.current = .metrics ∨ s.current = .closingMetrics) :
    ∃ rest, s.above = ⟨s.current, false⟩ :: rest ∧ (⟨rest⟩ : ModeStack).current = .default := by
  obtain ⟨above⟩ := s
  cases above with
  | nil => rcases hmode with hmode | hmode <;> cases hmode
  | cons top rest =>
      obtain ⟨mode, bracket⟩ := top
      obtain ⟨hstands, -⟩ := isShaped_cons_iff.mp h
      have hmode : mode = .metrics ∨ mode = .closingMetrics := hmode
      have hbracket : bracket = false := by
        rcases hmode with rfl | rfl <;> cases bracket <;> first | rfl | cases hstands
      subst hbracket
      refine ⟨rest, rfl, ?_⟩
      rcases hmode with rfl | rfl <;> exact of_decide_eq_true hstands

/-- The modes of `METRICS` may be switched, as both stand where the next one may. -/
theorem IsShaped.switch (h : s.IsShaped)
    (hmode : s.current = .metrics ∨ s.current = .closingMetrics)
    (hnext : (⟨mode, false⟩ : Frame).standsOn .default = true) : (s.switch mode).IsShaped := by
  obtain ⟨rest, habove, hdefault⟩ := h.above_of_metrics hmode
  have hrest : (⟨rest⟩ : ModeStack).IsShaped :=
    h.of_suffix ⟨[⟨s.current, false⟩], habove.symm⟩
  rw [ModeStack.switch, habove]
  exact isShaped_cons_iff.mpr ⟨hdefault ▸ hnext, hrest⟩

/-- A pipe leaves a `default` frame on top. -/
theorem current_popToDefault (s : ModeStack) : s.popToDefault.current = .default := by
  have htop :=
    List.head?_dropWhile_not (fun frame : Frame => decide (frame.mode ≠ .default)) s.above
  rw [ModeStack.popToDefault]
  cases hleft : s.above.dropWhile fun frame => decide (frame.mode ≠ .default) with
  | nil => rfl
  | cons top rest =>
      rw [hleft] at htop
      show top.mode = .default
      simpa using htop

/-- At the end of a text a bracket frame is on top if one is left, and nothing else is left. -/
theorem unwind_cases (s : ModeStack) :
    s.hasBracket = false ∧ s.unwind = bottom ∨
      s.hasBracket = true ∧ ∃ mode rest, s.unwind.above = ⟨mode, true⟩ :: rest := by
  have htop := List.head?_dropWhile_not (fun frame : Frame => !frame.bracket) s.above
  cases hleft : s.above.dropWhile (fun frame => !frame.bracket) with
  | nil =>
      refine .inl ⟨?_, congrArg ModeStack.mk hleft⟩
      rw [hasBracket, List.any_eq_false]
      intro frame hframe
      simpa using List.dropWhile_eq_nil_iff.mp hleft frame hframe
  | cons top rest =>
      obtain ⟨mode, bracket⟩ := top
      rw [hleft] at htop
      obtain rfl : bracket = true := by simpa using htop
      refine .inr ⟨?_, mode, rest, hleft⟩
      rw [hasBracket, List.any_eq_true]
      have hmem : ⟨mode, true⟩ ∈ s.above.dropWhile fun frame => !frame.bracket :=
        hleft ▸ List.mem_cons_self
      exact ⟨⟨mode, true⟩, (List.dropWhile_suffix _).mem hmem, rfl⟩

end ModeStack

/-! ### Tokens -/

namespace Mode

/-- The mode that a token brings in may stand on the mode it is read in. -/
theorem standsOn_of_entered {mode next : Mode} {kind : Token.Kind}
    (h : mode.entered kind = some next) : (⟨next, false⟩ : Frame).standsOn mode = true := by
  unfold entered at h
  split at h
  case h_1 verb =>
    obtain rfl := Option.some.inj h
    cases verb <;> rfl
  all_goals
    cases h
    try rfl

/-- Only the modes of `METRICS` are switched, and what they are switched to stands on the default
mode. -/
theorem of_switched {mode next : Mode} {kind : Token.Kind} (h : mode.switched kind = some next) :
    (mode = .metrics ∨ mode = .closingMetrics) ∧
      (⟨next, false⟩ : Frame).standsOn .default = true := by
  unfold switched at h
  split at h
  all_goals
    cases h
    try exact ⟨by simp, rfl⟩

end Mode

namespace Token

/-- Brackets are opened in four modes, and each of them bears the mode of its brackets. -/
theorem Forms.standsOn_inBrackets {preview : Bool} {mode : Mode} {text : List Char}
    (h : Forms preview mode .openBracket text) :
    (⟨mode.inBrackets, true⟩ : Frame).standsOn mode = true := by
  generalize hkind : Kind.openBracket = kind at h
  cases h with
  | single h =>
      subst hkind
      unfold single? at h
      split at h
      all_goals first | rfl | cases h
  | operator h =>
      subst hkind
      unfold Step.operator? at h
      split at h
      all_goals cases h
  | number => split at hkind <;> cases hkind
  | @word mode text =>
      have hword := wordKind_isWord preview mode (String.ofList text)
      rw [← hkind] at hword
      cases hword
  | pipe | string | quotedName | anonymous | param | info => cases hkind

end Token

/-- A token of the mode in force leaves a shaped stack behind. -/
theorem ModeStack.IsShaped.behind {preview : Bool} {s : ModeStack} {kind : Token.Kind}
    {text : List Char} (h : s.IsShaped) (hforms : Token.Forms preview s.current kind text) :
    (s.behind kind).IsShaped := by
  cases hkind : kind.shifts with
  | true =>
      cases kind with
      | pipe => exact h.popToDefault
      | openBracket => exact isShaped_cons_iff.mpr ⟨hforms.standsOn_inBrackets, h⟩
      | closeBracket => exact h.closeBracket
      | _ => cases hkind
  | false =>
      rw [behind_eq s hkind]
      split
      · rename_i hentered
        exact isShaped_cons_iff.mpr ⟨Mode.standsOn_of_entered hentered, h⟩
      · rename_i hswitched
        obtain ⟨hmode, hnext⟩ := Mode.of_switched hswitched
        exact h.switch hmode hnext
      · exact h

/-! ### Steps -/

namespace Token

namespace Step

/-- Where something is wrong, the modes stay as they are or start over. -/
def Recovers (modes : ModeStack) (s : Step) : Prop :=
  s.cause ≠ none → s.modes = modes ∨ s.modes = .bottom

variable {modes modes' : ModeStack} {cs : List Char}

/-- A step that makes a token is no failure that has to be recovered from. -/
@[simp]
theorem token_recovers {kind : Kind} {length : Nat} : (token modes' kind length).Recovers modes :=
  fun h => absurd rfl h

/-- Nor is one that makes a token of one character. -/
@[simp]
theorem single_recovers {kind : Kind} : (single modes' kind).Recovers modes :=
  token_recovers

/-- Nor is one that opens a bracket. -/
@[simp]
theorem opening_recovers {mode : Mode} : (opening modes' mode).Recovers modes :=
  token_recovers

/-- Nor is one that closes a bracket. -/
@[simp]
theorem closing_recovers : (closing modes').Recovers modes :=
  token_recovers

/-- Nor is one that takes a parameter. -/
@[simp]
theorem parameter_recovers : (parameter modes' cs).Recovers modes :=
  token_recovers

/-- What begins no token is passed over in the modes that were there. -/
@[simp]
theorem unrecognized_recovers : (unrecognized modes cs).Recovers modes :=
  fun _ => .inl rfl

/-- A construct without its end resets the modes. -/
@[simp]
theorem unterminated_recovers {construct : Diagnostic.Enclosed} {length : Nat} :
    (unterminated modes construct length).Recovers modes :=
  fun _ => .inr rfl

/-- A word is a token, and where there is none the character is not recognised. -/
@[simp]
theorem word_recovers {length : Nat} {decide : String → Kind × ModeStack} :
    (word modes cs length decide).Recovers modes := by
  unfold word
  split <;> simp

/-- A pattern is a token, is open in its quotes or is not recognised. -/
@[simp]
theorem pattern_recovers {decide : String → Kind} : (pattern modes cs decide).Recovers modes := by
  unfold pattern
  split <;> simp

/-- A string is a token or an open one. -/
@[simp]
theorem quotedString_recovers : (quotedString modes cs).Recovers modes := by
  unfold quotedString
  dsimp only
  split
  · simp
  · exact fun _ => .inl rfl
  · simp

/-- A quoted name is a token or an open one. -/
@[simp]
theorem quotedIdentifier_recovers : (quotedIdentifier modes cs).Recovers modes := by
  unfold quotedIdentifier
  split <;> simp

/-- In an expression a failure keeps the modes or resets them. -/
theorem inExpression_recovers (preview : Bool) :
    (inExpression preview modes cs).Recovers modes := by
  unfold inExpression
  split
  case h_6 =>
    split
    · exact token_recovers
    · split
      · simp
      · split <;> simp
  all_goals simp

/-- In `METRICS` a failure keeps the modes or resets them. -/
theorem inMetrics_recovers : (inMetrics modes cs).Recovers modes := by
  unfold inMetrics
  dsimp only
  split
  · rename_i rest
    rcases quotedString_cases modes ('\x22' :: rest) with ⟨_, _, _, heq⟩ | ⟨-, heq⟩
    · rw [if_pos (by rw [heq])]
      exact quotedString_recovers
    · rw [heq]
      exact token_recovers
  · simp

/-- Behind the sources of `METRICS` a failure keeps the modes or resets them. -/
theorem inClosingMetrics_recovers : (inClosingMetrics modes cs).Recovers modes := by
  unfold inClosingMetrics
  dsimp only
  split
  case h_3 rest =>
    rcases quotedIdentifier_cases modes ('\x60' :: rest) with ⟨_, _, _, heq⟩ | ⟨_, -, heq⟩
    · rw [if_pos (by rw [heq])]
      exact quotedIdentifier_recovers
    · rw [heq]
      exact token_recovers
  all_goals simp

/-- In every mode a failure keeps the modes or resets them. -/
theorem inMode_recovers (preview : Bool) : (inMode preview modes cs).Recovers modes := by
  unfold inMode
  split
  · unfold inDefault; split <;> simp
  · exact inExpression_recovers preview
  · unfold inExplain; split <;> simp
  · unfold inSources; split <;> simp
  · unfold inProject; split <;> simp
  · unfold inRename; split <;> simp
  · unfold inEnrich; split <;> simp
  · unfold inEnrichField; split <;> simp
  · unfold inMvExpand; split <;> simp
  · unfold inInfo; split <;> simp
  · unfold inSetting; split <;> simp
  · unfold inLookup; split <;> simp
  · unfold inLookupField; split <;> simp
  · exact inMetrics_recovers
  · exact inClosingMetrics_recovers

end Step

variable {preview : Bool} {modes : ModeStack} {cs : List Char}

/-- A step that finds something wrong leaves the modes alone or lets them start over. -/
theorem step_recovers : (step preview modes cs).Recovers modes := by
  unfold step
  split
  · simp
  · unfold Step.blockComment
    split <;> simp
  · simp
  · split
    · simp
    · exact Step.inMode_recovers preview

/-- A step keeps the shape of the stack. -/
theorem step_shaped (h : modes.IsShaped) : (step preview modes cs).modes.IsShaped := by
  have haccounts := step_accounts preview modes cs
  have hrecovers : (step preview modes cs).Recovers modes := step_recovers
  generalize step preview modes cs = s at haccounts hrecovers
  cases haccounts with
  | error =>
      -- What an error leaves is not told by the token rules.
      rcases hrecovers (by simp) with hmodes | hmodes
      · rw [hmodes]; exact h
      · rw [hmodes]; exact ModeStack.isShaped_bottom
  | trivia => exact h
  | token _ hforms => exact h.behind hforms

/-- A pipe leaves the frames above the latest `default` one. -/
theorem step_pipe (h : (step preview modes cs).kind = .pipe) :
    (step preview modes cs).modes = modes.popToDefault := by
  have haccounts := step_accounts preview modes cs
  generalize step preview modes cs = s at haccounts h
  cases haccounts with
  | error => cases h
  | trivia _ htrivia =>
      obtain rfl : _ = Kind.pipe := h
      cases htrivia
  | token =>
      obtain rfl : _ = Kind.pipe := h
      rfl

end Token

/-! ### Calls -/

namespace Lexer

/-- The lexer behind so many calls. -/
def afterCalls (l : Lexer) : Nat → Lexer
  | 0 => l
  | n + 1 => (l.afterCalls n).next.2.2

/-- What a call does to the stack. -/
structure KeepsShape (l : Lexer) : Prop where
  shaped : l.next.2.2.modes.IsShaped
  /-- The modes in which a token replaces the top frame are not those of the bottom frame. -/
  replaced : l.modes.current = .metrics ∨ l.modes.current = .closingMetrics →
    ∃ rest, l.modes.above = ⟨l.modes.current, false⟩ :: rest ∧
      (⟨rest⟩ : ModeStack).current = .default
  pipe : l.next.1.kind = .pipe → l.next.2.2.modes.current = .default
  /-- At the end of the text the bottom frame is alone, or a bracket was left open and its frame is
  on top. -/
  ending : l.next.1.kind = .eof →
    l.modes.hasBracket = false ∧ l.next.2.2.modes = .bottom ∨
      l.modes.hasBracket = true ∧ ∃ mode rest, l.next.2.2.modes.above = ⟨mode, true⟩ :: rest

/-- A call on a lexer with a shaped stack keeps the shape. -/
theorem keepsShape_of_isShaped {l : Lexer} (h : l.modes.IsShaped) : l.KeepsShape := by
  by_cases hend : l.cursor.rest = []
  · have hnext := next_of_rest_eq_nil hend
    refine ⟨?_, h.above_of_metrics, ?_, ?_⟩ <;> rw [hnext]
    · exact h.unwind
    · intro hpipe
      cases hpipe
    · exact fun _ => l.modes.unwind_cases
  · have hnext := next_of_rest_ne_nil hend
    refine ⟨?_, h.above_of_metrics, ?_, ?_⟩ <;> rw [hnext]
    · exact Token.step_shaped h
    · intro hpipe
      have hmodes : l.step.modes = l.modes.popToDefault := Token.step_pipe hpipe
      show l.step.modes.current = .default
      rw [hmodes, ModeStack.current_popToDefault]
    · exact fun heof => absurd heof l.step_kind_ne_eof

/-- After any number of calls the stack is shaped if it was at the start. -/
theorem afterCalls_shaped {l : Lexer} (h : l.modes.IsShaped) (n : Nat) :
    (l.afterCalls n).modes.IsShaped := by
  induction n with
  | zero => exact h
  | succ n ih => exact (keepsShape_of_isShaped ih).shaped

/-- Every call on every text keeps the shape of the stack, with the preview verbs and without. -/
theorem calls_keepShape (preview : Bool) (text : String) (n : Nat) :
    ((ofText preview text).afterCalls n).KeepsShape :=
  keepsShape_of_isShaped (afterCalls_shaped ModeStack.isShaped_bottom n)

end Lexer

end PipeQuery
