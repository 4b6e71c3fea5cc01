import PipeQuery.Proofs.Token.Rule

/-!
# `PipeQuery.Proofs.Token.Taking`: the texts of a mode are taken as its tokens

`PipeQuery.Proofs.Token.Rule` says that a step takes nothing but the texts of the mode in force.
Here is the other direction: a text of the mode in force is taken, whole and as what it is, unless
the character behind it carries it on. `continues` says which characters do so, `Forms.step` that
nothing else does.
-/

set_option autoImplicit false

namespace PipeQuery.Token

open Shape (run startsWith IsWord IsNumber)

/-! ### What a word begins with -/

/-- The first characters of the words of a mode. -/
def beginsWord : Mode → Char → Bool
  | .default => Shape.isCommandChar
  | .expression | .mvExpand | .closingMetrics => fun c => c.isAlpha || Shape.isSigil c
  | .sources | .lookup | .metrics => fun c => !Shape.endsSource c
  | .project | .rename | .enrichField | .lookupField => Shape.carriesPattern
  | .enrich => Shape.isPolicyChar
  | .setting => Shape.isSettingChar
  | .explain | .info => fun _ => false

/-- A run that takes something begins with a character of its kind. -/
theorem startsWith_of_run {p : Char → Bool} {cs : List Char} (h : run p cs ≠ 0) :
    startsWith p cs = true := by
  cases cs with
  | nil => exact absurd rfl h
  | cons c cs =>
      cases hc : p c with
      | true => exact hc
      | false => exact absurd (by simp [run, hc]) h

/-- An identifier begins with a letter or a sigil. -/
theorem startsWith_of_identifier {cs : List Char} (h : Shape.identifier cs ≠ 0) :
    startsWith (fun c => c.isAlpha || Shape.isSigil c) cs = true := by
  cases hstart : startsWith (fun c => c.isAlpha || Shape.isSigil c) cs with
  | true => rfl
  | false =>
      cases cs with
      | nil => exact absurd rfl h
      | cons c cs =>
          obtain ⟨halpha, hsigil⟩ := Bool.or_eq_false_iff.mp hstart
          refine absurd ?_ h
          rw [Shape.identifier, if_neg (by simp [halpha])]
          exact Shape.sigilWord_eq_zero hsigil

/-- No name begins as a number does. -/
theorem not_beginsNumber {cs : List Char}
    (h : startsWith (fun c => c.isAlpha || Shape.isSigil c) cs = true) :
    Shape.beginsNumber cs = false := by
  cases cs with
  | nil => rfl
  | cons c cs =>
      rw [Shape.startsWith_cons] at h
      have hdigit : c.isDigit = false := by
        cases hc : c.isDigit with
        | false => rfl
        | true =>
            rw [Shape.not_isAlpha_of_isDigit hc, Bool.false_or] at h
            rcases Bool.or_eq_true_iff.mp h with hc' | hc'
            · rw [of_decide_eq_true hc'] at hc; exact absurd hc (by decide)
            · rw [of_decide_eq_true hc'] at hc; exact absurd hc (by decide)
      have hpoint : c ≠ '.' := by rintro rfl; exact absurd h (by decide)
      simp [Shape.beginsNumber, hdigit, hpoint]

/-- A policy begins with a character of policies. -/
theorem startsWith_of_policy {cs : List Char} (h : Shape.policy cs ≠ 0) :
    startsWith Shape.isPolicyChar cs = true := by
  refine startsWith_of_run fun hzero => h ?_
  simp only [Shape.policy, hzero]
  split <;> rfl

/-- A pattern begins with a character of patterns. -/
theorem startsWith_of_patternLength {cs : List Char} (h : patternLength cs ≠ 0) :
    startsWith Shape.carriesPattern cs = true := by
  cases hstart : startsWith Shape.carriesPattern cs with
  | true => rfl
  | false => exact absurd (by rw [patternLength, Shape.pattern_stop hstart]) h

/-- A source begins with a character that ends none. -/
theorem startsWith_of_source {cs : List Char} (h : Shape.source cs ≠ 0) :
    startsWith (fun c => !Shape.endsSource c) cs = true := by
  cases hstart : startsWith (fun c => !Shape.endsSource c) cs with
  | true => rfl
  | false => exact absurd (Shape.source_eq_zero hstart) h

/-- A word of any mode begins with a character that begins words in it. -/
theorem startsWith_of_scan {mode : Mode} {cs : List Char} (h : scan mode cs ≠ 0) :
    startsWith (beginsWord mode) cs = true := by
  cases mode with
  | default | setting => exact startsWith_of_run h
  | expression | mvExpand | closingMetrics => exact startsWith_of_identifier h
  | sources | lookup | metrics => exact startsWith_of_source h
  | project | rename | enrichField | lookupField => exact startsWith_of_patternLength h
  | enrich => exact startsWith_of_policy h
  | explain | info => exact absurd rfl h

/-! ### In front of the modes -/

/-- The text begins with neither a comment nor a pipe nor a blank, so the mode in force decides. -/
def plainStart : List Char → Bool
  | '/' :: '/' :: _ | '/' :: '*' :: _ | '|' :: _ => false
  | cs => !startsWith Text.isBlank cs

/-- Where neither a blank nor a comment starts, the step is that of the mode. -/
theorem step_eq_inMode (preview : Bool) (modes : ModeStack) {cs : List Char}
    (h : plainStart cs = true) : step preview modes cs = .inMode preview modes cs := by
  unfold step
  split
  · cases h
  · cases h
  · cases h
  · rename_i hline hblock hpipe
    rw [plainStart] at h
    · rw [if_neg (by simpa using h)]
    · exact hline
    · exact hblock
    · exact hpipe

/-- In front of a blank a step passes over all blanks. -/
theorem step_blank (preview : Bool) (modes : ModeStack) {cs : List Char}
    (h : startsWith Text.isBlank cs = true) :
    step preview modes cs = .token modes .whitespace (run Text.isBlank cs) := by
  unfold step
  split
  · cases h
  · cases h
  · cases h
  · rw [if_pos h]

/-- A text that begins with a character of a class without slash, pipe and blanks. -/
theorem plainStart_of_startsWith {p : Char → Bool} (hslash : p '/' = false) (hpipe : p '|' = false)
    (hblank : [' ', '\t', '\r', '\n'].any p = false) {cs : List Char}
    (h : startsWith p cs = true) : plainStart cs = true := by
  unfold plainStart
  split
  · rw [Shape.startsWith_cons, hslash] at h
    cases h
  · rw [Shape.startsWith_cons, hslash] at h
    cases h
  · rw [Shape.startsWith_cons, hpipe] at h
    cases h
  · cases cs with
    | nil => cases h
    | cons c cs =>
        rw [Shape.startsWith_cons] at h ⊢
        cases hc : Text.isBlank c with
        | false => rfl
        | true =>
            have hmem : c ∈ [' ', '\t', '\r', '\n'] := by
              simpa [Text.isBlank, or_assoc] using hc
            exact absurd h (List.any_eq_false.mp hblank c hmem)

/-- A source starts neither a blank nor a comment. -/
theorem plainStart_of_source {cs : List Char} (h : Shape.source cs ≠ 0) : plainStart cs = true := by
  have hstart := startsWith_of_source h
  unfold plainStart
  split
  · exact absurd (by rw [Shape.source]; rfl) h
  · exact absurd (by rw [Shape.source]; rfl) h
  · cases hstart
  · cases cs with
    | nil => rfl
    | cons c cs =>
        rw [Shape.startsWith_cons] at hstart ⊢
        cases hc : Text.isBlank c with
        | false => rfl
        | true => simp [Shape.endsSource, hc] at hstart

/-- Nor does a word of any mode. -/
theorem plainStart_of_scan {mode : Mode} {cs : List Char} (h : scan mode cs ≠ 0) :
    plainStart cs = true := by
  have hstart := startsWith_of_scan h
  cases mode with
  | sources | lookup | metrics => exact plainStart_of_source h
  | _ => exact plainStart_of_startsWith rfl rfl rfl hstart

/-! ### Words -/

section

variable {preview : Bool} {modes : ModeStack} {mode : Mode} {kind : Kind} {cs text rest : List Char}

/-- The word of a mode makes the token that `made` decides from its text. -/
theorem word_made (hpos : scan mode cs ≠ 0) {decide : String → Kind × ModeStack}
    (hdecide : ∀ text, decide text = made preview modes text) :
    Step.word modes cs (scan mode cs) decide =
      .token (made preview modes (String.ofList (cs.take (scan mode cs)))).2
        (made preview modes (String.ofList (cs.take (scan mode cs)))).1 (scan mode cs) := by
  rw [Step.word, if_neg hpos, hdecide]

/-- So does the pattern of a mode that has patterns. -/
theorem pattern_made (hscan : scan mode = patternLength) (hpos : scan mode cs ≠ 0)
    {decide : String → Kind} (hdecide : ∀ text, (decide text, modes) = made preview modes text) :
    Step.pattern modes cs decide =
      .token (made preview modes (String.ofList (cs.take (scan mode cs)))).2
        (made preview modes (String.ofList (cs.take (scan mode cs)))).1 (scan mode cs) := by
  unfold Step.pattern
  cases h : Shape.pattern cs with
  | unterminated => exact absurd (by rw [hscan, patternLength, h]) hpos
  | whole length =>
      have hlength : length = scan mode cs := by rw [hscan, patternLength, h]
      rw [hlength]
      exact word_made hpos hdecide

/-- Where a word of the mode in force begins, it is taken. -/
theorem inMode_word (hpos : scan modes.current cs ≠ 0) :
    Step.inMode preview modes cs =
      .token (made preview modes (String.ofList (cs.take (scan modes.current cs)))).2
        (made preview modes (String.ofList (cs.take (scan modes.current cs)))).1
        (scan modes.current cs) := by
  have hstart := startsWith_of_scan hpos
  unfold Step.inMode
  -- In each mode the first character is none of those that begin another token.
  cases hmode : modes.current with
  | default =>
      rw [hmode] at hpos hstart
      dsimp only [Step.inDefault]
      split
      · cases hstart
      · exact word_made hpos (made_default hmode)
  | expression =>
      rw [hmode] at hpos hstart
      dsimp only [Step.inExpression]
      split
      case h_6 =>
        have hnumber : Shape.beginsNumber cs = false := not_beginsNumber hstart
        have hname : startsWith (fun c => c.isAlpha || Shape.isSigil c) cs = true := hstart
        rw [Shape.beginsNumber] at hnumber
        rw [if_neg (by rw [hnumber]; simp), if_pos hname]
        exact word_made hpos (made_expression hmode)
      all_goals cases hstart
  | sources =>
      rw [hmode] at hpos hstart
      dsimp only [Step.inSources]
      split
      case h_7 => exact word_made hpos (made_of_isSteady hmode rfl)
      all_goals cases hstart
  | project =>
      rw [hmode] at hpos hstart
      dsimp only [Step.inProject]
      split
      case h_4 => exact pattern_made rfl hpos (made_of_isSteady hmode rfl)
      all_goals cases hstart
  | rename =>
      rw [hmode] at hpos hstart
      dsimp only [Step.inRename]
      split
      case h_5 => exact pattern_made rfl hpos (made_of_isSteady hmode rfl)
      all_goals cases hstart
  | enrich =>
      rw [hmode] at hpos hstart
      dsimp only [Step.inEnrich]
      split
      · cases hstart
      · exact word_made hpos (made_enrich hmode)
  | enrichField =>
      rw [hmode] at hpos hstart
      dsimp only [Step.inEnrichField]
      split
      case h_5 => exact pattern_made rfl hpos (made_of_isSteady hmode rfl)
      all_goals cases hstart
  | mvExpand =>
      rw [hmode] at hpos hstart
      dsimp only [Step.inMvExpand]
      split
      case h_4 => exact word_made hpos (made_of_isSteady hmode rfl)
      all_goals cases hstart
  | setting =>
      rw [hmode] at hpos hstart
      dsimp only [Step.inSetting]
      split
      case h_3 => exact word_made hpos (made_of_isSteady hmode rfl)
      all_goals cases hstart
  | lookup =>
      rw [hmode] at hpos hstart
      dsimp only [Step.inLookup]
      split
      case h_4 => exact word_made hpos (made_lookup hmode)
      all_goals cases hstart
  | lookupField =>
      rw [hmode] at hpos hstart
      dsimp only [Step.inLookupField]
      split
      case h_3 => exact pattern_made rfl hpos (made_of_isSteady hmode rfl)
      all_goals cases hstart
  | metrics =>
      rw [hmode] at hpos hstart
      dsimp only [Step.inMetrics]
      split
      · cases hstart
      · exact word_made hpos (made_metrics hmode)
  | closingMetrics =>
      rw [hmode] at hpos hstart
      dsimp only [Step.inClosingMetrics]
      split
      case h_4 => exact word_made hpos (made_closingMetrics hmode)
      all_goals cases hstart
  | explain | info =>
      rw [hmode] at hpos
      exact absurd rfl hpos

/-! ### Texts -/

/-- The characters that carry on a text of a mode that is a token of some kind. -/
def continues (mode : Mode) (kind : Kind) (c : Char) : Bool :=
  match kind with
  | .quotedString => c = '\x22'
  | .quotedIdentifier => c = '\x60'
  | .anonymousParam | .param => Shape.isNameChar c
  | .integer | .decimal => Shape.carriesNumber c
  | .assign => c = '=' || c = '~'
  | .lt | .gt => c = '='
  | .slash => c = '/' || c = '*'
  | .dot => c.isDigit || (mode = .lookup && carries mode c)
  | kind => kind.isWord && carries mode c

/-- A word is carried on by the characters that carry words in its mode; the dot alone is not. -/
theorem continues_of_isWord {kind : Kind} (hword : kind.isWord = true) (hdot : kind ≠ .dot)
    (mode : Mode) (c : Char) : continues mode kind c = carries mode c := by
  cases kind <;> first | exact absurd rfl hdot | simp_all [continues, Kind.isWord]

/-- The lexer takes a whole word in front of a text that does not carry it on. -/
theorem step_word (h : IsWord (scan modes.current) (carries modes.current) text)
    (hrest : startsWith (carries modes.current) rest = false) :
    step preview modes (text ++ rest) =
      .token (modes.behind (wordKind preview modes.current (String.ofList text)))
        (wordKind preview modes.current (String.ofList text)) text.length := by
  have hlength := h.length_append rest hrest
  have hpos : scan modes.current (text ++ rest) ≠ 0 := by
    rw [hlength]
    exact fun hzero => h.ne_nil (List.length_eq_zero_iff.mp hzero)
  rw [step_eq_inMode preview modes (plainStart_of_scan hpos), inMode_word hpos, hlength,
    List.take_left]
  rfl

/-- The lexer takes a character that is a token of its own, whatever stands behind. -/
theorem step_single {c : Char} (h : single? modes.current c = some kind) :
    step preview modes (c :: rest) = .token (modes.behind kind) kind 1 := by
  unfold single? at h
  split at h
  all_goals simp only [Option.some.injEq, reduceCtorEq] at h
  all_goals
    rename_i hmode
    subst h
    simp [step, Step.inMode, hmode, Text.isBlank, Step.inDefault, Step.inExpression,
      Step.inExplain, Step.inSources, Step.inProject, Step.inRename, Step.inEnrich,
      Step.inEnrichField, Step.inMvExpand, Step.inSetting, Step.inLookup, Step.inLookupField,
      Step.inClosingMetrics, Step.single, Step.opening, Step.closing, ModeStack.behind,
      Mode.inBrackets, Mode.entered, Mode.switched]

/-- In an expression only the shifting tokens move the stack. -/
theorem behind_expression (hmode : modes.current = .expression) (h : kind.shifts = false) :
    modes.behind kind = modes :=
  ModeStack.behind_of_isSteady (by rw [hmode]; rfl) h

/-- The lexer takes a whole operator in front of a text that does not carry it on. -/
theorem step_operator (hmode : modes.current = .expression)
    (h : Step.operator? text = some (kind, text.length))
    (hrest : startsWith (continues .expression kind) rest = false) :
    step preview modes (text ++ rest) = .token (modes.behind kind) kind text.length := by
  unfold Step.operator? at h
  split at h
  all_goals simp only [Option.some.injEq, Prod.mk.injEq, reduceCtorEq] at h
  all_goals
    obtain ⟨rfl, hlength⟩ := h
    rw [behind_expression hmode rfl]
    simp only [List.length_cons, Nat.right_eq_add, List.length_eq_zero_iff] at hlength
    subst hlength
    cases rest <;>
      simp_all [step, Step.inMode, Text.isBlank, Step.inExpression, Step.operator?, continues,
        Shape.isSigil, Kind.isWord]

/-- The lexer takes a whole string in front of a text that does not begin with a quote. -/
theorem step_string (hmode : hasStrings modes.current = true) (h : Text.Quoted.IsLiteral text)
    (hrest : startsWith (· = '\x22') rest = false) :
    step preview modes (text ++ rest) =
      .token (modes.behind .quotedString) .quotedString text.length := by
  have hextent := h.extent_append rest hrest
  have hopened := h.opened
  cases text with
  | nil => cases hopened
  | cons c text =>
      obtain rfl : c = '\x22' := by simpa using hopened
      have hquoted : Step.quotedString modes ('\x22' :: (text ++ rest)) =
          .token modes .quotedString ('\x22' :: text).length := by
        rw [List.cons_append] at hextent
        rw [Step.quotedString, hextent]
      cases hcurrent : modes.current with
      | expression | sources | lookup | metrics =>
          simp [step, Step.inMode, hcurrent, Text.isBlank, Step.inExpression, Step.inSources,
            Step.inLookup, Step.inMetrics, hquoted, ModeStack.behind, Mode.entered, Mode.switched,
            Step.token]
      | _ => rw [hcurrent] at hmode; cases hmode

/-- The lexer takes a whole quoted name in front of a text that does not begin with a backquote. -/
theorem step_quotedName (hmode : hasQuotedNames modes.current = true)
    (h : Text.Backquoted.length? text = some text.length) (hopened : text.head? = some '\x60')
    (hrest : startsWith (· = '\x60') rest = false) :
    step preview modes (text ++ rest) =
      .token (modes.behind .quotedIdentifier) .quotedIdentifier text.length := by
  have hlength := Text.Backquoted.length?_cut h hrest
  rw [List.take_length] at hlength
  cases text with
  | nil => cases hopened
  | cons c text =>
      obtain rfl : c = '\x60' := by simpa using hopened
      have hquoted : Step.quotedIdentifier modes ('\x60' :: (text ++ rest)) =
          .token modes .quotedIdentifier ('\x60' :: text).length := by
        rw [List.cons_append] at hlength
        rw [Step.quotedIdentifier, hlength]
      cases hcurrent : modes.current with
      | expression | mvExpand | closingMetrics =>
          simp [step, Step.inMode, hcurrent, Text.isBlank, Step.inExpression, Step.inMvExpand,
            Step.inClosingMetrics, hquoted, ModeStack.behind, Mode.entered, Mode.switched,
            Step.token]
      | _ => rw [hcurrent] at hmode; cases hmode

/-- The lexer takes a parameter from its mark on. -/
theorem step_parameter (hmode : hasParameters modes.current = true) :
    step preview modes ('?' :: rest) = .parameter modes ('?' :: rest) := by
  cases hcurrent : modes.current with
  | expression | project | rename | enrichField | mvExpand =>
      simp [step, Step.inMode, hcurrent, Text.isBlank, Step.inExpression, Step.inProject,
        Step.inRename, Step.inEnrichField, Step.inMvExpand]
  | _ => rw [hcurrent] at hmode; cases hmode

/-- Parameters stand in modes whose stack only shifting tokens move. -/
theorem behind_parameter (hmode : hasParameters modes.current = true) (h : kind.shifts = false) :
    modes.behind kind = modes := by
  refine ModeStack.behind_of_isSteady ?_ h
  cases hcurrent : modes.current <;> first | rfl | (rw [hcurrent] at hmode; cases hmode)

/-- Where a number begins, expressions take it. -/
theorem inExpression_number (h : Shape.beginsNumber cs = true) :
    Step.inExpression preview modes cs = .number modes cs := by
  unfold Step.inExpression
  split
  case h_6 => exact if_pos h
  all_goals exact absurd h (by simp [Shape.beginsNumber])

/-- So does the step, since a number begins neither a comment nor a pipe nor a blank. -/
theorem step_eq_number (hmode : modes.current = .expression) (h : Shape.beginsNumber cs = true) :
    step preview modes cs = .number modes cs := by
  have hplain : plainStart cs = true := by
    refine plainStart_of_startsWith rfl rfl rfl
      (show startsWith (fun c => c.isDigit || c = '.') cs = true from ?_)
    rw [Shape.startsWith_or]
    rcases Bool.or_eq_true_iff.mp h with hdigit | hpoint
    · rw [hdigit]
      rfl
    · rw [(Bool.and_eq_true_iff.mp hpoint).1, Bool.or_true]
  rw [step_eq_inMode preview modes hplain, Step.inMode, hmode]
  exact inExpression_number h

/-- The lexer takes a whole number in front of a text that does not carry it on. -/
theorem step_number {n : Shape.Number} (hmode : modes.current = .expression)
    (hstart : Shape.beginsNumber text = true) (h : IsNumber n text)
    (hrest : startsWith Shape.carriesNumber rest = false) :
    step preview modes (text ++ rest) =
      .token (modes.behind (if n.isDecimal then .decimal else .integer))
        (if n.isDecimal then .decimal else .integer) text.length := by
  rw [behind_expression hmode (by split <;> rfl),
    step_eq_number hmode (Shape.beginsNumber_append hstart rest), Step.number,
    h.number_append rest hrest, h.length_eq]

/-- The lexer takes the word `INFO` of a `SHOW`. -/
theorem step_info (hmode : modes.current = .info)
    (h : Step.spells (String.ofList text) .info = true) (hlength : text.length = 4)
    (hrest : startsWith Shape.isNameChar rest = false) :
    step preview modes (text ++ rest) =
      .token (modes.behind (.keyword .info)) (.keyword .info) text.length := by
  have hplain : plainStart (text ++ rest) = true := by
    refine plainStart_of_startsWith rfl rfl rfl
      (show startsWith (fun c => c.toUpper = 'I') (text ++ rest) = true from ?_)
    cases text with
    | nil => cases hlength
    | cons c text =>
        have hupper := congrArg String.toList (of_decide_eq_true h)
        simp only [Text.upper, String.toList_ofList, List.map_cons] at hupper
        exact decide_eq_true (List.cons.inj hupper).1
  have htake : (text ++ rest).take 4 = text := by rw [← hlength, List.take_left]
  have hdrop : (text ++ rest).drop 4 = rest := by rw [← hlength, List.drop_left]
  rw [ModeStack.behind_of_isSteady (by rw [hmode]; rfl) rfl,
    step_eq_inMode preview modes hplain, Step.inMode, hmode]
  dsimp only
  rw [Step.inInfo, htake, hdrop, h, hrest, hlength]
  rfl

/-- What carries a word carries on the token that is made of it. -/
theorem continues_wordKind (preview : Bool) (mode : Mode) (text : String) :
    ∀ c, carries mode c = true → continues mode (wordKind preview mode text) c = true := by
  intro c hc
  have hword := wordKind_isWord preview mode text
  -- Only one mode makes a dot of a word, and there a dot goes on as a word does.
  have hdot : wordKind preview mode text = .dot → mode = .lookup := by
    cases mode with
    | lookup => exact fun _ => rfl
    | default =>
        simp only [wordKind]
        cases Verb.ofWord? text with
        | none => rintro ⟨⟩
        | some verb =>
            simp only
            split <;> rintro ⟨⟩
    | expression =>
        simp only [wordKind]
        cases Keyword.ofWord? text with
        | some keyword => rintro ⟨⟩
        | none =>
            simp only
            split <;> rintro ⟨⟩
    | _ =>
        simp only [wordKind]
        repeat' split
        all_goals rintro ⟨⟩
  generalize wordKind preview mode text = kind at hword hdot
  cases kind with
  | dot => simp [continues, hdot rfl ▸ hc, hdot rfl]
  | _ => first | exact absurd hword (by decide) | simp [continues, hc, Kind.isWord]

/-- A text of the mode in force is taken as its token, if nothing behind it carries it on. -/
theorem Forms.step (h : Forms preview modes.current kind text)
    (hrest : startsWith (continues modes.current kind) rest = false) :
    Token.step preview modes (text ++ rest) = .token (modes.behind kind) kind text.length := by
  generalize hmode : modes.current = mode at h hrest
  cases h with
  | pipe => rfl
  | single h => exact step_single (hmode ▸ h)
  | operator h => exact step_operator hmode h hrest
  | string hstrings h => exact step_string (hmode ▸ hstrings) h hrest
  | quotedName hnames h hopened => exact step_quotedName (hmode ▸ hnames) h hopened hrest
  | anonymous hparameters =>
      have hparameters : hasParameters modes.current = true := hmode ▸ hparameters
      -- A bare question mark: a name or digits behind it would have been part of the token.
      have hzero : Shape.parameter rest = 0 := by
        have hdigit : startsWith Char.isDigit rest = false :=
          Shape.startsWith_mono (fun c hc => Shape.isNameChar_of_isDigit hc) hrest
        cases rest with
        | nil => rfl
        | cons c rest =>
            have hname : (c.isAlpha || c = '_') = false := by
              simp_all [continues, Shape.isNameChar, Char.isAlphanum]
            rw [Shape.parameter, Shape.startsWith_cons, if_neg (by simp [hname])]
            rw [Shape.startsWith_cons] at hdigit
            simp [run, hdigit]
      rw [List.singleton_append, step_parameter hparameters, behind_parameter hparameters rfl]
      simp [Step.parameter, hzero]
  | @param _ body hparameters h =>
      have hparameters : hasParameters modes.current = true := hmode ▸ hparameters
      have hlength : Shape.parameter (body ++ rest) = body.length := h.length_append rest hrest
      have hne : body.length ≠ 0 := fun hzero => h.ne_nil (List.length_eq_zero_iff.mp hzero)
      rw [List.cons_append, step_parameter hparameters, behind_parameter hparameters rfl]
      simp [Step.parameter, hlength, h.ne_nil]
  | @number n _ hstart h =>
      refine step_number hmode hstart h (Shape.startsWith_mono (fun c hc => ?_) hrest)
      cases n.isDecimal <;> exact hc
  | word h =>
      subst hmode
      exact step_word h (Shape.startsWith_mono (continues_wordKind preview _ _) hrest)
  | info h hlength => exact step_info hmode h hlength hrest

/-- No text of a mode begins with a blank: the step would pass over it. -/
theorem Forms.not_blank (h : Forms preview mode kind text) : startsWith Text.isBlank text = false := by
  cases hblank : startsWith Text.isBlank text with
  | false => rfl
  | true =>
      have hregular := h.isRegular
      have hmode : (ModeStack.bottom.push mode).current = mode := rfl
      rw [← hmode] at h
      have hstep := h.step (Shape.startsWith_nil _)
      rw [List.append_nil, step_blank _ _ hblank] at hstep
      obtain rfl : .whitespace = kind := congrArg Step.kind hstep
      cases hregular

/-- A token of a mode is neither blank nor comment. -/
theorem Forms.not_isTrivia (h : Forms preview mode kind text) : ¬ kind.isTrivia = true := by
  intro htrivia
  have hregular := h.isRegular
  cases kind <;> simp_all [Kind.isTrivia, Kind.isRegular]

/-- The text of a token is not empty. -/
theorem Forms.ne_nil (h : Forms preview mode kind text) : text ≠ [] := by
  cases h with
  | operator h => rintro rfl; cases h
  | string _ h => rintro rfl; cases h.opened
  | quotedName _ _ h => rintro rfl; cases h
  | number h _ => rintro rfl; cases h
  | word h => exact h.ne_nil
  | info _ h => rintro rfl; cases h
  | pipe | single | anonymous | param => exact List.cons_ne_nil _ _

end

end PipeQuery.Token
