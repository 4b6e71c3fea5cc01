import PipeQuery.Proofs.Token.Literal
import PipeQuery.Proofs.Token.Source
import PipeQuery.Token.Step

/-!
# `PipeQuery.Proofs.Token.Rule`: what one step of the lexer can do

A step makes an error token, passes over a blank or a comment, or takes a text that is a token of
the mode in force. `Forms` says which texts are tokens of a mode, whatever stands around them, and
`ModeStack.behind` which modes a token leaves behind. `step_accounts` proves that there is nothing
else, and `Forms.step` that the texts of a mode are taken as its tokens.
-/

set_option autoImplicit false

namespace PipeQuery

/-! ### The modes behind a token -/

namespace Mode

/-- The mode that a `[` enters. -/
def inBrackets : Mode → Mode
  | .explain => .default
  | .sources => .sources
  | .enrich => .setting
  | _ => .expression

/-- The mode that a token enters without leaving the one in force. -/
def entered : Mode → Token.Kind → Option Mode
  | .default, .command verb => some verb.mode
  | .default, .unknownCommand => some .expression
  | .enrich, .keyword .on | .enrich, .keyword .«with» => some .enrichField
  | .lookup, .keyword .on => some .lookupField
  | _, _ => none

/-- The mode that a token puts in the place of the one in force. -/
def switched : Mode → Token.Kind → Option Mode
  | .metrics, _ => some .closingMetrics
  | .closingMetrics, .colon | .closingMetrics, .comma => some .metrics
  | .closingMetrics, _ => some .expression
  | _, _ => none

/-- Tokens leave the mode in force, brackets and pipes apart. -/
def isSteady : Mode → Bool
  | .default | .enrich | .lookup | .metrics | .closingMetrics => false
  | _ => true

end Mode

/-- Tokens of this kind leave frames or enter some whatever the mode. -/
def Token.Kind.shifts : Token.Kind → Bool
  | .pipe | .openBracket | .closeBracket => true
  | _ => false

namespace ModeStack

/-- The modes behind a token that is neither a blank nor a comment. -/
def behind (s : ModeStack) (kind : Token.Kind) : ModeStack :=
  match kind with
  | .pipe => s.popToDefault
  | .openBracket => s.pushBracket s.current.inBrackets
  | .closeBracket => s.closeBracket
  | kind =>
    match s.current.entered kind, s.current.switched kind with
    | some mode, _ => s.push mode
    | none, some mode => s.switch mode
    | none, none => s

/-- A token that is no word, comma or bracket of its own kind moves the stack by `entered` or by
`switched`, never by both. -/
theorem behind_eq (s : ModeStack) {kind : Token.Kind} (h : kind.shifts = false) :
    s.behind kind = match s.current.entered kind, s.current.switched kind with
      | some mode, _ => s.push mode
      | none, some mode => s.switch mode
      | none, none => s := by
  cases kind <;> first | rfl | cases h

/-- In a steady mode only brackets and pipes change the modes. -/
theorem behind_of_isSteady {s : ModeStack} (hsteady : s.current.isSteady = true)
    {kind : Token.Kind} (h : kind.shifts = false) : s.behind kind = s := by
  rw [behind_eq s h]
  cases hmode : s.current with
  | default | enrich | lookup | metrics | closingMetrics => rw [hmode] at hsteady; cases hsteady
  | _ => rfl

end ModeStack

namespace Token

open Shape (run startsWith IsWord IsPattern IsNumber Scans)

/-! ### The texts of a mode -/

/-- The length of the field pattern at the start of a text, zero if it is left open. -/
def patternLength (cs : List Char) : Nat :=
  match Shape.pattern cs with
  | .whole length => length
  | .unterminated => 0

/-- The scanner of the words of a mode. -/
def scan : Mode → List Char → Nat
  | .default => run Shape.isCommandChar
  | .expression | .mvExpand | .closingMetrics => Shape.identifier
  | .sources | .lookup | .metrics => Shape.source
  | .project | .rename | .enrichField | .lookupField => patternLength
  | .enrich => Shape.policy
  | .setting => run Shape.isSettingChar
  | .explain | .info => fun _ => 0

/-- The characters that carry a word of a mode on. -/
def carries : Mode → Char → Bool
  | .default => Shape.isCommandChar
  | .expression | .mvExpand | .closingMetrics => fun c => Shape.isNameChar c || Shape.isSigil c
  | .sources | .lookup | .metrics => fun c => !Shape.endsSource c
  | .project | .rename | .enrichField | .lookupField => Shape.carriesPattern
  | .enrich => Shape.carriesPolicy
  | .setting => Shape.isSettingChar
  | .explain | .info => Shape.isNameChar

/-- What a word of a mode is. -/
def wordKind (preview : Bool) : Mode → String → Kind
  | .default, text =>
    match Verb.ofWord? text with
    | some verb => if verb.isPreview && !preview then .unknownCommand else .command verb
    | none => .unknownCommand
  | .expression, text =>
    match Keyword.ofWord? text with
    | some keyword => .keyword keyword
    | none =>
      if preview && Text.sameWord text Verb.«match».text then .command .«match» else .identifier
  | .sources, text => if Step.spells text .metadata then .keyword .metadata else .source
  | .project, _ | .lookupField, _ => .pattern
  | .rename, text => if Step.spells text .as then .keyword .as else .pattern
  | .enrich, text =>
    if Step.spells text .on then .keyword .on
    else if Step.spells text .«with» then .keyword .«with»
    else .policy
  | .enrichField, text => if Step.spells text .«with» then .keyword .«with» else .pattern
  | .mvExpand, _ => .identifier
  | .setting, _ => .setting
  | .lookup, text =>
    if text = "." then .dot else if Step.spells text .on then .keyword .on else .source
  | .metrics, _ => .source
  | .closingMetrics, text => if Step.spells text .«by» then .keyword .«by» else .identifier
  | .explain, _ | .info, _ => .keyword .info

/-- The kinds of words. -/
def Kind.isWord : Kind → Bool
  | .command _ | .unknownCommand | .keyword _ | .identifier | .source | .pattern | .policy
  | .setting | .dot => true
  | _ => false

/-- What `wordKind` gives is a word's kind in every mode. -/
theorem wordKind_isWord (preview : Bool) (mode : Mode) (text : String) :
    (wordKind preview mode text).isWord = true := by
  cases mode with
  | default =>
      simp only [wordKind]
      cases Verb.ofWord? text with
      | none => rfl
      | some verb =>
          simp only
          split <;> rfl
  | expression =>
      simp only [wordKind]
      cases Keyword.ofWord? text with
      | some keyword => rfl
      | none =>
          simp only
          split <;> rfl
  | enrich | lookup =>
      simp only [wordKind]
      split
      · rfl
      · split <;> rfl
  | sources | rename | enrichField | closingMetrics =>
      simp only [wordKind]
      split <;> rfl
  | project | lookupField | mvExpand | setting | metrics | explain | info => rfl

/-- A word's kind never brings in the shift of an empty stack, since only `|` and the brackets do.
-/
theorem wordKind_shifts (preview : Bool) (mode : Mode) (text : String) :
    (wordKind preview mode text).shifts = false := by
  have h := wordKind_isWord preview mode text
  generalize wordKind preview mode text = kind at h
  cases kind <;> first | rfl | cases h

/-- What a single character is in a mode, the operators of expressions apart. -/
def single? : Mode → Char → Option Kind
  | .default, ']' => some .closeBracket
  | .expression, '[' => some .openBracket
  | .expression, ']' => some .closeBracket
  | .explain, '[' => some .openBracket
  | .explain, ']' => some .closeBracket
  | .sources, ',' => some .comma
  | .sources, ':' => some .colon
  | .sources, '=' => some .assign
  | .sources, '[' => some .openBracket
  | .sources, ']' => some .closeBracket
  | .project, ',' => some .comma
  | .project, '.' => some .dot
  | .rename, ',' => some .comma
  | .rename, '.' => some .dot
  | .rename, '=' => some .assign
  | .enrich, '[' => some .openBracket
  | .enrichField, '=' => some .assign
  | .enrichField, ',' => some .comma
  | .enrichField, '.' => some .dot
  | .mvExpand, '.' => some .dot
  | .setting, ']' => some .closeBracket
  | .setting, ':' => some .colon
  | .lookup, ':' => some .colon
  | .lookup, ',' => some .comma
  | .lookupField, ',' => some .comma
  | .lookupField, '.' => some .dot
  | .closingMetrics, ':' => some .colon
  | .closingMetrics, ',' => some .comma
  | _, _ => none

/-- The mode has string literals. -/
def hasStrings : Mode → Bool
  | .expression | .sources | .lookup | .metrics => true
  | _ => false

/-- The mode has names between backquotes that are no part of a pattern. -/
def hasQuotedNames : Mode → Bool
  | .expression | .mvExpand | .closingMetrics => true
  | _ => false

/-- The mode has parameters. -/
def hasParameters : Mode → Bool
  | .expression | .project | .rename | .enrichField | .mvExpand => true
  | _ => false

/-- The text is a token of a mode, of the given kind, whatever stands in front of it, and behind
it if that does not carry it on. -/
inductive Forms (preview : Bool) : Mode → Kind → List Char → Prop where
  | pipe {mode : Mode} : Forms preview mode .pipe ['|']
  | single {mode : Mode} {c : Char} {kind : Kind} (h : single? mode c = some kind) :
    Forms preview mode kind [c]
  | operator {kind : Kind} {text : List Char} (h : Step.operator? text = some (kind, text.length)) :
    Forms preview .expression kind text
  | string {mode : Mode} {text : List Char} (hmode : hasStrings mode = true)
    (h : Text.Quoted.IsLiteral text) : Forms preview mode .quotedString text
  | quotedName {mode : Mode} {text : List Char} (hmode : hasQuotedNames mode = true)
    (h : Text.Backquoted.length? text = some text.length) (hopened : text.head? = some '\x60') :
    Forms preview mode .quotedIdentifier text
  | anonymous {mode : Mode} (hmode : hasParameters mode = true) :
    Forms preview mode .anonymousParam ['?']
  | param {mode : Mode} {text : List Char} (hmode : hasParameters mode = true)
    (h : IsWord Shape.parameter Shape.isNameChar text) : Forms preview mode .param ('?' :: text)
  | number {n : Shape.Number} {text : List Char} (hstart : Shape.beginsNumber text = true)
    (h : IsNumber n text) :
    Forms preview .expression (if n.isDecimal then .decimal else .integer) text
  | word {mode : Mode} {text : List Char} (h : IsWord (scan mode) (carries mode) text) :
    Forms preview mode (wordKind preview mode (String.ofList text)) text
  | info {text : List Char} (h : Step.spells (String.ofList text) .info = true)
    (hlen : text.length = 4) : Forms preview .info (.keyword .info) text

/-! ### What a step makes -/

/-- What a step may make of the text `cs`. -/
inductive Accounts (preview : Bool) (modes : ModeStack) (cs : List Char) : Step → Prop where
  | error {length : Nat} {modes' : ModeStack} {cause : Diagnostic.Cause} :
    Accounts preview modes cs ⟨.error, length, modes', some cause⟩
  | trivia {kind : Kind} {length : Nat} (hlength : length ≤ cs.length)
    (h : kind.isTrivia = true) :
    Accounts preview modes cs (.token modes kind length)
  | token {kind : Kind} {length : Nat} (hlength : length ≤ cs.length)
    (h : Forms preview modes.current kind (cs.take length)) :
    Accounts preview modes cs (.token (modes.behind kind) kind length)

section

variable {preview : Bool} {modes : ModeStack} {mode : Mode} {cs : List Char}

/-- A pattern is a word with at least one character, and its characters depend on those before them
only. -/
theorem patternLength_scans : Scans patternLength Shape.carriesPattern where
  le_length cs := by
    unfold patternLength
    split
    · exact Shape.pattern_le_length ‹_›
    · exact Nat.zero_le _
  cut cs rest hrest := by
    unfold patternLength
    cases h : Shape.pattern cs with
    | unterminated =>
        simp only [List.take_zero, List.nil_append]
        rw [Shape.pattern_stop hrest]
    | whole length =>
        simp only
        by_cases hzero : length = 0
        · subst hzero
          simp only [List.take_zero, List.nil_append]
          rw [Shape.pattern_stop hrest]
        · rw [(Shape.isPattern_take h hzero).pattern_append rest hrest]
          exact List.length_take_of_le (Shape.pattern_le_length h)

/-- The words of every mode are cut off where they are not carried on. -/
theorem scan_scans (mode : Mode) : Scans (scan mode) (carries mode) := by
  cases mode with
  | default => exact Shape.run_scans _
  | setting => exact Shape.run_scans _
  | expression | mvExpand | closingMetrics => exact Shape.identifier_scans
  | sources | lookup | metrics => exact Shape.source_scans
  | project | rename | enrichField | lookupField => exact patternLength_scans
  | enrich => exact Shape.policy_scans
  | explain | info => exact ⟨fun cs => Nat.zero_le _, fun _ _ _ => rfl⟩

/-- A step that takes one character follows the rules if the character is one of the mode's and the
stack moves as its kind says. -/
theorem accounts_single {c : Char} {kind : Kind} (hmode : modes.current = mode)
    (h : single? mode c = some kind) {modes' : ModeStack} (hmodes : modes' = modes.behind kind) :
    Accounts preview modes (c :: cs) (.single modes' kind) := by
  subst hmode hmodes
  exact .token (by simp) (.single h)

/-- What a word makes in the mode in force: its kind, and the modes behind it. -/
def made (preview : Bool) (modes : ModeStack) (text : String) : Kind × ModeStack :=
  (wordKind preview modes.current text, modes.behind (wordKind preview modes.current text))

/-- A step that takes a word follows the rules if it decides the kind as `made` does. -/
theorem accounts_word (hmode : modes.current = mode) {decide : String → Kind × ModeStack}
    (hdecide : ∀ text, decide text = made preview modes text) :
    Accounts preview modes cs (.word modes cs (scan mode cs) decide) := by
  subst hmode
  unfold Step.word
  split
  case isTrue => exact .error
  case isFalse hpos =>
    rw [hdecide]
    exact .token ((scan_scans _).le_length cs) (.word ((scan_scans _).isWord_take hpos))

/-- A step that takes a pattern follows the rules, also when its text is not a well-formed one. -/
theorem accounts_pattern (hmode : modes.current = mode) (hscan : scan mode = patternLength)
    {decide : String → Kind} (hdecide : ∀ text, (decide text, modes) = made preview modes text) :
    Accounts preview modes cs (.pattern modes cs decide) := by
  unfold Step.pattern
  cases h : Shape.pattern cs with
  | unterminated => exact .error
  | whole length =>
      have hlength : length = scan mode cs := by rw [hscan, patternLength, h]
      rw [hlength]
      exact accounts_word hmode hdecide

/-- A literal is an error or it is closed. -/
theorem quotedString_cases (modes : ModeStack) (cs : List Char) :
    (∃ length modes' cause, Step.quotedString modes cs = ⟨.error, length, modes', some cause⟩) ∨
      (Text.Quoted.extent cs).verdict = .closed ∧
        Step.quotedString modes cs =
          .token modes .quotedString (Text.Quoted.extent cs).length := by
  unfold Step.quotedString
  dsimp only
  split
  · exact .inr ⟨‹_›, rfl⟩
  · exact .inl ⟨_, _, _, rfl⟩
  · exact .inl ⟨_, _, _, rfl⟩

/-- A name between backquotes is an error or it is closed. -/
theorem quotedIdentifier_cases (modes : ModeStack) (cs : List Char) :
    (∃ length modes' cause, Step.quotedIdentifier modes cs = ⟨.error, length, modes', some cause⟩) ∨
      ∃ length, Text.Backquoted.length? cs = some length ∧
        Step.quotedIdentifier modes cs = .token modes .quotedIdentifier length := by
  unfold Step.quotedIdentifier
  split
  · exact .inr ⟨_, ‹_›, rfl⟩
  · exact .inl ⟨_, _, _, rfl⟩

/-- The text of a string literal that was closed has the form of one. -/
theorem forms_quotedString (hmode : hasStrings mode = true) (hopened : cs.head? = some '\x22')
    (h : (Text.Quoted.extent cs).verdict = .closed) :
    Forms preview mode .quotedString (cs.take (Text.Quoted.extent cs).length) :=
  .string hmode (Text.Quoted.isLiteral_take h hopened)

/-- A quoted name that was closed fits into the text and has the form of one. -/
theorem forms_quotedIdentifier (preview : Bool) (hmode : hasQuotedNames mode = true)
    (hopened : cs.head? = some '\x60') {length : Nat}
    (h : Text.Backquoted.length? cs = some length) :
    length ≤ cs.length ∧ Forms preview mode .quotedIdentifier (cs.take length) := by
  obtain ⟨m, hm, rfl⟩ := Option.map_eq_some_iff.mp h
  have hlength : m + 1 ≤ cs.length := by
    have hle := Shape.close?_le_length hm
    rw [List.length_drop] at hle
    omega
  refine ⟨hlength, .quotedName hmode ?_ ?_⟩
  · have := Text.Backquoted.length?_cut h (Shape.startsWith_nil _)
    rw [List.append_nil] at this
    rw [this, List.length_take_of_le hlength]
  · rw [List.head?_take, if_neg (Nat.succ_ne_zero m), hopened]

/-- A step behind a `"` follows the rules: it takes the whole literal, or reports that it is open.
-/
theorem accounts_quotedString (hmode : modes.current = mode) (hstrings : hasStrings mode = true)
    (hopened : cs.head? = some '\x22') (hmodes : modes.behind .quotedString = modes) :
    Accounts preview modes cs (Step.quotedString modes cs) := by
  subst hmode
  have hne : cs ≠ [] := by rintro rfl; simp at hopened
  rcases quotedString_cases modes cs with ⟨_, _, _, heq⟩ | ⟨hclosed, heq⟩
  · rw [heq]; exact .error
  · rw [heq]
    conv => rhs; rw [← hmodes]
    exact .token (Text.Quoted.extent_le_length hne) (forms_quotedString hstrings hopened hclosed)

/-- A step behind a backquote follows the rules in the same way. -/
theorem accounts_quotedIdentifier (hmode : modes.current = mode)
    (hnames : hasQuotedNames mode = true) (hopened : cs.head? = some '\x60')
    (hmodes : modes.behind .quotedIdentifier = modes) :
    Accounts preview modes cs (Step.quotedIdentifier modes cs) := by
  subst hmode
  rcases quotedIdentifier_cases modes cs with ⟨_, _, _, heq⟩ | ⟨_, hlength, heq⟩
  · rw [heq]; exact .error
  · obtain ⟨hle, hforms⟩ := forms_quotedIdentifier preview hnames hopened hlength
    rw [heq]
    conv => rhs; rw [← hmodes]
    exact .token hle hforms

/-- A step behind `?` takes a parameter with the name or the number behind it, or the bare mark. -/
theorem accounts_parameter (hmode : modes.current = mode)
    (hparameters : hasParameters mode = true) {rest : List Char}
    (hanonymous : modes.behind .anonymousParam = modes) (hparam : modes.behind .param = modes) :
    Accounts preview modes ('?' :: rest) (.parameter modes ('?' :: rest)) := by
  subst hmode
  unfold Step.parameter
  simp only [List.drop_one, List.tail_cons]
  by_cases hzero : Shape.parameter rest = 0
  · rw [if_pos hzero, hzero]
    conv => rhs; rw [← hanonymous]
    exact .token (by simp) (.anonymous hparameters)
  · rw [if_neg hzero]
    conv => rhs; rw [← hparam]
    refine .token (by simpa using Shape.parameter_scans.le_length rest) ?_
    rw [List.take_succ_cons]
    exact .param hparameters (Shape.parameter_scans.isWord_take hzero)

/-! ### What words make, mode by mode -/

/-- In a steady mode a word leaves the modes as they are. -/
theorem made_of_isSteady (hmode : modes.current = mode) (hsteady : mode.isSteady = true)
    (text : String) : (wordKind preview mode text, modes) = made preview modes text := by
  subst hmode
  rw [made, ModeStack.behind_of_isSteady hsteady (wordKind_shifts preview _ text)]

/-- In the default mode a word is the verb of a command, a preview verb behind the gate or unknown.
-/
theorem made_default (hmode : modes.current = .default) (text : String) :
    (match Verb.ofWord? text with
      | some verb =>
        if verb.isPreview && !preview then (Kind.unknownCommand, modes.push .expression)
        else (.command verb, modes.push verb.mode)
      | none => (.unknownCommand, modes.push .expression)) = made preview modes text := by
  rw [made, hmode]
  simp only [wordKind]
  cases Verb.ofWord? text with
  | none => simp [ModeStack.behind, hmode, Mode.entered]
  | some verb =>
      simp only
      split <;> simp [ModeStack.behind, hmode, Mode.entered]

/-- In an expression a word is a keyword, `MATCH` behind the gate or an identifier. -/
theorem made_expression (hmode : modes.current = .expression) (text : String) :
    (match Keyword.ofWord? text with
      | some keyword => (Kind.keyword keyword, modes)
      | none =>
        if preview && Text.sameWord text Verb.«match».text then (.command .«match», modes)
        else (.identifier, modes)) = made preview modes text := by
  rw [← made_of_isSteady hmode rfl]
  simp only [wordKind]
  cases Keyword.ofWord? text with
  | some keyword => rfl
  | none =>
      simp only
      split <;> rfl

/-- In `ENRICH` the words `ON` and `WITH` open the fields, and any other names the policy. -/
theorem made_enrich (hmode : modes.current = .enrich) (text : String) :
    (if Step.spells text .on then (Kind.keyword .on, modes.push .enrichField)
      else if Step.spells text .«with» then (.keyword .«with», modes.push .enrichField)
      else (.policy, modes)) = made preview modes text := by
  rw [made, hmode]
  simp only [wordKind]
  split
  · simp [ModeStack.behind, hmode, Mode.entered]
  · split <;> simp [ModeStack.behind, hmode, Mode.entered, Mode.switched]

/-- In `LOOKUP` a lone `.` is a dot, `ON` opens the fields, and any other word is a source. -/
theorem made_lookup (hmode : modes.current = .lookup) (text : String) :
    (if text = "." then (Kind.dot, modes)
      else if Step.spells text .on then (.keyword .on, modes.push .lookupField)
      else (.source, modes)) = made preview modes text := by
  rw [made, hmode]
  simp only [wordKind]
  split
  · simp [ModeStack.behind, hmode, Mode.entered, Mode.switched]
  · split <;> simp [ModeStack.behind, hmode, Mode.entered, Mode.switched]

/-- In `METRICS` the first word is a source, and what follows is the end of the list of sources. -/
theorem made_metrics (hmode : modes.current = .metrics) (text : String) :
    (Kind.source, modes.switch .closingMetrics) = made preview modes text := by
  simp [made, hmode, wordKind, ModeStack.behind, Mode.entered, Mode.switched]

/-- Behind the sources of `METRICS` a word is `BY` or an identifier, and an expression follows. -/
theorem made_closingMetrics (hmode : modes.current = .closingMetrics) (text : String) :
    (if Step.spells text .«by» then Kind.keyword .«by» else .identifier,
      modes.switch .expression) = made preview modes text := by
  rw [made, hmode]
  simp only [wordKind]
  split <;> simp [ModeStack.behind, hmode, Mode.entered, Mode.switched]

/-! ### Mode by mode -/

/-- The lexer of the default mode follows the rules. -/
theorem inDefault_accounts (hmode : modes.current = .default) :
    Accounts preview modes cs (Step.inDefault preview modes cs) := by
  unfold Step.inDefault
  split
  · exact accounts_single hmode rfl rfl
  · exact accounts_word hmode (made_default hmode)

/-- An operator that was found fits into the text, is the operator of its own text and shifts
nothing. -/
theorem operator?_of_eq_some {kind : Kind} {length : Nat}
    (h : Step.operator? cs = some (kind, length)) :
    length ≤ cs.length ∧ Step.operator? (cs.take length) = some (kind, (cs.take length).length) ∧
      kind.shifts = false := by
  unfold Step.operator? at h
  split at h
  all_goals simp only [Option.some.injEq, Prod.mk.injEq, reduceCtorEq] at h
  all_goals
    obtain ⟨rfl, rfl⟩ := h
    exact ⟨by simp, rfl, rfl⟩

/-- The lexer of expressions follows the rules. -/
theorem inExpression_accounts (hmode : modes.current = .expression) :
    Accounts preview modes cs (Step.inExpression preview modes cs) := by
  have hbehind : ∀ kind : Kind, kind.shifts = false → modes.behind kind = modes :=
    fun _ => ModeStack.behind_of_isSteady (by rw [hmode]; rfl)
  -- One case for each rule of the mode, in the order in which they are tried.
  unfold Step.inExpression
  split
  · exact accounts_quotedString hmode rfl rfl (hbehind _ rfl)
  · exact accounts_quotedIdentifier hmode rfl rfl (hbehind _ rfl)
  · exact accounts_parameter hmode rfl (hbehind _ rfl) (hbehind _ rfl)
  · exact accounts_single hmode rfl (by simp [ModeStack.behind, hmode, Mode.inBrackets])
  · exact accounts_single hmode rfl rfl
  · split
    case isTrue hnumber =>
      have hkind : modes.behind (if (Shape.number cs).isDecimal then .decimal else .integer) =
          modes := hbehind _ (by split <;> rfl)
      unfold Step.number
      dsimp only
      conv => rhs; rw [← hkind]
      refine .token (Shape.number_length_le cs) ?_
      rw [hmode]
      exact .number (Shape.beginsNumber_take hnumber) (Shape.isNumber_take cs)
    case isFalse =>
      split
      case isTrue => exact accounts_word hmode (made_expression hmode)
      case isFalse =>
        split
        · rename_i kind length hop
          obtain ⟨hle, htake, hshifts⟩ := operator?_of_eq_some hop
          conv => rhs; rw [← hbehind _ hshifts]
          exact .token hle (hmode ▸ .operator htake)
        · exact .error

/-- The lexer of `EXPLAIN` follows the rules. -/
theorem inExplain_accounts (hmode : modes.current = .explain) :
    Accounts preview modes cs (Step.inExplain modes cs) := by
  unfold Step.inExplain
  split
  · exact accounts_single hmode rfl (by simp [ModeStack.behind, hmode, Mode.inBrackets])
  · exact accounts_single hmode rfl rfl
  · exact .error

/-- The lexer of sources follows the rules. -/
theorem inSources_accounts (hmode : modes.current = .sources) :
    Accounts preview modes cs (Step.inSources modes cs) := by
  have hbehind : ∀ kind : Kind, kind.shifts = false → modes.behind kind = modes :=
    fun _ => ModeStack.behind_of_isSteady (by rw [hmode]; rfl)
  unfold Step.inSources
  split
  · exact accounts_single hmode rfl (hbehind _ rfl).symm
  · exact accounts_single hmode rfl (hbehind _ rfl).symm
  · exact accounts_single hmode rfl (hbehind _ rfl).symm
  · exact accounts_single hmode rfl (by simp [ModeStack.behind, hmode, Mode.inBrackets])
  · exact accounts_single hmode rfl rfl
  · exact accounts_quotedString hmode rfl rfl (hbehind _ rfl)
  · exact accounts_word hmode (made_of_isSteady hmode rfl)

/-- The lexer of `KEEP` and `DROP` follows the rules. -/
theorem inProject_accounts (hmode : modes.current = .project) :
    Accounts preview modes cs (Step.inProject modes cs) := by
  have hbehind : ∀ kind : Kind, kind.shifts = false → modes.behind kind = modes :=
    fun _ => ModeStack.behind_of_isSteady (by rw [hmode]; rfl)
  unfold Step.inProject
  split
  · exact accounts_single hmode rfl (hbehind _ rfl).symm
  · exact accounts_single hmode rfl (hbehind _ rfl).symm
  · exact accounts_parameter hmode rfl (hbehind _ rfl) (hbehind _ rfl)
  · exact accounts_pattern hmode rfl (made_of_isSteady hmode rfl)

/-- The lexer of `RENAME` follows the rules. -/
theorem inRename_accounts (hmode : modes.current = .rename) :
    Accounts preview modes cs (Step.inRename modes cs) := by
  have hbehind : ∀ kind : Kind, kind.shifts = false → modes.behind kind = modes :=
    fun _ => ModeStack.behind_of_isSteady (by rw [hmode]; rfl)
  unfold Step.inRename
  split
  · exact accounts_single hmode rfl (hbehind _ rfl).symm
  · exact accounts_single hmode rfl (hbehind _ rfl).symm
  · exact accounts_parameter hmode rfl (hbehind _ rfl) (hbehind _ rfl)
  · exact accounts_single hmode rfl (hbehind _ rfl).symm
  · exact accounts_pattern hmode rfl (made_of_isSteady hmode rfl)

/-- The lexer of `ENRICH` follows the rules. -/
theorem inEnrich_accounts (hmode : modes.current = .enrich) :
    Accounts preview modes cs (Step.inEnrich modes cs) := by
  unfold Step.inEnrich
  split
  · exact accounts_single hmode rfl (by simp [ModeStack.behind, hmode, Mode.inBrackets])
  · exact accounts_word hmode (made_enrich hmode)

/-- The lexer of the fields of `ENRICH` follows the rules. -/
theorem inEnrichField_accounts (hmode : modes.current = .enrichField) :
    Accounts preview modes cs (Step.inEnrichField modes cs) := by
  have hbehind : ∀ kind : Kind, kind.shifts = false → modes.behind kind = modes :=
    fun _ => ModeStack.behind_of_isSteady (by rw [hmode]; rfl)
  unfold Step.inEnrichField
  split
  · exact accounts_single hmode rfl (hbehind _ rfl).symm
  · exact accounts_single hmode rfl (hbehind _ rfl).symm
  · exact accounts_single hmode rfl (hbehind _ rfl).symm
  · exact accounts_parameter hmode rfl (hbehind _ rfl) (hbehind _ rfl)
  · exact accounts_pattern hmode rfl (made_of_isSteady hmode rfl)

/-- The lexer of `MV_EXPAND` follows the rules. -/
theorem inMvExpand_accounts (hmode : modes.current = .mvExpand) :
    Accounts preview modes cs (Step.inMvExpand modes cs) := by
  have hbehind : ∀ kind : Kind, kind.shifts = false → modes.behind kind = modes :=
    fun _ => ModeStack.behind_of_isSteady (by rw [hmode]; rfl)
  unfold Step.inMvExpand
  split
  · exact accounts_single hmode rfl (hbehind _ rfl).symm
  · exact accounts_parameter hmode rfl (hbehind _ rfl) (hbehind _ rfl)
  · exact accounts_quotedIdentifier hmode rfl rfl (hbehind _ rfl)
  · exact accounts_word hmode (made_of_isSteady hmode rfl)

/-- The word of `SHOW` has four characters. -/
theorem four_le_of_spells_info (h : Step.spells (String.ofList (cs.take 4)) .info = true) :
    4 ≤ cs.length := by
  have hfour : (Text.upper Keyword.info.text).length = 4 := rfl
  have hupper := congrArg String.length (of_decide_eq_true h)
  rw [hfour, Text.upper, String.length_ofList, List.length_map, String.toList_ofList,
    List.length_take] at hupper
  omega

/-- The lexer of `SHOW` follows the rules. -/
theorem inInfo_accounts (hmode : modes.current = .info) :
    Accounts preview modes cs (Step.inInfo modes cs) := by
  unfold Step.inInfo
  split
  case isFalse => exact .error
  case isTrue h =>
    obtain ⟨hspells, -⟩ := Bool.and_eq_true_iff.mp h
    have hlength := four_le_of_spells_info hspells
    have hmodes : modes.behind (.keyword .info) = modes :=
      ModeStack.behind_of_isSteady (by rw [hmode]; rfl) rfl
    conv => rhs; rw [← hmodes]
    exact .token hlength (hmode ▸ .info hspells (List.length_take_of_le hlength))

/-- The lexer of settings follows the rules. -/
theorem inSetting_accounts (hmode : modes.current = .setting) :
    Accounts preview modes cs (Step.inSetting modes cs) := by
  have hsteady : modes.current.isSteady = true := by rw [hmode]; rfl
  unfold Step.inSetting
  split
  · exact accounts_single hmode rfl rfl
  · exact accounts_single hmode rfl (ModeStack.behind_of_isSteady hsteady rfl).symm
  · exact accounts_word hmode (made_of_isSteady hmode rfl)

/-- The lexer of `LOOKUP` follows the rules. -/
theorem inLookup_accounts (hmode : modes.current = .lookup) :
    Accounts preview modes cs (Step.inLookup modes cs) := by
  unfold Step.inLookup
  split
  · exact accounts_single hmode rfl
      (by simp [ModeStack.behind, hmode, Mode.entered, Mode.switched])
  · exact accounts_single hmode rfl
      (by simp [ModeStack.behind, hmode, Mode.entered, Mode.switched])
  · exact accounts_quotedString hmode rfl rfl
      (by simp [ModeStack.behind, hmode, Mode.entered, Mode.switched])
  · exact accounts_word hmode (made_lookup hmode)

/-- The lexer of the fields of `LOOKUP` follows the rules. -/
theorem inLookupField_accounts (hmode : modes.current = .lookupField) :
    Accounts preview modes cs (Step.inLookupField modes cs) := by
  have hbehind : ∀ kind : Kind, kind.shifts = false → modes.behind kind = modes :=
    fun _ => ModeStack.behind_of_isSteady (by rw [hmode]; rfl)
  unfold Step.inLookupField
  split
  · exact accounts_single hmode rfl (hbehind _ rfl).symm
  · exact accounts_single hmode rfl (hbehind _ rfl).symm
  · exact accounts_pattern hmode rfl (made_of_isSteady hmode rfl)

/-- The lexer of `METRICS` follows the rules. -/
theorem inMetrics_accounts (hmode : modes.current = .metrics) :
    Accounts preview modes cs (Step.inMetrics modes cs) := by
  unfold Step.inMetrics
  dsimp only
  split
  · rename_i rest
    rcases quotedString_cases modes ('\x22' :: rest) with ⟨_, _, _, heq⟩ | ⟨hclosed, heq⟩
    · rw [heq]; exact .error
    · have hmodes : modes.behind .quotedString = modes.switch .closingMetrics := by
        simp [ModeStack.behind, hmode, Mode.entered, Mode.switched]
      rw [heq, if_neg (by simp [Step.token]), ← hmodes]
      exact .token (Text.Quoted.extent_le_length (by simp))
        (hmode ▸ forms_quotedString rfl rfl hclosed)
  · exact accounts_word hmode (made_metrics hmode)

/-- The lexer behind the sources of `METRICS` follows the rules. -/
theorem inClosingMetrics_accounts (hmode : modes.current = .closingMetrics) :
    Accounts preview modes cs (Step.inClosingMetrics modes cs) := by
  unfold Step.inClosingMetrics
  dsimp only
  split
  · exact accounts_single hmode rfl
      (by simp [ModeStack.behind, hmode, Mode.entered, Mode.switched])
  · exact accounts_single hmode rfl
      (by simp [ModeStack.behind, hmode, Mode.entered, Mode.switched])
  · rename_i rest
    rcases quotedIdentifier_cases modes ('\x60' :: rest) with ⟨_, _, _, heq⟩ | ⟨_, hlength, heq⟩
    · rw [heq]; exact .error
    · obtain ⟨hle, hforms⟩ := forms_quotedIdentifier preview
        (show hasQuotedNames .closingMetrics = true from rfl) rfl hlength
      have hmodes : modes.behind .quotedIdentifier = modes.switch .expression := by
        simp [ModeStack.behind, hmode, Mode.entered, Mode.switched]
      rw [heq, if_neg (by simp [Step.token]), ← hmodes]
      exact .token hle (hmode ▸ hforms)
  · exact accounts_word hmode (made_closingMetrics hmode)

/-- Whichever mode is on top, its lexer follows the rules. -/
theorem inMode_accounts : Accounts preview modes cs (Step.inMode preview modes cs) := by
  unfold Step.inMode
  split
  · exact inDefault_accounts ‹_›
  · exact inExpression_accounts ‹_›
  · exact inExplain_accounts ‹_›
  · exact inSources_accounts ‹_›
  · exact inProject_accounts ‹_›
  · exact inRename_accounts ‹_›
  · exact inEnrich_accounts ‹_›
  · exact inEnrichField_accounts ‹_›
  · exact inMvExpand_accounts ‹_›
  · exact inInfo_accounts ‹_›
  · exact inSetting_accounts ‹_›
  · exact inLookup_accounts ‹_›
  · exact inLookupField_accounts ‹_›
  · exact inMetrics_accounts ‹_›
  · exact inClosingMetrics_accounts ‹_›

/-- A line comment fits into the text. -/
theorem lineCommentLength_le (cs : List Char) : Text.lineCommentLength cs ≤ cs.length := by
  induction cs with
  | nil => exact Nat.le_refl 0
  | cons c cs ih =>
      rw [Text.lineCommentLength, List.length_cons]
      split <;> omega

/-- A block comment that was closed fits into the text. -/
theorem blockCommentEnd?_le {depth : Nat} {n : Nat} (h : Text.blockCommentEnd? depth cs = some n) :
    n ≤ cs.length := by
  induction depth, cs using Text.blockCommentEnd?.induct generalizing n with
  | case1 => cases h
  | case2 depth rest ih =>
      rw [Text.blockCommentEnd?] at h
      obtain ⟨m, hm, rfl⟩ := Option.map_eq_some_iff.mp h
      exact Nat.add_le_add_right (ih hm) 2
  | case3 depth rest hdepth =>
      rw [Text.blockCommentEnd?, if_pos hdepth] at h
      simp [← Option.some.inj h]
  | case4 depth rest hdepth ih =>
      rw [Text.blockCommentEnd?, if_neg hdepth] at h
      obtain ⟨m, hm, rfl⟩ := Option.map_eq_some_iff.mp h
      exact Nat.add_le_add_right (ih hm) 2
  | case5 depth c rest hopen hclose ih =>
      rw [Text.blockCommentEnd?] at h
      · obtain ⟨m, hm, rfl⟩ := Option.map_eq_some_iff.mp h
        exact Nat.add_le_add_right (ih hm) 1
      all_goals assumption

/-- A step makes an error, or passes over a blank or a comment, or takes a token of the mode in
force and leaves the modes behind it. -/
theorem step_accounts (preview : Bool) (modes : ModeStack) (cs : List Char) :
    Accounts preview modes cs (step preview modes cs) := by
  unfold step
  split
  · exact .trivia (lineCommentLength_le _) rfl
  · unfold Step.blockComment
    split
    · rename_i length hlength
      rw [Text.blockCommentLength?_eq] at hlength
      exact .trivia (blockCommentEnd?_le hlength) rfl
    · exact .error
  · show Accounts preview modes _ (.token (modes.behind .pipe) .pipe 1)
    exact .token (by simp) .pipe
  · split
    · exact .trivia (Shape.run_le_length _ _) rfl
    · exact inMode_accounts

/-- A step that makes no error stays inside the text. -/
theorem step_length_le (h : (step preview modes cs).kind ≠ .error) :
    (step preview modes cs).length ≤ cs.length := by
  have haccounts := step_accounts preview modes cs
  generalize step preview modes cs = s at haccounts h
  cases haccounts with
  | error => exact absurd rfl h
  | trivia hlength => exact hlength
  | token hlength => exact hlength

/-- The kinds of the tokens that the parser reads before the end of the text. -/
def Kind.isRegular : Kind → Bool
  | .error | .eof => false
  | kind => !kind.isTrivia

/-- A word is no error, does not end the text and is seen by the parser. -/
theorem wordKind_isRegular (preview : Bool) (mode : Mode) (text : String) :
    (wordKind preview mode text).isRegular = true := by
  have h := wordKind_isWord preview mode text
  generalize wordKind preview mode text = kind at h
  cases kind <;> first | rfl | cases h

/-- A token of a mode is no error, does not end the text and is seen by the parser. -/
theorem Forms.isRegular {kind : Kind} {text : List Char} (h : Forms preview mode kind text) :
    kind.isRegular = true := by
  cases h with
  | single h =>
      unfold single? at h
      split at h
      all_goals simp only [Option.some.injEq, reduceCtorEq] at h
      all_goals
        subst h
        rfl
  | operator h =>
      unfold Step.operator? at h
      split at h
      all_goals simp only [Option.some.injEq, Prod.mk.injEq, reduceCtorEq] at h
      all_goals
        obtain ⟨rfl, -⟩ := h
        rfl
  | number => split <;> rfl
  | word => exact wordKind_isRegular preview mode _
  | pipe | string | quotedName | anonymous | param | info => rfl

end

end Token

end PipeQuery
