import PipeQuery.Diagnostic.Cause
import PipeQuery.Text.Comment
import PipeQuery.Text.Quoted
import PipeQuery.Token.Shape

/-!
# `PipeQuery.Token.Step`: one token in one mode

`step` looks at the text ahead and at the mode stack and decides what the next token is, how many
characters it has, which modes are in force behind it and what is wrong with it. Comments, blanks
and pipes come first and mean the same in every mode; the rest is up to the mode on top.

`step_length_pos` says that a step never stands still, on which the reading of a whole text rests.
-/

set_option autoImplicit false

namespace PipeQuery.Token

open Shape (run startsWith)

/-- What is decided about the next token. -/
structure Step where
  kind : Kind
  length : Nat
  modes : ModeStack
  cause : Option Diagnostic.Cause
deriving DecidableEq, Repr

namespace Step

/-- A token of the given kind and length. -/
def token (modes : ModeStack) (kind : Kind) (length : Nat) : Step :=
  ⟨kind, length, modes, none⟩

/-- A token of one character. -/
def single (modes : ModeStack) (kind : Kind) : Step :=
  token modes kind 1

/-- The first character, and all up to a blank or a pipe, form no token of the mode. -/
def unrecognized (modes : ModeStack) (cs : List Char) : Step :=
  let length := run (fun c => !Text.isBlank c && c ≠ '|') (cs.drop 1) + 1
  ⟨.error, length, modes, some (.unrecognized (String.ofList (cs.take length)))⟩

/-- A construct without its end. The modes start over behind it. -/
def unterminated (modes : ModeStack) (construct : Diagnostic.Enclosed) (length : Nat) : Step :=
  ⟨.error, length, modes.reset, some (.unterminated construct)⟩

/-- A `[` that enters a mode. -/
def opening (modes : ModeStack) (mode : Mode) : Step :=
  single (modes.pushBracket mode) .openBracket

/-- A `]`, which is a token even when no bracket is open. -/
def closing (modes : ModeStack) : Step :=
  single modes.closeBracket .closeBracket

/-- A word of `length` characters, whose kind and modes depend on its text. Without a word the
text is unrecognized. -/
def word (modes : ModeStack) (cs : List Char) (length : Nat) (decide : String → Kind × ModeStack) :
    Step :=
  if length = 0 then unrecognized modes cs
  else
    let (kind, modes') := decide (String.ofList (cs.take length))
    token modes' kind length

/-- A string literal at the start of `cs`. -/
def quotedString (modes : ModeStack) (cs : List Char) : Step :=
  let extent := Text.Quoted.extent cs
  match extent.verdict with
  | .closed => token modes .quotedString extent.length
  | .badEscape => ⟨.error, extent.length, modes, some .invalidEscape⟩
  | .unterminated =>
    unterminated modes (if Text.Quoted.isTriple cs then .tripleQuotedString else .quotedString)
      extent.length

/-- A name between backquotes at the start of `cs`. -/
def quotedIdentifier (modes : ModeStack) (cs : List Char) : Step :=
  match Text.Backquoted.length? cs with
  | some length => token modes .quotedIdentifier length
  | none => unterminated modes .quotedIdentifier cs.length

/-- A parameter at the start of `cs`, which is a question mark. -/
def parameter (modes : ModeStack) (cs : List Char) : Step :=
  let length := Shape.parameter (cs.drop 1)
  token modes (if length = 0 then .anonymousParam else .param) (length + 1)

/-- A field pattern at the start of `cs`; `decide` may find a keyword in it. -/
def pattern (modes : ModeStack) (cs : List Char) (decide : String → Kind) : Step :=
  match Shape.pattern cs with
  | .unterminated => unterminated modes .quotedIdentifier cs.length
  | .whole length => word modes cs length fun text => (decide text, modes)

/-- A number at the start of `cs`. -/
def number (modes : ModeStack) (cs : List Char) : Step :=
  let n := Shape.number cs
  token modes (if n.isDecimal then .decimal else .integer) n.length

/-- The operators and separators of expressions, and their lengths. -/
def operator? : List Char → Option (Kind × Nat)
  | '=' :: '=' :: _ => some (.eq, 2)
  | '=' :: '~' :: _ => some (.ciEq, 2)
  | '=' :: _ => some (.assign, 1)
  | '!' :: '=' :: _ => some (.ne, 2)
  | '<' :: '=' :: _ => some (.le, 2)
  | '<' :: _ => some (.lt, 1)
  | '>' :: '=' :: _ => some (.ge, 2)
  | '>' :: _ => some (.gt, 1)
  | ':' :: ':' :: _ => some (.cast, 2)
  | '+' :: _ => some (.plus, 1)
  | '-' :: _ => some (.minus, 1)
  | '*' :: _ => some (.asterisk, 1)
  | '/' :: _ => some (.slash, 1)
  | '%' :: _ => some (.percent, 1)
  | '(' :: _ => some (.leftParen, 1)
  | ')' :: _ => some (.rightParen, 1)
  | ',' :: _ => some (.comma, 1)
  | '.' :: _ => some (.dot, 1)
  | _ => none

/-- The word is spelled like the keyword. -/
def spells (text : String) (keyword : Keyword) : Bool :=
  Text.sameWord text keyword.text

end Step

/-! ### The modes -/

namespace Step

/-- Command position: any word is a command, known or not. A preview is known only if previews are
switched on. -/
def inDefault (preview : Bool) (modes : ModeStack) (cs : List Char) : Step :=
  match cs with
  | ']' :: _ => closing modes
  | _ =>
    word modes cs (run Shape.isCommandChar cs) fun text =>
      match Verb.ofWord? text with
      | some verb =>
        if verb.isPreview && !preview then (.unknownCommand, modes.push .expression)
        else (.command verb, modes.push verb.mode)
      | none => (.unknownCommand, modes.push .expression)

/-- Expressions. `MATCH` is an operator if previews are switched on. -/
def inExpression (preview : Bool) (modes : ModeStack) (cs : List Char) : Step :=
  match cs with
  | '\x22' :: _ => quotedString modes cs
  | '\x60' :: _ => quotedIdentifier modes cs
  | '?' :: _ => parameter modes cs
  | '[' :: _ => opening modes .expression
  | ']' :: _ => closing modes
  | _ =>
    if startsWith Char.isDigit cs ||
        (startsWith (· = '.') cs && startsWith Char.isDigit (cs.drop 1)) then
      number modes cs
    else if startsWith (fun c => c.isAlpha || Shape.isSigil c) cs then
      word modes cs (Shape.identifier cs) fun text =>
        match Keyword.ofWord? text with
        | some keyword => (.keyword keyword, modes)
        | none =>
          if preview && Text.sameWord text Verb.«match».text then (.command .«match», modes)
          else (.identifier, modes)
    else
      match operator? cs with
      | some (kind, length) => token modes kind length
      | none => unrecognized modes cs

/-- Between `EXPLAIN` and its brackets. -/
def inExplain (modes : ModeStack) (cs : List Char) : Step :=
  match cs with
  | '[' :: _ => opening modes .default
  | ']' :: _ => closing modes
  | _ => unrecognized modes cs

/-- The sources and the metadata of `FROM`. -/
def inSources (modes : ModeStack) (cs : List Char) : Step :=
  match cs with
  | ',' :: _ => single modes .comma
  | ':' :: _ => single modes .colon
  | '=' :: _ => single modes .assign
  | '[' :: _ => opening modes .sources
  | ']' :: _ => closing modes
  | '\x22' :: _ => quotedString modes cs
  | _ =>
    word modes cs (Shape.source cs) fun text =>
      (if spells text .metadata then .keyword .metadata else .source, modes)

/-- The field patterns of `KEEP` and `DROP`. -/
def inProject (modes : ModeStack) (cs : List Char) : Step :=
  match cs with
  | ',' :: _ => single modes .comma
  | '.' :: _ => single modes .dot
  | '?' :: _ => parameter modes cs
  | _ => pattern modes cs fun _ => .pattern

/-- The field patterns of `RENAME`. -/
def inRename (modes : ModeStack) (cs : List Char) : Step :=
  match cs with
  | ',' :: _ => single modes .comma
  | '.' :: _ => single modes .dot
  | '?' :: _ => parameter modes cs
  | '=' :: _ => single modes .assign
  | _ => pattern modes cs fun text => if spells text .as then .keyword .as else .pattern

/-- The settings and the policy of `ENRICH`. -/
def inEnrich (modes : ModeStack) (cs : List Char) : Step :=
  match cs with
  | '[' :: _ => opening modes .setting
  | _ =>
    word modes cs (Shape.policy cs) fun text =>
      if spells text .on then (.keyword .on, modes.push .enrichField)
      else if spells text .«with» then (.keyword .«with», modes.push .enrichField)
      else (.policy, modes)

/-- The field patterns of `ENRICH`. -/
def inEnrichField (modes : ModeStack) (cs : List Char) : Step :=
  match cs with
  | '=' :: _ => single modes .assign
  | ',' :: _ => single modes .comma
  | '.' :: _ => single modes .dot
  | '?' :: _ => parameter modes cs
  | _ => pattern modes cs fun text => if spells text .«with» then .keyword .«with» else .pattern

/-- The field of `MV_EXPAND`. -/
def inMvExpand (modes : ModeStack) (cs : List Char) : Step :=
  match cs with
  | '.' :: _ => single modes .dot
  | '?' :: _ => parameter modes cs
  | '\x60' :: _ => quotedIdentifier modes cs
  | _ => word modes cs (Shape.identifier cs) fun _ => (.identifier, modes)

/-- The word behind `SHOW`. -/
def inInfo (modes : ModeStack) (cs : List Char) : Step :=
  if spells (String.ofList (cs.take 4)) .info && !startsWith Shape.isNameChar (cs.drop 4) then
    token modes (.keyword .info) 4
  else unrecognized modes cs

/-- A setting of `ENRICH`. -/
def inSetting (modes : ModeStack) (cs : List Char) : Step :=
  match cs with
  | ']' :: _ => closing modes
  | ':' :: _ => single modes .colon
  | _ => word modes cs (run Shape.isSettingChar cs) fun _ => (.setting, modes)

/-- The table of `LOOKUP`. -/
def inLookup (modes : ModeStack) (cs : List Char) : Step :=
  match cs with
  | ':' :: _ => single modes .colon
  | ',' :: _ => single modes .comma
  | '\x22' :: _ => quotedString modes cs
  | _ =>
    word modes cs (Shape.source cs) fun text =>
      if text = "." then (.dot, modes)
      else if spells text .on then (.keyword .on, modes.push .lookupField)
      else (.source, modes)

/-- The field patterns of `LOOKUP`. -/
def inLookupField (modes : ModeStack) (cs : List Char) : Step :=
  match cs with
  | ',' :: _ => single modes .comma
  | '.' :: _ => single modes .dot
  | _ => pattern modes cs fun _ => .pattern

/-- The sources of `METRICS`. Behind one, either another follows or the aggregations begin. -/
def inMetrics (modes : ModeStack) (cs : List Char) : Step :=
  let closed := modes.switch .closingMetrics
  match cs with
  | '\x22' :: _ =>
    let literal := quotedString modes cs
    if literal.kind = .error then literal else { literal with modes := closed }
  | _ => word modes cs (Shape.source cs) fun _ => (.source, closed)

/-- Behind a source of `METRICS`. -/
def inClosingMetrics (modes : ModeStack) (cs : List Char) : Step :=
  let expression := modes.switch .expression
  match cs with
  | ':' :: _ => single (modes.switch .metrics) .colon
  | ',' :: _ => single (modes.switch .metrics) .comma
  | '\x60' :: _ =>
    let name := quotedIdentifier modes cs
    if name.kind = .error then name else { name with modes := expression }
  | _ =>
    word modes cs (Shape.identifier cs) fun text =>
      (if spells text .«by» then .keyword .«by» else .identifier, expression)

/-- The step that the mode on top decides. -/
def inMode (preview : Bool) (modes : ModeStack) (cs : List Char) : Step :=
  match modes.current with
  | .default => inDefault preview modes cs
  | .expression => inExpression preview modes cs
  | .explain => inExplain modes cs
  | .sources => inSources modes cs
  | .project => inProject modes cs
  | .rename => inRename modes cs
  | .enrich => inEnrich modes cs
  | .enrichField => inEnrichField modes cs
  | .mvExpand => inMvExpand modes cs
  | .info => inInfo modes cs
  | .setting => inSetting modes cs
  | .lookup => inLookup modes cs
  | .lookupField => inLookupField modes cs
  | .metrics => inMetrics modes cs
  | .closingMetrics => inClosingMetrics modes cs

/-- A block comment at the start of `cs`. -/
def blockComment (modes : ModeStack) (cs : List Char) : Step :=
  match Text.blockCommentLength? cs with
  | some length => token modes .blockComment length
  | none => unterminated modes .blockComment cs.length

end Step

/-- What the next token of a text is that is not at its end. -/
def step (preview : Bool) (modes : ModeStack) (cs : List Char) : Step :=
  match cs with
  | '/' :: '/' :: _ => .token modes .lineComment (Text.lineCommentLength cs)
  | '/' :: '*' :: _ => .blockComment modes cs
  | '|' :: _ => .single modes.popToDefault .pipe
  | _ =>
    if startsWith Text.isBlank cs then .token modes .whitespace (run Text.isBlank cs)
    else .inMode preview modes cs

/-! ### A step never stands still -/

namespace Step

@[simp]
theorem token_length (modes : ModeStack) (kind : Kind) (length : Nat) :
    (token modes kind length).length = length := rfl

@[simp]
theorem single_length (modes : ModeStack) (kind : Kind) : (single modes kind).length = 1 := rfl

@[simp]
theorem opening_length (modes : ModeStack) (mode : Mode) : (opening modes mode).length = 1 := rfl

@[simp]
theorem closing_length (modes : ModeStack) : (closing modes).length = 1 := rfl

@[simp]
theorem unterminated_length (modes : ModeStack) (construct : Diagnostic.Enclosed) (length : Nat) :
    (unterminated modes construct length).length = length := rfl

@[simp]
theorem quotedString_length (modes : ModeStack) (cs : List Char) :
    (quotedString modes cs).length = (Text.Quoted.extent cs).length := by
  unfold quotedString
  dsimp only
  split <;> rfl

@[simp]
theorem parameter_length (modes : ModeStack) (cs : List Char) :
    (parameter modes cs).length = Shape.parameter (cs.drop 1) + 1 := rfl

@[simp]
theorem unrecognized_length_pos (modes : ModeStack) (cs : List Char) :
    0 < (unrecognized modes cs).length :=
  Nat.succ_pos _

@[simp]
theorem word_length_pos (modes : ModeStack) (cs : List Char) (length : Nat)
    (decide : String → Kind × ModeStack) : 0 < (word modes cs length decide).length := by
  unfold word
  split
  · exact unrecognized_length_pos modes cs
  · exact Nat.pos_of_ne_zero ‹_›

@[simp]
theorem extent_length_pos (cs : List Char) : 0 < (Text.Quoted.extent cs).length := by
  unfold Text.Quoted.extent
  split <;> simp [Text.Quoted.Extent.grow]

theorem quotedIdentifier_length_pos (modes : ModeStack) {cs : List Char} (h : cs ≠ []) :
    0 < (quotedIdentifier modes cs).length := by
  unfold quotedIdentifier
  split
  · rename_i length hlength
    obtain ⟨n, -, rfl⟩ := Option.map_eq_some_iff.mp hlength
    exact Nat.succ_pos n
  · exact List.length_pos_iff.mpr h

theorem pattern_length_pos (modes : ModeStack) {cs : List Char} (decide : String → Kind)
    (h : cs ≠ []) : 0 < (pattern modes cs decide).length := by
  unfold pattern
  split
  · exact List.length_pos_iff.mpr h
  · exact word_length_pos modes cs _ _

/-- A text that begins with `p` has a run of `p`. -/
theorem run_pos {p : Char → Bool} {cs : List Char} (h : startsWith p cs = true) :
    0 < run p cs := by
  cases cs with
  | nil => simp [startsWith] at h
  | cons c rest => simp_all [startsWith, run]

theorem number_length_pos (modes : ModeStack) {cs : List Char}
    (h : (startsWith Char.isDigit cs ||
      (startsWith (· = '.') cs && startsWith Char.isDigit (cs.drop 1))) = true) :
    0 < (number modes cs).length := by
  have hpos : 0 < (Shape.number cs).length := by
    rcases Bool.or_eq_true_iff.mp h with hdigit | hpoint
    · have := run_pos hdigit
      simp only [Shape.number, Shape.Number.length]
      omega
    · obtain ⟨hdot, hdigit⟩ := Bool.and_eq_true_iff.mp hpoint
      cases cs with
      | nil => simp [startsWith] at hdot
      | cons c rest =>
        have hc : c = '.' := by simpa [startsWith] using hdot
        subst hc
        have hrun : run Char.isDigit ('.' :: rest) = 0 := by simp [run]
        simp only [List.drop_one, List.tail_cons] at hdigit
        simp only [Shape.number, Shape.Number.length, hrun, List.drop_zero, Shape.fraction, hdigit,
          Bool.or_true, if_true]
        omega
  exact hpos

theorem operator?_length_pos {cs : List Char} {kind : Kind} {length : Nat}
    (h : operator? cs = some (kind, length)) : 0 < length := by
  unfold operator? at h
  split at h <;> simp_all <;> omega

theorem inExpression_length_pos (preview : Bool) (modes : ModeStack) {cs : List Char}
    (h : cs ≠ []) : 0 < (inExpression preview modes cs).length := by
  unfold inExpression
  split
  case h_6 =>
    split
    · exact number_length_pos modes ‹_›
    · split
      · exact word_length_pos modes cs _ _
      · split
        · exact operator?_length_pos ‹_›
        · exact unrecognized_length_pos modes cs
  all_goals simp [quotedIdentifier_length_pos modes h]

theorem inMetrics_length_pos (modes : ModeStack) (cs : List Char) :
    0 < (inMetrics modes cs).length := by
  unfold inMetrics
  dsimp only
  split
  · split <;> simp
  · exact word_length_pos _ _ _ _

theorem inClosingMetrics_length_pos (modes : ModeStack) {cs : List Char} (h : cs ≠ []) :
    0 < (inClosingMetrics modes cs).length := by
  unfold inClosingMetrics
  dsimp only
  split
  case h_3 => split <;> exact quotedIdentifier_length_pos modes h
  all_goals simp

theorem inMode_length_pos (preview : Bool) (modes : ModeStack) {cs : List Char} (h : cs ≠ []) :
    0 < (inMode preview modes cs).length := by
  have hname := quotedIdentifier_length_pos modes h
  have hpattern := pattern_length_pos modes (h := h)
  unfold inMode
  split
  · unfold inDefault; split <;> simp
  · exact inExpression_length_pos preview modes h
  · unfold inExplain; split <;> simp
  · unfold inSources; split <;> simp
  · unfold inProject; split <;> simp [hpattern]
  · unfold inRename; split <;> simp [hpattern]
  · unfold inEnrich; split <;> simp
  · unfold inEnrichField; split <;> simp [hpattern]
  · unfold inMvExpand; split <;> simp [hname]
  · unfold inInfo; split <;> simp
  · unfold inSetting; split <;> simp
  · unfold inLookup; split <;> simp
  · unfold inLookupField; split <;> simp [hpattern]
  · exact inMetrics_length_pos modes cs
  · exact inClosingMetrics_length_pos modes h

end Step

/-- Every step takes at least one character. -/
theorem step_length_pos (preview : Bool) (modes : ModeStack) {cs : List Char} (h : cs ≠ []) :
    0 < (step preview modes cs).length := by
  unfold step
  split
  · simp [Step.token, Text.lineCommentLength]
  · unfold Step.blockComment
    split
    · rename_i length hlength
      rw [Text.blockCommentLength?_eq, Text.blockCommentEnd?] at hlength
      obtain ⟨n, -, rfl⟩ := Option.map_eq_some_iff.mp hlength
      exact Nat.succ_pos _
    · exact List.length_pos_iff.mpr h
  · exact Nat.one_pos
  · split
    · exact Step.run_pos ‹_›
    · exact Step.inMode_length_pos preview modes h

end PipeQuery.Token
