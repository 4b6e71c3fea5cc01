import PipeQuery.Proofs.Render.Name
import PipeQuery.Proofs.Text.Literal
import PipeQuery.Proofs.Token.Tiling

/-!
# `PipeQuery.Proofs.Render.Codec`: strings and names, written and read

Three parts of the program have to agree on a string: the rendering that escapes it, the lexer that
finds its end, and the decoding that resolves the escapes. The same goes for names. Here the three
are put together.

* `literal_codec`: what a string is written as is one token, wherever strings are read, and is
  decoded to the string. And no string token of any text is decoded by guesswork: it is verbatim, or
  has only escapes that exist.
* `identifier_codec`: what a name is written as is one token of an expression or of `MV_EXPAND`, and
  the parser reads the name from it.

`Lexer.Takes` says that a text is one token, for a lexer in front of it.
-/

set_option autoImplicit false

namespace PipeQuery

open PipeQuery.Token PipeQuery.Text
open Token.Shape (startsWith)

/-- The text in front of the lexer, `text` and more, begins with a token that is all of `text`, and
nothing is wrong with it. -/
structure Lexer.Takes (l : Lexer) (kind : Kind) (text : String) : Prop where
  kind_eq : l.next.1.kind = kind
  text_eq : l.next.1.text = text
  span_eq : l.next.1.span = Span.truncated
    ⟨l.cursor.position.offset, l.cursor.position.offset + byteLength text.toList⟩
  clean : l.next.2.1 = none
  rest_eq : l.cursor.rest = text.toList ++ l.next.2.2.cursor.rest

/-- The token is a piece of the text, and its decoding meets nothing that it has to guess at: what
begins with three quotes is verbatim, and anything else has only escapes that exist. -/
def Token.IsStringOf (text : List Char) (t : Token) : Prop :=
  ∃ before behind, text = before ++ (t.text.toList ++ behind) ∧
    t.span.start = byteLength before % 2 ^ 32 ∧
    (Quoted.triple <+: t.text.toList → Quoted.IsVerbatim t.text.toList behind) ∧
    (¬ Quoted.triple <+: t.text.toList → Quoted.IsEscaped t.text.toList)

namespace Lexer

variable {l l' : Lexer} {rest : List Char}

/-- A text of the mode is taken if nothing behind it carries it on. -/
theorem takes_of_forms {kind : Kind} {text : String}
    (hforms : Forms l.preview l.modes.current kind text.toList)
    (hrest : l.cursor.rest = text.toList ++ rest)
    (hends : ∀ c ∈ rest.head?, continues l.modes.current kind c = false) : l.Takes kind text := by
  have hstart : startsWith (continues l.modes.current kind) rest = false := by
    cases rest with
    | nil => rfl
    | cons c rest => exact hends c rfl
  have hstep : l.step = .token (l.modes.behind kind) kind text.toList.length := by
    rw [step, hrest, hforms.step hstart]
  have hne : l.cursor.rest ≠ [] := by
    rw [hrest]
    exact fun hnil => hforms.ne_nil (List.append_eq_nil_iff.mp hnil).1
  -- What is asked of the token is read off the one step that makes it.
  have hnext := next_of_rest_ne_nil hne
  have htoken : l.stepToken = .spanning kind l.cursor.position text.toList := by
    rw [stepToken, hstep, hrest]
    exact congrArg (Token.spanning kind _) List.take_left
  constructor
  · rw [hnext, htoken]
    rfl
  · rw [hnext, htoken]
    exact String.ofList_toList
  · rw [hnext, htoken]
    rfl
  · rw [hnext, stepDiagnostic?, hstep]
    rfl
  · rw [hnext, afterStep, hstep]
    show l.cursor.rest = text.toList ++ l.cursor.rest.drop text.toList.length
    rw [hrest, List.drop_left]

/-! ### Strings -/

/-- A string that is written is taken again as one token, in front of all but a quote. -/
theorem takes_encode {value : String} (hstrings : hasStrings l.modes.current = true)
    (hrest : l.cursor.rest = (Quoted.encode value).toList ++ rest)
    (hends : rest.head? ≠ some '\x22') : l.Takes .quotedString (Quoted.encode value) := by
  have hforms : Forms l.preview l.modes.current .quotedString (Quoted.encode value).toList :=
    .string hstrings (Quoted.isLiteral_encode value)
  apply takes_of_forms hforms hrest
  intro c hc
  have hquote : c ≠ '\x22' := by
    rintro rfl
    exact hends hc
  exact decide_eq_false hquote

/-- Where strings are read, a quote begins one, whatever the modes are behind it. -/
theorem step_at_quote (hstrings : hasStrings l.modes.current = true)
    (hrest : l.cursor.rest.head? = some '\x22') :
    l.step.kind = (Step.quotedString l.modes l.cursor.rest).kind ∧
      l.step.length = (Step.quotedString l.modes l.cursor.rest).length := by
  obtain ⟨rest, hrest⟩ := List.head?_eq_some_iff.mp hrest
  rw [step, hrest, step_eq_inMode l.preview l.modes rfl]
  cases hmode : l.modes.current with
  | expression | sources | lookup =>
      simp [Step.inMode, hmode, Step.inExpression, Step.inSources, Step.inLookup]
  | metrics =>
      -- The only one of the four that goes on to another mode behind a string.
      simp only [Step.inMode, hmode, Step.inMetrics]
      split <;> exact ⟨rfl, rfl⟩
  | _ => rw [hmode] at hstrings; cases hstrings

/-- A step that makes a string takes a literal that is closed. -/
theorem extent_of_step (h : l.step.kind = .quotedString) :
    l.cursor.rest.head? = some '\x22' ∧ (Quoted.extent l.cursor.rest).verdict = .closed ∧
      l.step.length = (Quoted.extent l.cursor.rest).length := by
  have haccounts := step_accounts l.preview l.modes l.cursor.rest
  -- The token made is a string, so the mode has them and the text begins with a quote.
  have hstrings : hasStrings l.modes.current = true ∧ l.cursor.rest.head? = some '\x22' := by
    unfold step at h
    generalize Token.step l.preview l.modes l.cursor.rest = s at haccounts h
    cases haccounts with
    | error => cases h
    | trivia _ htrivia =>
        obtain rfl : _ = Kind.quotedString := h
        cases htrivia
    | token _ hforms =>
        obtain rfl : _ = Kind.quotedString := h
        obtain ⟨hstrings, hliteral⟩ := hforms.of_quotedString
        refine ⟨hstrings, ?_⟩
        have hopened := hliteral.opened
        rw [List.head?_take] at hopened
        split at hopened
        · cases hopened
        · exact hopened
  obtain ⟨hkind, hlength⟩ := step_at_quote hstrings.1 hstrings.2
  rcases quotedString_cases l.modes l.cursor.rest with ⟨_, _, _, heq⟩ | ⟨hclosed, heq⟩
  · rw [hkind, heq] at h
    cases h
  · exact ⟨hstrings.2, hclosed, by rw [hlength, heq]; rfl⟩

/-- Every token that a reading makes is the token of a step, at its own place in the text. -/
theorem Reads.exists_step {tokens : List Token} {diagnostics : List Diagnostic}
    (h : l.Reads tokens diagnostics l') {t : Token} (ht : t ∈ tokens) :
    ∃ (before : List Char) (l₀ : Lexer), l.cursor.rest = before ++ l₀.cursor.rest ∧
      l₀.cursor.position.offset = l.cursor.position.offset + byteLength before ∧
      l₀.stepToken = t := by
  induction h with
  | done => cases ht
  | @step l l' tokens diagnostics hne rest ih =>
      rcases List.mem_cons.mp ht with rfl | ht
      · exact ⟨[], l, rfl, rfl, rfl⟩
      · obtain ⟨before, l₀, hrest, hoffset, htoken⟩ := ih ht
        refine ⟨l.cursor.rest.take l.step.length ++ before, l₀, ?_, ?_, htoken⟩
        · rw [List.append_assoc, ← hrest, take_append_afterStep]
        · rw [hoffset, afterStep_offset, byteLength_append, Nat.add_assoc]

/-- Every string token of a text is written as the literal it stands for. -/
theorem isStringOf_of_mem {preview : Bool} {text : String} {t : Token}
    (ht : t ∈ (lex preview text).all) (hkind : t.kind = .quotedString) :
    t.IsStringOf text.toList := by
  obtain ⟨tokens, diagnostics, l', hreads, hlex⟩ := exists_lex_eq preview text
  rw [hlex, Lexing.all] at ht
  rcases List.mem_append.mp ht with ht | ht
  · obtain ⟨t₀, ht₀, rfl⟩ := List.mem_map.mp ht
    obtain ⟨before, l₀, hrest, hoffset, rfl⟩ := hreads.exists_step ht₀
    obtain ⟨hopened, hclosed, hlength⟩ := extent_of_step hkind
    -- The literal is told from all the text ahead, not from the token: what stands behind decides
    -- how many quotes belong to it.
    have htext : l₀.stepToken.truncated.text.toList =
        l₀.cursor.rest.take (Quoted.extent l₀.cursor.rest).length := by
      rw [← hlength]
      exact String.toList_ofList
    obtain ⟨hverbatim, hescaped⟩ := Quoted.of_extent_closed hclosed hopened
    rw [Token.IsStringOf, htext]
    have hstart : l₀.stepToken.truncated.span.start = byteLength before % 2 ^ 32 := by
      rw [← Nat.zero_add (byteLength before)]
      exact (Span.truncated_start _).trans (congrArg (· % 2 ^ 32) hoffset)
    refine ⟨before, _, ?_, hstart, hverbatim, hescaped⟩
    rw [List.take_append_drop]
    exact hrest
  · -- The token at the end of the text is no string.
    obtain rfl := List.mem_singleton.mp ht
    cases hkind

/-- What a string is written as, in front of anything but a quote, is one string token wherever
strings are read, and is decoded to the string. Any string token of any text stands between triple
quotes and is decoded to what is between them, or has only escapes that exist. -/
theorem literal_codec :
    (∀ (l : Lexer) (value : String) (rest : List Char),
      l.modes.current ∈ [Mode.expression, .sources, .lookup, .metrics] →
      l.cursor.rest = (Quoted.encode value).toList ++ rest → rest.head? ≠ some '\x22' →
      l.Takes .quotedString (Quoted.encode value) ∧
        Quoted.decode (Quoted.encode value) = value) ∧
    (∀ (preview : Bool) (text : String), ∀ t ∈ (lex preview text).all,
      t.kind = .quotedString → t.IsStringOf text.toList) := by
  refine ⟨fun l value rest hmode hrest hends => ⟨?_, Quoted.decode_encode value⟩,
    fun _ _ _ => isStringOf_of_mem⟩
  refine takes_encode ?_ hrest hends
  simp only [List.mem_cons, List.not_mem_nil, or_false] at hmode
  rcases hmode with h | h | h | h <;> rw [h] <;> rfl

/-- A string of one quote in front of a blank, and a verbatim string that ends with a quote. -/
theorem literal_codec_quotes :
    (Lexer.mk false (.ofText "\x22\\\x22\x22 ") (ModeStack.bottom.push .lookup)).Takes .quotedString
        (Quoted.encode "\x22") ∧
      ∃ t ∈ (lex false "ROW a = \x22\x22\x22b\x22\x22\x22\x22").all, t.text.length = 8 ∧
        t.IsStringOf "ROW a = \x22\x22\x22b\x22\x22\x22\x22".toList := by
  refine ⟨(literal_codec.1 _ _ [' '] (by decide) (by decide +kernel) (by decide)).1, ?_⟩
  have ht : ⟨.quotedString, "\x22\x22\x22b\x22\x22\x22\x22", ⟨8, 16⟩, 1, 9, .default⟩ ∈
      (lex false "ROW a = \x22\x22\x22b\x22\x22\x22\x22").all := by
    decide +kernel
  exact ⟨_, ht, rfl, literal_codec.2 _ _ _ ht rfl⟩

/-! ### Names -/

/-- What a name is written as, in front of anything that cannot carry a name on, is one token in
expressions and behind `MV_EXPAND`, and the parser reads the name from it. -/
theorem identifier_codec (id : Identifier) {l : Lexer} {rest : List Char}
    (hmode : l.modes.current = .expression ∨ l.modes.current = .mvExpand)
    (hrest : l.cursor.rest = id.render.toList ++ rest)
    (hends : ∀ c ∈ rest.head?, ¬ (c.isAlphanum = true ∨ c = '_' ∨ c = '@' ∨ c = '\x60')) :
    ∃ kind, (kind = .identifier ∨ kind = .quotedIdentifier) ∧ l.Takes kind id.render ∧
      ∀ (what : String) (c : Parser.Context) (s : Parser.State) (lexeme : Lexeme)
        (behind : List Lexeme), lexeme.token = l.next.1 → s.rest = lexeme :: behind →
        ∃ id', Parser.identifier what c s = (.ok id', s.past [lexeme]) ∧ id'.name = id.name ∧
          id'.span = l.next.1.span := by
  have hnames : l.modes.current.ReadsNames l.preview := by
    rcases hmode with h | h
    · rw [h]; exact readsNames_expression _
    · rw [h]; exact readsNames_mvExpand _
  rcases id.forms_render hnames with ⟨-, hforms, hname⟩ | ⟨-, hforms, hname⟩
  · -- In backquotes: only another backquote would make the token go on.
    have htakes : l.Takes .quotedIdentifier id.render := by
      apply takes_of_forms hforms hrest
      intro c hc
      have hother := hends c hc
      simp only [not_or] at hother
      simp [continues, hother]
    refine ⟨_, .inr rfl, htakes, fun what c s lexeme behind htoken hs => ?_⟩
    have hid : Parser.IsIdentifier lexeme
        ⟨Backquoted.decode lexeme.token.text, true, lexeme.token.span⟩ :=
      .quoted (by rw [htoken, htakes.kind_eq])
    refine ⟨_, Parser.identifier_apply hs hid what, ?_, by rw [htoken]⟩
    rw [htoken, htakes.text_eq, hname]
  · -- As it is: the character behind neither continues a word nor makes it a pattern.
    have htakes : l.Takes .identifier id.render := by
      apply takes_of_forms hforms hrest
      intro c hc
      have hother := hends c hc
      simp only [not_or] at hother
      rw [continues_of_isWord rfl (by decide), hnames.carries_eq]
      simp [Shape.isNameChar, Shape.isSigil, hother]
    refine ⟨_, .inl rfl, htakes, fun what c s lexeme behind htoken hs => ?_⟩
    have hid : Parser.IsIdentifier lexeme ⟨lexeme.token.text, false, lexeme.token.span⟩ :=
      .bare (by rw [htoken, htakes.kind_eq])
    refine ⟨_, Parser.identifier_apply hs hid what, ?_, by rw [htoken]⟩
    rw [htoken, htakes.text_eq, hname]

/-- A name with a backquote in it, in front of a blank. -/
theorem identifier_codec_backquote :
    let l : Lexer := ⟨true, .ofText "\x60a\x60\x60b\x60 = 1", ModeStack.bottom.push .expression⟩
    let lexeme : Lexeme := ⟨l.next.1, false⟩
    ∃ kind, (kind = .identifier ∨ kind = .quotedIdentifier) ∧ l.Takes kind "\x60a\x60\x60b\x60" ∧
      ∃ id', Parser.identifier "a field name" ((lex true "").context "") (.initial [lexeme]) =
        (.ok id', (Parser.State.initial [lexeme]).past [lexeme]) ∧ id'.name = "a\x60b" := by
  intro l lexeme
  have hrender : (Identifier.mk "a\x60b" false ⟨0, 0⟩).render = "\x60a\x60\x60b\x60" := by
    decide +kernel
  have hrest : l.cursor.rest =
      (Identifier.mk "a\x60b" false ⟨0, 0⟩).render.toList ++ [' ', '=', ' ', '1'] := by
    decide +kernel
  have hends : ∀ c ∈ [' ', '=', ' ', '1'].head?,
      ¬ (c.isAlphanum = true ∨ c = '_' ∨ c = '@' ∨ c = '\x60') := by
    intro c hc
    obtain rfl : ' ' = c := Option.some.inj hc
    decide
  obtain ⟨kind, hkind, htakes, hparse⟩ :=
    identifier_codec ⟨"a\x60b", false, ⟨0, 0⟩⟩ (.inl rfl) hrest hends
  obtain ⟨id', hread, hname, -⟩ :=
    hparse "a field name" ((lex true "").context "") (.initial [lexeme]) lexeme [] rfl rfl
  exact ⟨kind, hkind, hrender ▸ htakes, id', hread, hname⟩

end Lexer

end PipeQuery
