import PipeQuery.Proofs.Parser.Steady

/-!
# `PipeQuery.Proofs.Parser.Plain`: the parser over tokens without places

The plain form of a text has the kinds and the texts of its tokens and nothing else, but for one
thing: whether hidden tokens stand next to a colon. The parser over a text and the one over its
plain form go in lockstep. They read the same trees but for the spans, and without lexical errors
the first one records a diagnostic just if the second one does. What is recorded differs, since two
diagnostics of a kind at one place are recorded once, and in plain form all places are one.
-/

set_option autoImplicit false

namespace PipeQuery

/-! ### Plain forms -/

/-- One span for all. -/
def Span.plain (_ : Span) : Span :=
  .point 0

/-- The token at the start of a text. -/
def Token.plain (t : Token) : Token where
  kind := t.kind
  text := t.text
  span := t.span.plain
  line := 1
  col := 1
  channel := .default

/-- The diagnostic at the start of a text. -/
def Diagnostic.plain (d : Diagnostic) : Diagnostic :=
  { d with span := d.span.plain, line := 1, col := 1 }

/-- Lexemes in plain form. Those at a colon tell whether hidden tokens stand before them.
`behindColon` says whether a colon stands in front of the first. -/
def Lexeme.plain (behindColon : Bool) : List Lexeme → List Lexeme
  | [] => []
  | l :: rest =>
    ⟨l.token.plain, l.spaced && (behindColon || l.token.kind = .colon)⟩ ::
      plain (l.token.kind = .colon) rest

namespace Parser

variable {α β : Type} {c : Context} {s s' : State} {f : α → α} {g : β → β}

/-- A parser over the plain form knows neither the text nor the lexical errors. -/
def Context.plain (c : Context) : Context :=
  ⟨[], c.endToken.plain, []⟩

/-- A state of the parser over a text and one over its plain form. The diagnostics are looked at
only if there are no lexical errors. -/
structure IsPlain (c : Context) (s s' : State) : Prop where
  eof : c.endToken.kind = .eof
  rest : ∃ behindColon, s'.rest = Lexeme.plain behindColon s.rest
  prevEnd : s'.prevEnd = 0
  depth : s'.depth = s.depth
  recorded : c.errorStarts = [] → (s'.IsClean ↔ s.IsClean)

/-- The outcomes of a step over a text and of one over its plain form. -/
structure OutcomePlain (c : Context) (f : α → α) (outcome outcome' : Except Diagnostic α × State) :
    Prop where
  result : outcome'.1 = (outcome.1.map f).mapError Diagnostic.plain
  state : IsPlain c outcome.2 outcome'.2

/-- The second step does over the plain form what the first one does over a text. -/
def ReadsPlain (f : α → α) (p p' : Parse α) : Prop :=
  ∀ ⦃c : Context⦄ ⦃s s' : State⦄, IsPlain c s s' → OutcomePlain c f (p c s) (p' c.plain s')

/-! ### Looks at the lexemes -/

/-- To make lexemes plain keeps their number. -/
@[simp]
theorem length_plain (behindColon : Bool) (w : List Lexeme) :
    (Lexeme.plain behindColon w).length = w.length := by
  induction w generalizing behindColon with
  | nil => rfl
  | cons l w ih => rw [Lexeme.plain, List.length_cons, List.length_cons, ih]

/-- It keeps their kinds, which are all the parser looks ahead for. -/
theorem kindIn_plain (behindColon : Bool) (w : List Lexeme) (n : Nat) :
    kindIn (Lexeme.plain behindColon w) n = kindIn w n := by
  induction w generalizing behindColon n with
  | nil => rfl
  | cons l w ih =>
      rw [Lexeme.plain]
      cases n with
      | zero => rfl
      | succ n => rw [kindIn_cons_succ, kindIn_cons_succ, ih]

/-- It keeps whether hidden tokens stand at a colon, and forgets it elsewhere. -/
theorem exists_plain_cons (behindColon : Bool) (l : Lexeme) (w : List Lexeme) :
    ∃ l', Lexeme.plain behindColon (l :: w) = l' :: Lexeme.plain (l.token.kind = .colon) w ∧
      l'.token = l.token.plain ∧ (l.token.kind = .colon → l'.spaced = l.spaced) :=
  ⟨_, rfl, rfl, fun hkind => by simp [hkind]⟩

/-- Right behind a colon, the plain form tells of hidden tokens. -/
theorem isSpaced_plain (w : List Lexeme) :
    (Lexeme.plain true w).head?.any Lexeme.spaced = w.head?.any Lexeme.spaced := by
  cases w with
  | nil => rfl
  | cons l w => simp [Lexeme.plain]

/-- A colon ahead is taken, and hidden tokens are looked for on both its sides. -/
theorem colon_apply {l : Lexeme} {w : List Lexeme} (hrest : s.rest = l :: w)
    (hl : l.token.kind = .colon) :
    colon c s = (.ok (some (l.spaced || w.head?.any Lexeme.spaced)), s.past [l]) := by
  have hpast : (s.past [l]).rest = w := past_rest (w := [l]) hrest
  simp only [colon, bind_apply_of_ok isSpaced_apply, bind_apply_of_ok (eat_apply hrest hl),
    hrest, hpast, List.head?_cons, Option.any_some, if_true, Parse.pure_apply]

/-- Without a colon ahead nothing is taken, and there is no answer. -/
theorem colon_apply_of_ne (h : s.kindAt 0 ≠ .colon) : colon c s = (.ok none, s) := by
  simp only [colon, bind_apply_of_ok isSpaced_apply, bind_apply_of_ok (eat_apply_of_ne h),
    Bool.false_eq_true, if_false, Parse.pure_apply]

/-- What is passed over is the same, and a place in plain form is the start. -/
theorem resumption_plain (inBrackets behindColon : Bool) (depth prevEnd : Nat) (w : List Lexeme) :
    (∃ behind, (resumption inBrackets depth 0 (Lexeme.plain behindColon w)).1 =
        Lexeme.plain behind (resumption inBrackets depth prevEnd w).1) ∧
      (resumption inBrackets depth 0 (Lexeme.plain behindColon w)).2 = 0 := by
  -- What is left may begin behind a colon even if the whole does not, so the flag is not fixed.
  induction w generalizing behindColon depth prevEnd with
  | nil => exact ⟨⟨false, rfl⟩, rfl⟩
  | cons l w ih =>
      obtain ⟨l', hplain, hl', -⟩ := exists_plain_cons behindColon l w
      have hstops : ∃ behind, l' :: Lexeme.plain (l.token.kind = .colon) w =
          Lexeme.plain behind (l :: w) := ⟨behindColon, hplain.symm⟩
      have hkind : l'.token.kind = l.token.kind := by rw [hl']; rfl
      have hstop : l'.token.span.stop = 0 := by rw [hl']; rfl
      rw [hplain, resumption, resumption, hkind, hstop]
      split
      · exact ⟨hstops, rfl⟩
      · exact ih _ _ _
      · split
        · exact ⟨hstops, rfl⟩
        · exact ih _ _ _
      · exact ih _ _ _

namespace IsPlain

variable (h : IsPlain c s s')

include h

/-- The plain state has the same kinds ahead. -/
theorem kindAt (n : Nat) : s'.kindAt n = s.kindAt n := by
  obtain ⟨behindColon, hrest⟩ := h.rest
  rw [kindAt_eq, kindAt_eq, hrest, kindIn_plain]

/-- It has as many lexemes ahead. -/
theorem length_eq : s'.rest.length = s.rest.length := by
  obtain ⟨behindColon, hrest⟩ := h.rest
  rw [hrest, length_plain]

/-- Its current token is the plain one. -/
theorem current : s'.current c.plain = (s.current c).plain := by
  obtain ⟨behindColon, hrest⟩ := h.rest
  rw [State.current, State.current, hrest]
  cases s.rest <;> rfl

/-- A look at the state that has the same answer over the plain form. -/
theorem look {v : Context → State → α} (hv : v c.plain s' = f (v c s)) :
    OutcomePlain c f (Parse.look v c s) (Parse.look v c.plain s') :=
  ⟨congrArg Except.ok hv, h⟩

/-- The lexeme that is taken from the plain form. -/
theorem past {l : Lexeme} {w : List Lexeme} (hrest : s.rest = l :: w) :
    ∃ l', s'.rest = l' :: Lexeme.plain (l.token.kind = .colon) w ∧ l'.token = l.token.plain ∧
      (l.token.kind = .colon → l'.spaced = l.spaced) ∧ IsPlain c (s.past [l]) (s'.past [l']) := by
  obtain ⟨behindColon, hplain⟩ := h.rest
  obtain ⟨l', hcons, htoken, hspaced⟩ := exists_plain_cons behindColon l w
  rw [hrest, hcons] at hplain
  have hpast : (s.past [l]).rest = w := past_rest (w := [l]) hrest
  have hpast' := past_rest (w := [l']) hplain
  refine ⟨l', hplain, htoken, hspaced, h.eof, ⟨l.token.kind = .colon, hpast ▸ hpast'⟩, ?_,
    h.depth, h.recorded⟩
  show l'.token.span.stop = 0
  rw [htoken]
  rfl

/-- Nothing is taken on either side. -/
theorem stays {s₁ s₁' : State} (hmoves : Moves s [] s₁) (hmoves' : Moves s' [] s₁')
    (hrecorded : c.errorStarts = [] → (s₁'.IsClean ↔ s₁.IsClean)) : IsPlain c s₁ s₁' := by
  obtain ⟨behindColon, hrest⟩ := h.rest
  have hsame : s.rest = s₁.rest := hmoves.rest_eq
  have hsame' : s'.rest = s₁'.rest := hmoves'.rest_eq
  refine ⟨h.eof, ⟨behindColon, ?_⟩, hmoves'.prevEnd_eq.trans h.prevEnd, ?_, hrecorded⟩
  · rw [← hsame, ← hsame', hrest]
  · rw [hmoves.depth_eq, hmoves'.depth_eq, h.depth]

end IsPlain

/-! ### Rules -/

/-- What follows a step may make use of what the step did over the text. -/
theorem OutcomePlain.bind {p p' : Parse α} {k k' : α → Parse β}
    (hp : OutcomePlain c f (p c s) (p' c.plain s'))
    (hk : ∀ a s₁ s₁', p c s = (.ok a, s₁) → IsPlain c s₁ s₁' →
      OutcomePlain c g (k a c s₁) (k' (f a) c.plain s₁')) :
    OutcomePlain c g ((p >>= k) c s) ((p' >>= k') c.plain s') := by
  obtain ⟨hresult, hstate⟩ := hp
  rw [Parse.bind_apply, Parse.bind_apply]
  generalize p c s = outcome at hresult hstate hk
  generalize p' c.plain s' = outcome' at hresult hstate
  obtain ⟨result, s₁⟩ := outcome
  obtain ⟨result', s₁'⟩ := outcome'
  obtain rfl : result' = _ := hresult
  cases result with
  | ok a => exact hk a s₁ s₁' rfl hstate
  | error d => exact ⟨rfl, hstate⟩

namespace ReadsPlain

/-- A constant is read from the plain lexemes as its image. -/
theorem pure (a : α) : ReadsPlain f (pure a : Parse α) (Pure.pure (f a)) :=
  fun _ _ _ h => ⟨rfl, h⟩

/-- A stop is read as the stop with the plain diagnostic. -/
theorem stop (d : Diagnostic) : ReadsPlain f (.stop d : Parse α) (.stop d.plain) :=
  fun _ _ _ h => ⟨rfl, h⟩

/-- A sequence is read from the plain lexemes step by step. -/
theorem bind {p p' : Parse α} {k k' : α → Parse β} (hp : ReadsPlain f p p')
    (hk : ∀ a, ReadsPlain g (k a) (k' (f a))) : ReadsPlain g (p >>= k) (p' >>= k') :=
  fun _ _ _ h => (hp h).bind fun a _ _ _ h₁ => hk a h₁

/-- The current token is read as the plain one. -/
theorem current : ReadsPlain Token.plain current current :=
  fun _ _ _ h => h.look h.current

/-- The kind ahead is the same. -/
theorem peek : ReadsPlain id peek peek :=
  fun _ _ _ h => h.look (h.kindAt 0)

/-- The kind behind it is the same. -/
theorem peekSecond : ReadsPlain id peekSecond peekSecond :=
  fun _ _ _ h => h.look (h.kindAt 1)

/-- The number of lexemes ahead is the same. -/
theorem remaining : ReadsPlain id remaining remaining :=
  fun _ _ _ h => h.look h.length_eq

/-- The token that is taken is the plain one. -/
theorem advance : ReadsPlain Token.plain advance advance := by
  intro c s s' h
  cases hrest : s.rest with
  | nil =>
      have hrest' : s'.rest = [] := List.length_eq_zero_iff.mp (by rw [h.length_eq, hrest]; rfl)
      simp only [Parser.advance, hrest, hrest']
      exact ⟨rfl, h⟩
  | cons l w =>
      obtain ⟨l', hplain, htoken, -, hstate⟩ := h.past hrest
      rw [advance_apply hrest, advance_apply hplain]
      exact ⟨congrArg Except.ok htoken, hstate⟩

/-- The span of a node is forgotten with its tokens. -/
theorem spanFrom (first : Span) :
    ReadsPlain Span.plain (spanFrom first) (spanFrom first.plain) := by
  intro c s s' h
  have hspan : (⟨first.plain.start, max s'.prevEnd first.plain.stop⟩ : Span) = .point 0 := by
    rw [h.prevEnd]
    rfl
  exact ⟨congrArg Except.ok hspan, h⟩

/-- A diagnostic about a span is about the plain span. -/
theorem located (cause : Diagnostic.Cause) (span : Span) :
    ReadsPlain Diagnostic.plain (located cause span) (located cause span.plain) :=
  fun _ _ _ h => ⟨rfl, h⟩

/-- What is recorded over a text without lexical errors leaves no clean state. -/
theorem record (d : Diagnostic) : ReadsPlain id (record d) (record d.plain) := by
  intro c s s' h
  obtain ⟨_, s₁, hrecord⟩ := total_record d c s
  obtain ⟨_, s₁', hrecord'⟩ := total_record d.plain c.plain s'
  obtain ⟨hmoves', hdirty'⟩ := record_ok rfl hrecord'
  have hmoves := record_moves hrecord
  rw [hrecord, hrecord']
  exact ⟨rfl, h.stays hmoves hmoves' fun herr => iff_of_false hdirty' (record_ok herr hrecord).2⟩

/-- Hidden tokens at a colon are those of the text. -/
theorem colon : ReadsPlain id colon colon := by
  intro c s s' h
  by_cases hkind : s.kindAt 0 = .colon
  · obtain ⟨l, w, hrest, hl⟩ := exists_lexeme hkind (by decide)
    obtain ⟨l', hplain, htoken, hspaced, hstate⟩ := h.past hrest
    have hl' : l'.token.kind = .colon := htoken ▸ hl
    rw [colon_apply hrest hl, colon_apply hplain hl', hspaced hl, decide_eq_true hl, isSpaced_plain]
    exact ⟨rfl, hstate⟩
  · rw [colon_apply_of_ne hkind, colon_apply_of_ne (h.kindAt 0 ▸ hkind)]
    exact ⟨rfl, h⟩

/-- A recovery goes by kinds only, so it passes over as many lexemes. -/
theorem recover (inBrackets : Bool) :
    ReadsPlain id (recover inBrackets) (recover inBrackets) := by
  intro c s s' h
  obtain ⟨behindColon, hrest⟩ := h.rest
  obtain ⟨hbehind, hprevEnd⟩ := resumption_plain inBrackets behindColon 0 s.prevEnd s.rest
  have hresumes : resumption inBrackets 0 s'.prevEnd s'.rest =
      resumption inBrackets 0 0 (Lexeme.plain behindColon s.rest) := by rw [hrest, h.prevEnd]
  rw [← hresumes] at hbehind hprevEnd
  exact ⟨rfl, h.eof, hbehind, hprevEnd, h.depth, h.recorded⟩

/-- A salvaged step is read from the plain lexemes, also when it stops. -/
theorem salvage {p p' : Parse α} (hp : ReadsPlain f p p') (inBrackets : Bool) :
    ReadsPlain (Option.map f) (salvage p inBrackets) (salvage p' inBrackets) := by
  intro c s s' h
  obtain ⟨hresult, hstate⟩ := hp h
  rw [salvage_apply, salvage_apply]
  generalize p c s = outcome at hresult hstate
  generalize p' c.plain s' = outcome' at hresult hstate
  obtain ⟨result, s₁⟩ := outcome
  obtain ⟨result', s₁'⟩ := outcome'
  obtain rfl : result' = _ := hresult
  cases result with
  | ok a => exact ⟨rfl, hstate⟩
  | error d =>
      have hreport : ReadsPlain (Option.map f)
          (do Parser.record d; Parser.recover inBrackets; return none)
          (do Parser.record d.plain; Parser.recover inBrackets; return none) :=
        bind (record d) fun _ => bind (recover inBrackets) fun _ => pure none
      exact hreport hstate

/-- An attempt is given up in both readings or in neither. -/
theorem attempt {p : Parse (Option α)} (hp : ReadsPlain (Option.map f) p p) :
    ReadsPlain (Option.map f) (attempt p) (attempt p) := by
  intro c s s' h
  obtain ⟨hresult, hstate⟩ := hp h
  unfold Parser.attempt
  generalize p c s = outcome at hresult hstate
  generalize p c.plain s' = outcome' at hresult hstate
  obtain ⟨result, s₁⟩ := outcome
  obtain ⟨result', s₁'⟩ := outcome'
  obtain rfl : result' = _ := hresult
  -- Without an answer both go back, but keep what was recorded on the way.
  match result with
  | .ok (some a) => exact ⟨rfl, hstate⟩
  | .ok none => exact ⟨rfl, h.eof, h.rest, h.prevEnd, hstate.depth, hstate.recorded⟩
  | .error d => exact ⟨rfl, h.eof, h.rest, h.prevEnd, hstate.depth, hstate.recorded⟩

/-- One level deeper, what is read plain is read plain. -/
theorem deeper {p p' : Parse α} (hp : ReadsPlain f p p') :
    ReadsPlain f (deeper p) (deeper p') := by
  intro c s s' h
  have hdeeper : IsPlain c { s with depth := s.depth + 1 } { s' with depth := s'.depth + 1 } :=
    ⟨h.eof, h.rest, h.prevEnd, congrArg (· + 1) h.depth, h.recorded⟩
  obtain ⟨hresult, hstate⟩ := hp hdeeper
  exact ⟨hresult, h.eof, hstate.rest, hstate.prevEnd, congrArg (· - 1) hstate.depth,
    hstate.recorded⟩

/-- The stop at the limit of nesting is read as the same stop. -/
theorem tooDeep : ReadsPlain f (tooDeep : Parse α) tooDeep := by
  intro c s s' h
  have hstops : ∀ c s, (Parser.tooDeep : Parse α) c s =
    (.error (Diagnostic.Cause.onToken (.tooDeep s.depth) (s.current c)), s) := fun _ _ => rfl
  rw [hstops, hstops, h.depth, h.current]
  exact ⟨rfl, h⟩

end ReadsPlain

/-- Two steps are compared as one over a text and one over its plain form. -/
def Lockstep.plain : Lockstep where
  place := Span.plain
  token := Token.plain
  diagnostic := Diagnostic.plain
  relates := ReadsPlain
  place_merge _ _ := rfl
  place_point _ := rfl
  token_kind _ := rfl
  token_text _ := rfl
  token_span _ := rfl
  diagnostic_onToken _ _ := rfl
  relates_pure := ReadsPlain.pure
  relates_bind := ReadsPlain.bind
  relates_stop := ReadsPlain.stop
  relates_current := ReadsPlain.current
  relates_peek := ReadsPlain.peek
  relates_peekSecond := ReadsPlain.peekSecond
  relates_remaining := ReadsPlain.remaining
  relates_advance := ReadsPlain.advance
  relates_colon := ReadsPlain.colon
  relates_spanFrom := ReadsPlain.spanFrom
  relates_located := ReadsPlain.located
  relates_record := ReadsPlain.record
  relates_recover := ReadsPlain.recover
  relates_salvage := ReadsPlain.salvage
  relates_attempt := ReadsPlain.attempt

end Parser

end PipeQuery
