import PipeQuery.Proofs.Parser.Step
import PipeQuery.Proofs.Token.Piping

/-!
# `PipeQuery.Proofs.Parser.Embedding`: one parser at two places

The lexemes of a text are found again in a longer one, with other bytes in front of them and, it may
be, a pipe behind them. `Embedding` describes how, `States` relates the states of a parser over the
text to those over the longer one, and `Agrees` says of the outcomes of two steps that they are
related again. A step that carries related states to such outcomes is one that `Carries`. The rules
here are those of the steps of `PipeQuery.Parser.Basic`; whatever is made of these carries as well.

What is at the end of the text alone is in front of a pipe in the longer one. Few steps tell the two
apart, and those that do have no rule here.

The diagnostics of both can be followed or left out of account. What they tell has no influence on
what is read, but only those of a text with nothing behind it, or of one without errors, have their
like over the longer text.
-/

set_option autoImplicit false

namespace PipeQuery

/-- The diagnostic `d'` is `d`, by `k` bytes further on, as far as its kind and its start tell. -/
structure Diagnostic.Moved (k : Nat) (d d' : Diagnostic) : Prop where
  kind_eq : d'.kind = d.kind
  start_eq : d'.span.start = d.span.start + k

namespace Parser

/-- How the lexemes of a text stand in a longer one: `offset` bytes further on and with the lexemes
`behind` behind them, which begin with a pipe if there are any. -/
structure Embedding where
  offset : Nat
  behind : List Lexeme
  pipe : ∀ {l rest}, behind = l :: rest → l.token.kind = .pipe
  /-- Whether the diagnostics are followed. -/
  traced : Prop := True
  /-- What is known of the lexemes of the text that are ahead, however many were taken. -/
  ahead : List Lexeme → Prop := fun _ => True
  ahead_tail : ∀ {l rest}, ahead (l :: rest) → ahead rest := by exact fun _ => trivial

/-- The two results are in relation by a function. -/
def Image {α : Type} (f : α → α) (a b : α) : Prop :=
  b = f a

namespace Embedding

variable {α β : Type}

/-- What the parser knows about the text and about the longer one. With lexemes behind the text,
only a text without lexical errors is of interest for the diagnostics. -/
structure Contexts (e : Embedding) (c c' : Context) : Prop where
  eof : c.endToken.kind = .eof
  endToken : e.behind = [] →
    c'.endToken.kind = .eof ∧ (e.traced → c.endToken.Moved e.offset c'.endToken)
  errorStarts : e.behind = [] → e.traced → c'.errorStarts = c.errorStarts.map (· + e.offset)
  accepted : e.behind ≠ [] ∧ e.traced → c.errorStarts = []

/-- A state of a parser over the text, with `n` lexemes ahead at most, and one over the longer text
at the same place. With lexemes behind the text, the diagnostics agree as long as there are none. -/
structure States (e : Embedding) (n : Nat) (s s' : State) : Prop where
  bound : s.rest.length ≤ n
  ahead : e.ahead s.rest
  rest : ∃ w, s'.rest = w ++ e.behind ∧ List.Forall₂ (Lexeme.Moved e.offset) s.rest w
  prevEnd : s'.prevEnd = s.prevEnd + e.offset
  recorded : e.traced → List.Forall₂ (Diagnostic.Moved e.offset) s.recorded s'.recorded ∨
    e.behind ≠ [] ∧ s.recorded ≠ []

/-- The diagnostics are the same if nothing stands behind the text and they are followed. -/
def Diagnoses (e : Embedding) (d d' : Diagnostic) : Prop :=
  e.behind = [] → e.traced → d.Moved e.offset d'

/-- Both steps succeed with related values or both stop. -/
inductive Results (e : Embedding) (R : α → α → Prop) :
    Except Diagnostic α → Except Diagnostic α → Prop where
  | ok {a b : α} (h : R a b) : Results e R (.ok a) (.ok b)
  | error {d d' : Diagnostic} (h : e.Diagnoses d d') : Results e R (.error d) (.error d')

/-- The outcomes of two steps are related. -/
structure Agrees (e : Embedding) (n : Nat) (R : α → α → Prop)
    (o o' : Except Diagnostic α × State) : Prop where
  results : e.Results R o.1 o'.1
  states : e.States n o.2 o'.2

/-- From related states the step leads to related outcomes. -/
def Carries (e : Embedding) (c c' : Context) (R : α → α → Prop) (p : Parse α) : Prop :=
  ∀ ⦃n s s'⦄, e.States n s s' → e.Agrees n R (p c s) (p c' s')

/-- A lexeme is ahead of each parser, and they are the same. What was taken before is left open; it
makes no difference behind the lexemes, with `m` more ahead at most. -/
structure Front (e : Embedding) (m : Nat) (s s' : State) (l l' : Lexeme) : Prop where
  rest : ∃ r, s.rest = l :: r
  rest' : ∃ r, s'.rest = l' :: r
  moved : l.token.Moved e.offset l'.token
  past : e.States m (s.past [l]) (s'.past [l'])

/-- The kinds of tokens that the end of the text has, there and in the longer one. -/
def AtEnd (kind : Token.Kind) : Prop :=
  kind = .eof ∨ kind = .pipe

/-- Being at the end can be decided, so a choice may be made on it. -/
instance : DecidablePred AtEnd :=
  fun _ => inferInstanceAs (Decidable (_ ∨ _))

/-- What is known of the lexemes ahead is known of the last ones among them. -/
theorem ahead_of_suffix (e : Embedding) {r r' : List Lexeme} (h : r <:+ r') (hahead : e.ahead r') :
    e.ahead r := by
  obtain ⟨w, rfl⟩ := h
  induction w with
  | nil => exact hahead
  | cons l w ih => exact ih (e.ahead_tail hahead)

variable {e : Embedding} {c c' : Context} {n m : Nat} {s s' : State} {R : α → α → Prop}

/-! ### States -/

/-- States that belong together with few lexemes ahead do so when more are allowed. -/
theorem States.mono (h : e.States m s s') (hle : m ≤ n) : e.States n s s' :=
  { h with bound := h.bound.trans hle }

/-- Outcomes that agree with few lexemes ahead do so when more are allowed. -/
theorem Agrees.mono {o o' : Except Diagnostic α × State} (h : e.Agrees m R o o') (hle : m ≤ n) :
    e.Agrees n R o o' :=
  ⟨h.results, h.states.mono hle⟩

/-- Outcomes that agree do so one lexeme earlier. -/
theorem Agrees.weaken {o o' : Except Diagnostic α × State} (h : e.Agrees m R o o') :
    e.Agrees (m + 1) R o o' :=
  h.mono (Nat.le_succ m)

/-- With no lexemes allowed the first parse is at its end. -/
theorem States.rest_eq_nil (h : e.States 0 s s') : s.rest = [] :=
  List.length_eq_zero_iff.mp (Nat.le_zero.mp h.bound)

/-- The bound may be the number of lexemes itself. -/
theorem States.tighten (h : e.States n s s') : e.States s.rest.length s s' :=
  { h with bound := le_refl _ }

/-- The longer text has all lexemes of the text. -/
theorem States.length_le (h : e.States n s s') : s.rest.length ≤ s'.rest.length := by
  obtain ⟨w, hrest', hmoved⟩ := h.rest
  rw [hrest', List.length_append, hmoved.length_eq]
  exact Nat.le_add_right _ _

/-- There is a lexeme ahead of both or the text is at its end. -/
theorem States.front_or_end (h : e.States n s s') :
    (∃ m l l', n = m + 1 ∧ e.Front m s s' l l' ∧ l'.spaced = l.spaced) ∨
      s.rest = [] ∧ s'.rest = e.behind := by
  obtain ⟨w, hrest', hmoved⟩ := h.rest
  cases hrest : s.rest with
  | nil =>
      rw [hrest] at hmoved
      cases hmoved
      exact .inr ⟨rfl, hrest'⟩
  | cons l r =>
      rw [hrest] at hmoved
      cases hmoved with
      | @cons _ l' _ w hl hw =>
          -- One lexeme less is ahead behind it, of both.
          obtain ⟨m, rfl⟩ : ∃ m, n = m + 1 := by
            refine Nat.exists_eq_add_one.mpr (Nat.lt_of_lt_of_le ?_ h.bound)
            simp [hrest]
          have hbound : r.length ≤ m := by
            have hbound := h.bound
            rw [hrest, List.length_cons] at hbound
            omega
          have hpast : (s.past [l]).rest = r := past_rest hrest
          have hpast' : (s'.past [l']).rest = w ++ e.behind := past_rest hrest'
          have hahead := h.ahead
          rw [hrest] at hahead
          refine .inl ⟨m, l, l', rfl, ⟨⟨r, hrest⟩, ⟨_, hrest'⟩, hl.token, ?_, ?_, ?_, ?_, ?_⟩,
            hl.spaced_eq⟩
          · rwa [hpast]
          · rw [hpast]
            exact e.ahead_tail hahead
          · exact ⟨w, hpast', by rwa [hpast]⟩
          · rw [past_prevEnd, past_prevEnd, lastStop_singleton, lastStop_singleton,
              hl.token.span_eq, Span.shift_stop]
          · exact h.recorded

/-- In front of both parses stands a token of one kind. -/
theorem Front.kindAt_zero {l l' : Lexeme} (h : e.Front m s s' l l') :
    s.kindAt 0 = l.token.kind ∧ s'.kindAt 0 = l.token.kind := by
  obtain ⟨r, hrest⟩ := h.rest
  obtain ⟨r', hrest'⟩ := h.rest'
  rw [kindAt_eq, kindAt_eq, hrest, hrest', kindIn_cons_zero, kindIn_cons_zero]
  exact ⟨rfl, h.moved.kind_eq⟩

/-- What stands behind the text begins with a pipe. -/
theorem kindIn_behind (e : Embedding) : AtEnd (kindIn e.behind 0) := by
  cases hbehind : e.behind with
  | nil => exact .inl rfl
  | cons l rest => exact .inr (e.pipe hbehind)

/-- The kind ahead is the same unless the text is at its end. -/
theorem States.kindAt_zero (h : e.States n s s') :
    s'.kindAt 0 = s.kindAt 0 ∨ s.kindAt 0 = .eof ∧ s'.kindAt 0 = .pipe := by
  rcases h.front_or_end with ⟨m, l, l', -, hfront, -⟩ | ⟨hrest, hrest'⟩
  · obtain ⟨hkind, hkind'⟩ := hfront.kindAt_zero
    exact .inl (hkind'.trans hkind.symm)
  · rw [kindAt_eq, kindAt_eq, hrest, hrest', kindIn_nil]
    exact (kindIn_behind e).imp_right fun h => ⟨rfl, h⟩

/-- Where the text is at its end, the longer one is at its end or at the pipe. -/
theorem States.kindAt_end (h : e.States n s s') (hrest : s.rest = []) :
    s.kindAt 0 = .eof ∧ AtEnd (s'.kindAt 0) := by
  have hend : s.kindAt 0 = .eof := by rw [kindAt_eq, hrest, kindIn_nil]
  exact ⟨hend, h.kindAt_zero.elim (fun heq => .inl (heq.trans hend)) fun h => .inr h.2⟩

/-- Whether a kind that no end has is ahead. -/
theorem States.kindAt_iff (h : e.States n s s') {kind : Token.Kind} (hkind : ¬ AtEnd kind) :
    s'.kindAt 0 = kind ↔ s.kindAt 0 = kind := by
  rcases h.kindAt_zero with heq | ⟨heof, hpipe⟩
  · rw [heq]
  · rw [heof, hpipe]
    exact ⟨fun heq => absurd (.inr heq.symm) hkind, fun heq => absurd (.inl heq.symm) hkind⟩

/-- A lexeme of such a kind is ahead of both or of neither. -/
theorem States.ahead_or (h : e.States n s s') {kind : Token.Kind} (hkind : ¬ AtEnd kind) :
    (∃ m l l', n = m + 1 ∧ e.Front m s s' l l' ∧ l.token.kind = kind ∧ l'.token.kind = kind) ∨
      s.kindAt 0 ≠ kind ∧ s'.kindAt 0 ≠ kind := by
  by_cases hahead : s.kindAt 0 = kind
  · rcases h.front_or_end with ⟨m, l, l', hm, hfront, -⟩ | ⟨hrest, -⟩
    · have hl : l.token.kind = kind := hfront.kindAt_zero.1.symm.trans hahead
      exact .inl ⟨m, l, l', hm, hfront, hl, hfront.moved.kind_eq.trans hl⟩
    · rw [kindAt_eq, hrest, kindIn_nil] at hahead
      exact absurd (.inl hahead.symm) hkind
  · exact .inr ⟨hahead, mt (h.kindAt_iff hkind).mp hahead⟩

/-- With no lexeme left there is no kind ahead but that of an end. -/
theorem States.kindAt_ne (h : e.States 0 s s') {kind : Token.Kind} (hkind : ¬ AtEnd kind) :
    s.kindAt 0 ≠ kind ∧ s'.kindAt 0 ≠ kind := by
  rcases h.ahead_or hkind with ⟨m, l, l', hm, -⟩ | hne
  · cases hm
  · exact hne

/-- The token ahead is the same if nothing stands behind the text. -/
theorem States.current (hc : e.Contexts c c') (h : e.States n s s') (hbehind : e.behind = [])
    (htraced : e.traced) : (s.current c).Moved e.offset (s'.current c') := by
  rcases h.front_or_end with ⟨m, l, l', -, hfront, -⟩ | ⟨hrest, hrest'⟩
  · obtain ⟨r, hrest⟩ := hfront.rest
    obtain ⟨r', hrest'⟩ := hfront.rest'
    simp only [State.current, hrest, hrest']
    exact hfront.moved
  · rw [hbehind] at hrest'
    simp only [State.current, hrest, hrest']
    exact (hc.endToken hbehind).2 htraced

/-- At its end the text has an end token, and the longer one a pipe if it goes on. -/
theorem Contexts.atEnd (hc : e.Contexts c c') (hrest : s.rest = []) (hrest' : s'.rest = e.behind) :
    AtEnd (s.current c).kind ∧ AtEnd (s'.current c').kind := by
  refine ⟨.inl ?_, ?_⟩
  · rw [State.current, hrest]
    exact hc.eof
  · cases hbehind : e.behind with
    | nil =>
        refine .inl ?_
        rw [State.current, hrest', hbehind]
        exact (hc.endToken hbehind).1
    | cons l rest =>
        refine .inr ?_
        rw [State.current, hrest', hbehind]
        exact e.pipe hbehind

/-! ### Steps that take nothing -/

/-- A constant in either parse agrees if the two values do. -/
theorem States.pure (h : e.States n s s') {a b : α} (hab : R a b) :
    e.Agrees n R ((Pure.pure a : Parse α) c s) ((Pure.pure b : Parse α) c' s') :=
  ⟨.ok hab, h⟩

/-- A step and then another that depends on it, and on what the first step did with the text. -/
theorem Agrees.bind_of_ok {S : β → β → Prop} {p p' : Parse α} {f f' : α → Parse β}
    (h : e.Agrees n R (p c s) (p' c' s'))
    (hf : ∀ {a b s₁ s₁'}, p c s = (.ok a, s₁) → R a b → e.States n s₁ s₁' →
      e.Agrees n S (f a c s₁) (f' b c' s₁')) :
    e.Agrees n S ((p >>= f) c s) ((p' >>= f') c' s') := by
  rw [Parse.bind_apply, Parse.bind_apply]
  obtain ⟨hresults, hstates⟩ := h
  generalize p c s = o at hresults hstates hf
  generalize p' c' s' = o' at hresults hstates
  obtain ⟨r, s₁⟩ := o
  obtain ⟨r', s₁'⟩ := o'
  cases hresults with
  | ok hab => exact hf rfl hab hstates
  | error h => exact ⟨.error h, hstates⟩

/-- A step and then another that depends on it. -/
theorem Agrees.bind {S : β → β → Prop} {p p' : Parse α} {f f' : α → Parse β}
    (h : e.Agrees n R (p c s) (p' c' s'))
    (hf : ∀ {a b s₁ s₁'}, R a b → e.States n s₁ s₁' → e.Agrees n S (f a c s₁) (f' b c' s₁')) :
    e.Agrees n S ((p >>= f) c s) ((p' >>= f') c' s') :=
  h.bind_of_ok fun _ => hf

/-- A condition that has the same answer for both. -/
theorem Agrees.ite {b b' : Prop} [Decidable b] [Decidable b'] {p q p' q' : Parse α} (hb : b' ↔ b)
    (hyes : b → e.Agrees n R (p c s) (p' c' s')) (hno : ¬ b → e.Agrees n R (q c s) (q' c' s')) :
    e.Agrees n R ((if b then p else q) c s) ((if b' then p' else q') c' s') := by
  by_cases h : b
  · rw [if_pos h, if_pos (hb.mpr h)]
    exact hyes h
  · rw [if_neg h, if_neg (mt hb.mp h)]
    exact hno h

/-- A stop in either parse agrees if the two diagnostics do. -/
theorem States.stop (h : e.States n s s') {d d' : Diagnostic} (hd : e.Diagnoses d d') :
    e.Agrees n R ((Parse.stop d : Parse α) c s) ((Parse.stop d' : Parse α) c' s') :=
  ⟨.error hd, h⟩

/-- Causes of one kind at the token ahead. -/
theorem States.onToken (hc : e.Contexts c c') (h : e.States n s s')
    {cause cause' : Diagnostic.Cause} (hkind : cause'.kind = cause.kind) :
    e.Diagnoses (cause.onToken (s.current c)) (cause'.onToken (s'.current c')) :=
  fun hbehind htraced => ⟨hkind, congrArg Span.start (h.current hc hbehind htraced).span_eq⟩

/-- What was expected is told alike, and at the end of the shorter text it is left open. -/
theorem States.expected (hc : e.Contexts c c') (h : e.States n s s') (what : String) :
    e.Agrees n e.Diagnoses (expected what c s) (expected what c' s') :=
  ⟨.ok (h.onToken hc rfl), h⟩

/-- To stop with it agrees in both parses. -/
theorem States.unexpected (hc : e.Contexts c c') (h : e.States n s s') (what : String) :
    e.Agrees n R ((unexpected what : Parse α) c s) ((unexpected what : Parse α) c' s') :=
  (h.expected hc what).bind fun hd hs => hs.stop hd

/-- A diagnostic about a span is the same one about the shifted span. -/
theorem States.located (h : e.States n s s') {cause cause' : Diagnostic.Cause} {span span' : Span}
    (hkind : cause'.kind = cause.kind) (hspan : span' = span.shift e.offset) :
    e.Agrees n e.Diagnoses (located cause span c s) (located cause' span' c' s') :=
  ⟨.ok fun _ _ => ⟨hkind, congrArg Span.start hspan⟩, h⟩

/-- Stops with a diagnostic at a span. -/
theorem States.stopAt (h : e.States n s s') {cause cause' : Diagnostic.Cause} {span span' : Span}
    (hkind : cause'.kind = cause.kind) (hspan : span' = span.shift e.offset) :
    e.Agrees n R ((do .stop (← Parser.located cause span) : Parse α) c s)
      ((do .stop (← Parser.located cause' span') : Parse α) c' s') := by
  refine (h.located hkind hspan).bind ?_
  exact fun hd hs => hs.stop hd

/-- The stop at the limit of nesting agrees in both parses. -/
theorem States.tooDeep (hc : e.Contexts c c') (h : e.States n s s') :
    e.Agrees n R ((tooDeep : Parse α) c s) ((tooDeep : Parse α) c' s') :=
  ⟨.error (h.onToken hc rfl), h⟩

/-- One diagnostic repeats another in the longer text just if the shorter one has the same
repetition. -/
theorem any_moved {k : Nat} {ds ds' : List Diagnostic}
    (h : List.Forall₂ (Diagnostic.Moved k) ds ds') {d d' : Diagnostic} (hd : d.Moved k d') :
    ds'.any (fun x => x.span.start = d'.span.start && x.kind = d'.kind) =
      ds.any fun x => x.span.start = d.span.start && x.kind = d.kind := by
  induction h with
  | nil => rfl
  | cons hx _ ih =>
      rw [List.any_cons, List.any_cons, ih, hx.kind_eq, hx.start_eq, hd.kind_eq, hd.start_eq]
      simp

/-- What is recorded has no part in what is read. -/
theorem record_keeps (d : Diagnostic) (c : Context) (s : State) :
    (Parser.record d c s).1 = .ok () ∧ (Parser.record d c s).2.rest = s.rest ∧
      (Parser.record d c s).2.prevEnd = s.prevEnd := by
  unfold Parser.record
  split <;> exact ⟨rfl, rfl, rfl⟩

/-- The diagnostics recorded last agree if those before do. -/
theorem States.recorded_record (hc : e.Contexts c c') (h : e.States n s s') {d d' : Diagnostic}
    (hd : e.Diagnoses d d') (htraced : e.traced) :
    List.Forall₂ (Diagnostic.Moved e.offset) (Parser.record d c s).2.recorded
        (Parser.record d' c' s').2.recorded ∨
      e.behind ≠ [] ∧ (Parser.record d c s).2.recorded ≠ [] := by
  by_cases hbehind : e.behind = []
  · -- The same start is looked up among the same diagnostics, all further on.
    left
    have hall := (h.recorded htraced).resolve_right fun hne => hne.1 hbehind
    have hmoved := hd hbehind htraced
    have hlexical :
        c'.errorStarts.contains d'.span.start = c.errorStarts.contains d.span.start := by
      rw [hc.errorStarts hbehind htraced, hmoved.start_eq, Bool.eq_iff_iff, List.contains_iff_mem,
        List.contains_iff_mem]
      simp
    simp only [Parser.record, hlexical, any_moved hall hmoved]
    split
    · exact hall
    · exact .cons hmoved hall
  · -- Something is recorded, if not now then before.
    refine .inr ⟨hbehind, ?_⟩
    rw [Parser.record, hc.accepted ⟨hbehind, htraced⟩]
    split
    case isTrue hany =>
      rintro hnil
      rw [show s.recorded = [] from hnil] at hany
      simp at hany
    case isFalse => exact List.cons_ne_nil _ _

/-- To record a diagnostic agrees: it is dropped in both parses or in neither. -/
theorem States.record (hc : e.Contexts c c') (h : e.States n s s') {d d' : Diagnostic}
    (hd : e.Diagnoses d d') : e.Agrees n Eq (record d c s) (record d' c' s') := by
  obtain ⟨hresult, hrest, hprevEnd⟩ := record_keeps d c s
  obtain ⟨hresult', hrest', hprevEnd'⟩ := record_keeps d' c' s'
  refine ⟨?_, ?_, ?_, ?_, ?_, h.recorded_record hc hd⟩
  · rw [hresult, hresult']
    exact .ok rfl
  · rw [hrest]
    exact h.bound
  · rw [hrest]
    exact h.ahead
  · rw [hrest, hrest']
    exact h.rest
  · rw [hprevEnd, hprevEnd', h.prevEnd]

/-- To report a cause agrees if the span is shifted. -/
theorem States.report (hc : e.Contexts c c') (h : e.States n s s') {cause cause' : Diagnostic.Cause}
    {span span' : Span} (hkind : cause'.kind = cause.kind) (hspan : span' = span.shift e.offset) :
    e.Agrees n Eq (report cause span c s) (report cause' span' c' s') :=
  (h.located hkind hspan).bind fun hd hs => hs.record hc hd

/-- A report on a condition, and then the rest. -/
theorem States.reportIf (hc : e.Contexts c c') (h : e.States n s s') {b b' : Prop} [Decidable b]
    [Decidable b'] (hb : b' ↔ b) {cause cause' : Diagnostic.Cause} {span span' : Span}
    {k k' : Parse α} (hkind : cause'.kind = cause.kind) (hspan : span' = span.shift e.offset)
    (hk : ∀ {s₁ s₁'}, e.States n s₁ s₁' → e.Agrees n R (k c s₁) (k' c' s₁')) :
    e.Agrees n R ((if b then do Parser.report cause span; k else k) c s)
      ((if b' then do Parser.report cause' span'; k' else k') c' s') :=
  .ite hb (fun _ => (h.report hc hkind hspan).bind fun _ hs => hk hs) fun _ => hk h

/-- The span from a node's first token is shifted as that token is. -/
theorem States.spanFrom (h : e.States n s s') {first first' : Span}
    (hfirst : first' = first.shift e.offset) :
    e.Agrees n (Image (Span.shift e.offset)) (spanFrom first c s) (spanFrom first' c' s') := by
  refine ⟨.ok ?_, h⟩
  show (⟨first'.start, max s'.prevEnd first'.stop⟩ : Span) = Span.shift e.offset ⟨_, max _ _⟩
  rw [hfirst, h.prevEnd, Span.shift, Span.shift, Nat.add_max_add_right]

/-! ### Steps over the lexeme ahead -/

/-- A check for a token agrees, unless it asks for one at which the shorter text may end. -/
theorem States.check (h : e.States n s s') {kind : Token.Kind} (hkind : ¬ AtEnd kind) :
    e.Agrees n Eq (check kind c s) (check kind c' s') :=
  ⟨.ok (decide_eq_decide.mpr (h.kindAt_iff hkind).symm), h⟩

/-- The kind behind the lexeme ahead is the same unless the text ends there. -/
theorem Front.kindAt_one {l l' : Lexeme} (h : e.Front m s s' l l') :
    s'.kindAt 1 = s.kindAt 1 ∨ AtEnd (s.kindAt 1) ∧ AtEnd (s'.kindAt 1) := by
  obtain ⟨r, hrest⟩ := h.rest
  obtain ⟨r', hrest'⟩ := h.rest'
  have hpast : (s.past [l]).kindAt 0 = s.kindAt 1 := by
    rw [kindAt_eq, kindAt_eq, hrest, kindIn_cons_succ, past_rest hrest]
  have hpast' : (s'.past [l']).kindAt 0 = s'.kindAt 1 := by
    rw [kindAt_eq, kindAt_eq, hrest', kindIn_cons_succ, past_rest hrest']
  rw [← hpast, ← hpast']
  exact h.past.kindAt_zero.imp_right fun ⟨heof, hpipe⟩ => ⟨.inl heof, .inr hpipe⟩

/-- The token behind the front is of a kind in both parses or in neither, the end apart. -/
theorem Front.kindAt_one_iff {l l' : Lexeme} (h : e.Front m s s' l l') {kind : Token.Kind}
    (hkind : ¬ AtEnd kind) : s'.kindAt 1 = kind ↔ s.kindAt 1 = kind := by
  rcases h.kindAt_one with heq | ⟨hend, hend'⟩
  · rw [heq]
  · exact ⟨fun heq => absurd (heq ▸ hend') hkind, fun heq => absurd (heq ▸ hend) hkind⟩

/-- The current tokens are those of the front. -/
theorem Front.current {l l' : Lexeme} (h : e.Front m s s' l l') (c c' : Context) :
    s.current c = l.token ∧ s'.current c' = l'.token := by
  obtain ⟨r, hrest⟩ := h.rest
  obtain ⟨r', hrest'⟩ := h.rest'
  rw [State.current, State.current, hrest, hrest']
  exact ⟨rfl, rfl⟩

/-- The lexeme behind the one ahead, if its kind tells that the text goes on. -/
theorem Front.second {l l' : Lexeme} (h : e.Front m s s' l l') (hsecond : ¬ AtEnd (s.kindAt 1)) :
    ∃ m' l₂ l₂', m = m' + 1 ∧ e.Front m' (s.past [l]) (s'.past [l']) l₂ l₂' := by
  rcases h.past.front_or_end with ⟨m', l₂, l₂', hm, hfront, -⟩ | ⟨hrest, -⟩
  · exact ⟨m', l₂, l₂', hm, hfront⟩
  · obtain ⟨r, hr⟩ := h.rest
    obtain rfl : r = [] := (past_rest hr).symm.trans hrest
    rw [kindAt_eq, hr, kindIn_cons_succ, kindIn_nil] at hsecond
    exact absurd (.inl rfl) hsecond

/-- A lexeme that is taken is taken from both. -/
theorem Front.advance {l l' : Lexeme} (h : e.Front m s s' l l') {f f' : Token → Parse α}
    (hf : e.Agrees m R (f l.token c (s.past [l])) (f' l'.token c' (s'.past [l']))) :
    e.Agrees m R ((advance >>= f) c s) ((advance >>= f') c' s') := by
  obtain ⟨r, hrest⟩ := h.rest
  obtain ⟨r', hrest'⟩ := h.rest'
  rwa [bind_apply_of_ok (advance_apply hrest), bind_apply_of_ok (advance_apply hrest')]

/-- The same, if the step behind does not ask for the lexeme. -/
theorem Front.skip {l l' : Lexeme} (h : e.Front m s s' l l') {p p' : Parse α}
    (hp : e.Agrees m R (p c (s.past [l])) (p' c' (s'.past [l']))) :
    e.Agrees (m + 1) R ((do let _ ← Parser.advance; p) c s)
      ((do let _ ← Parser.advance; p') c' s') :=
  (h.advance hp).weaken

/-- A look at the token ahead that goes the way `q` at an end. -/
theorem States.onCurrent (hc : e.Contexts c c') (h : e.States n s s') {f : Token → Parse α}
    {q : Parse α} (hends : ∀ t : Token, AtEnd t.kind → f t = q)
    (hq : e.Agrees n R (q c s) (q c' s'))
    (hf : ∀ {m l l'}, n = m + 1 → e.Front m s s' l l' →
      e.Agrees n R (f l.token c s) (f l'.token c' s')) :
    e.Agrees n R ((Parser.current >>= f) c s) ((Parser.current >>= f) c' s') := by
  rw [bind_apply_of_ok (current_run c s), bind_apply_of_ok (current_run c' s')]
  rcases h.front_or_end with ⟨m, l, l', hm, hfront, -⟩ | ⟨hrest, hrest'⟩
  · obtain ⟨r, hrest⟩ := hfront.rest
    obtain ⟨r', hrest'⟩ := hfront.rest'
    simpa only [State.current, hrest, hrest'] using hf hm hfront
  · obtain ⟨hend, hend'⟩ := hc.atEnd hrest hrest'
    rwa [hends _ hend, hends _ hend']

/-- Either a lexeme of the kind is taken from both, or there is none ahead of either. -/
theorem States.eat_or (h : e.States n s s') (c c' : Context) {kind : Token.Kind}
    (hkind : ¬ AtEnd kind) :
    (∃ m l l', n = m + 1 ∧ e.Front m s s' l l' ∧ s.kindAt 0 = kind ∧
      eat kind c s = (.ok true, s.past [l]) ∧ eat kind c' s' = (.ok true, s'.past [l'])) ∨
    s.kindAt 0 ≠ kind ∧ eat kind c s = (.ok false, s) ∧ eat kind c' s' = (.ok false, s') := by
  rcases h.ahead_or hkind with ⟨m, l, l', hm, hfront, hl, hl'⟩ | ⟨hne, hne'⟩
  · obtain ⟨r, hrest⟩ := hfront.rest
    obtain ⟨r', hrest'⟩ := hfront.rest'
    exact .inl ⟨m, l, l', hm, hfront, hfront.kindAt_zero.1.trans hl, eat_apply hrest hl,
      eat_apply hrest' hl'⟩
  · exact .inr ⟨hne, eat_apply_of_ne hne, eat_apply_of_ne hne'⟩

/-- What follows the attempt to take a lexeme of some kind. -/
theorem States.onEat (h : e.States n s s') {kind : Token.Kind} (hkind : ¬ AtEnd kind)
    {f f' : Bool → Parse α}
    (hyes : ∀ {m s₁ s₁'}, n = m + 1 → e.States m s₁ s₁' →
      e.Agrees m R (f true c s₁) (f' true c' s₁'))
    (hno : e.Agrees n R (f false c s) (f' false c' s')) :
    e.Agrees n R ((Parser.eat kind >>= f) c s) ((Parser.eat kind >>= f') c' s') := by
  rcases h.eat_or c c' hkind with ⟨m, l, l', rfl, hfront, -, heat, heat'⟩ |
    ⟨-, heat, heat'⟩
  · rw [bind_apply_of_ok heat, bind_apply_of_ok heat']
    exact (hyes rfl hfront.past).weaken
  · rwa [bind_apply_of_ok heat, bind_apply_of_ok heat']

/-- What follows a look for a kind. -/
theorem States.onCheck (h : e.States n s s') {kind : Token.Kind} (hkind : ¬ AtEnd kind)
    {f f' : Bool → Parse α}
    (hyes : ∀ {m l l'}, n = m + 1 → e.Front m s s' l l' → l.token.kind = kind →
      e.Agrees n R (f true c s) (f' true c' s'))
    (hno : e.Agrees n R (f false c s) (f' false c' s')) :
    e.Agrees n R ((Parser.check kind >>= f) c s) ((Parser.check kind >>= f') c' s') := by
  rw [bind_apply_of_ok (check_apply kind), bind_apply_of_ok (check_apply kind)]
  rcases h.ahead_or hkind with ⟨m, l, l', hm, hfront, hl, -⟩ | ⟨hne, hne'⟩
  · rw [hfront.kindAt_zero.1, hfront.kindAt_zero.2, decide_eq_true hl]
    exact hyes hm hfront hl
  · rwa [decide_eq_false hne, decide_eq_false hne']

/-- A token is taken in both parses or in neither. -/
theorem States.eat (h : e.States n s s') {kind : Token.Kind} (hkind : ¬ AtEnd kind) :
    e.Agrees n Eq (eat kind c s) (eat kind c' s') := by
  rcases h.eat_or c c' hkind with ⟨m, l, l', rfl, hfront, -, heat, heat'⟩ |
    ⟨-, heat, heat'⟩
  · rw [heat, heat']
    exact ⟨.ok rfl, hfront.past.mono (Nat.le_succ m)⟩
  · rw [heat, heat']
    exact ⟨.ok rfl, h⟩

/-- A token that is demanded is there in both parses, or both stop. -/
theorem States.expect (hc : e.Contexts c c') (h : e.States n s s') {kind : Token.Kind}
    (hkind : ¬ AtEnd kind) (what : String) :
    e.Agrees n (Token.Moved e.offset) (expect kind what c s) (expect kind what c' s') := by
  rcases h.ahead_or hkind with ⟨m, l, l', rfl, hfront, hl, hl'⟩ | ⟨hne, hne'⟩
  · obtain ⟨r, hrest⟩ := hfront.rest
    obtain ⟨r', hrest'⟩ := hfront.rest'
    rw [expect_apply hrest hl, expect_apply hrest' hl']
    exact ⟨.ok hfront.moved, hfront.past.mono (Nat.le_succ m)⟩
  · rw [Parser.expect, bind_apply_of_ok (check_apply kind), bind_apply_of_ok (check_apply kind)]
    simp only [hne, hne', decide_false, Bool.false_eq_true, if_false]
    exact h.unexpected hc what

/-! ### Steps made of others -/

/-- One level deeper in both, the states belong together as before. -/
theorem States.deeper (h : e.States n s s') :
    e.States n { s with depth := s.depth + 1 } { s' with depth := s'.depth + 1 } :=
  ⟨h.bound, h.ahead, h.rest, h.prevEnd, h.recorded⟩

/-- What agrees one level deeper agrees, as both parses come back from there. -/
theorem Agrees.deeper {p : Parse α}
    (h : e.Agrees n R (p c { s with depth := s.depth + 1 })
      (p c' { s' with depth := s'.depth + 1 })) :
    e.Agrees n R (deeper p c s) (deeper p c' s') :=
  ⟨h.results, h.states.bound, h.states.ahead, h.states.rest, h.states.prevEnd, h.states.recorded⟩

/-- A step that is carried over is so one level deeper. -/
theorem Carries.deeper {p : Parse α} (hp : e.Carries c c' R p) : e.Carries c c' R (deeper p) :=
  fun _ _ _ h => .deeper (hp h.deeper)

/-- An attempt that fails leaves only diagnostics behind. -/
theorem Carries.attempt {f : α → α} {p : Parse (Option α)}
    (hp : e.Carries c c' (Image (Option.map f)) p) :
    e.Carries c c' (Image (Option.map f)) (attempt p) := by
  intro n s s' h
  obtain ⟨hresults, hstates⟩ := hp h
  unfold Parser.attempt
  generalize p c s = o at hresults hstates
  generalize p c' s' = o' at hresults hstates
  obtain ⟨r, s₁⟩ := o
  obtain ⟨r', s₁'⟩ := o'
  cases hresults with
  | @ok a b hab =>
      obtain rfl : b = a.map f := hab
      cases a with
      | some a => exact ⟨.ok rfl, hstates⟩
      | none =>
          -- The lexemes are those from before the attempt, the diagnostics those from behind it.
          exact ⟨.ok rfl, h.bound, h.ahead, h.rest, h.prevEnd, hstates.recorded⟩
  | error =>
      exact ⟨.ok rfl, h.bound, h.ahead, h.rest, h.prevEnd, hstates.recorded⟩

/-- Two loops over a text with `n` lexemes left at most, each with rounds enough. A round takes a
lexeme, so what holds at the end and is kept by a round of both holds of the loops. -/
@[elab_as_elim]
theorem rounds {P : (n fuel fuel' : Nat) → n ≤ fuel → n ≤ fuel' → Prop}
    (last : ∀ fuel fuel', P 0 fuel fuel' (Nat.zero_le _) (Nat.zero_le _))
    (round : ∀ n fuel fuel' (h : n ≤ fuel) (h' : n ≤ fuel'), P n fuel fuel' h h' →
      P (n + 1) (fuel + 1) (fuel' + 1) (Nat.succ_le_succ h) (Nat.succ_le_succ h'))
    {n fuel fuel' : Nat} (hfuel : n ≤ fuel) (hfuel' : n ≤ fuel') : P n fuel fuel' hfuel hfuel' := by
  induction n generalizing fuel fuel' with
  | zero => exact last fuel fuel'
  | succ n ih =>
      obtain ⟨fuel, rfl⟩ := Nat.exists_eq_add_one.mpr (Nat.zero_lt_of_lt hfuel)
      obtain ⟨fuel', rfl⟩ := Nat.exists_eq_add_one.mpr (Nat.zero_lt_of_lt hfuel')
      exact round n fuel fuel' _ _
        (ih (Nat.le_of_succ_le_succ hfuel) (Nat.le_of_succ_le_succ hfuel'))

/-- No item follows where no separator stands. -/
theorem moreItems_apply_nil {separator : Token.Kind} {item : Parse α} (fuel : Nat)
    (h : s.kindAt 0 ≠ separator) : moreItems separator item fuel c s = (.ok [], s) := by
  cases fuel with
  | zero => rfl
  | succ fuel =>
      rw [moreItems, bind_apply_of_ok (eat_apply_of_ne h)]
      rfl

/-- A list is carried over item by item, and the two fuels are only asked to be enough. -/
theorem States.moreItems {separator : Token.Kind} (hseparator : ¬ AtEnd separator) {f : α → α}
    {item : Parse α} (hitem : e.Carries c c' (Image f) item) (h : e.States n s s')
    {fuel fuel' : Nat} (hfuel : n ≤ fuel) (hfuel' : n ≤ fuel') :
    e.Agrees n (Image (List.map f)) (moreItems separator item fuel c s)
      (moreItems separator item fuel' c' s') := by
  induction hfuel, hfuel' using rounds generalizing s s' with
  | last fuel fuel' =>
      obtain ⟨hahead, hahead'⟩ := h.kindAt_ne hseparator
      rw [moreItems_apply_nil fuel hahead, moreItems_apply_nil fuel' hahead']
      exact ⟨.ok rfl, h⟩
  | round n fuel fuel' _ _ ih =>
      rw [Parser.moreItems, Parser.moreItems]
      refine h.onEat hseparator ?_ (h.pure rfl)
      rintro _ s₁ s₁' hm hs₁
      obtain rfl := Nat.succ.inj hm
      refine (hitem hs₁).bind ?_
      rintro a _ s₂ s₂' rfl hs₂
      refine (ih hs₂).bind ?_
      rintro as _ s₃ s₃' rfl hs₃
      exact hs₃.pure rfl

/-- A loop that gets as many rounds as lexemes are ahead. There may be more in the longer text. -/
theorem States.onRemaining (h : e.States n s s') {f f' : Nat → Parse α}
    (hf : ∀ {m fuel fuel'}, e.States m s s' → m ≤ fuel → m ≤ fuel' →
      e.Agrees m R (f fuel c s) (f' fuel' c' s')) :
    e.Agrees n R ((remaining >>= f) c s) ((remaining >>= f') c' s') := by
  rw [bind_apply_of_ok remaining_apply, bind_apply_of_ok remaining_apply]
  exact (hf h.tighten (le_refl _) h.length_le).mono h.bound

/-- So are the items behind a first one. -/
theorem Carries.others {separator : Token.Kind} (hseparator : ¬ AtEnd separator) {f : α → α}
    {item : Parse α} (hitem : e.Carries c c' (Image f) item) :
    e.Carries c c' (Image (List.map f)) (others separator item) :=
  fun _ _ _ h => h.onRemaining fun h hfuel hfuel' => h.moreItems hseparator hitem hfuel hfuel'

/-- So is a whole list, with the fuel that is taken from the lexemes ahead. -/
theorem Carries.separated {separator : Token.Kind} (hseparator : ¬ AtEnd separator) {f : α → α}
    {item : Parse α} (hitem : e.Carries c c' (Image f) item) :
    e.Carries c c' (Image (List.map f)) (separated separator item) := by
  intro n s s' h
  refine (hitem h).bind ?_
  rintro a _ s₁ s₁' rfl hs₁
  refine (hitem.others hseparator hs₁).bind ?_
  rintro as _ s₂ s₂' rfl hs₂
  exact hs₂.pure rfl

end Embedding

end Parser

end PipeQuery
