import PipeQuery.Proofs.Faithful
import PipeQuery.Proofs.Token.Report

/-!
# `PipeQuery.Proofs.Parser.Report`: what the parser tells

Whatever a step of the parser does, it is told of in one way: the diagnostics that are kept, and the
one with which it stops, have their places in the text and are no lexical errors; where an error
token starts nothing is kept, and nothing is kept twice. `Tracked` says so of a state, and of what
the parser has in front of it. `Ensures Q p` is the triple for it: from a tracked state the step `p`
leads to a tracked one, and what it returns is `Q`. There is a rule for each step of
`PipeQuery.Parser.Basic`, and then one for each reader of names.
-/

set_option autoImplicit false

namespace PipeQuery

/-- The token is in the text, and its line and its column are those of its start. -/
structure Token.Located (text : String) (t : Token) : Prop where
  fits : t.span.Fits text
  isPlace : Text.IsPlace text t.span.start t.line t.col

/-- The diagnostic is about a place in the text, and has the line and the column of its start. -/
structure Diagnostic.Located (text : String) (d : Diagnostic) : Prop where
  fits : d.span.Fits text
  isPlace : Text.IsPlace text d.span.start d.line d.col

/-- The two diagnostics say the same sort of thing about the same place. -/
def Diagnostic.Repeats (d e : Diagnostic) : Prop :=
  d.kind = e.kind ∧ d.span.start = e.span.start

/-! ### Spans in the text -/

namespace Span.Fits

variable {text : String} {a b : Span}

/-- The span around two spans in the text is in the text. -/
theorem merge (h : a.Fits text) (h' : b.Fits text) : (a.merge b).Fits text where
  forward := Nat.le_trans (Nat.min_le_left _ _) (Nat.le_trans h.forward (Nat.le_max_left _ _))
  inside := Nat.max_le.mpr ⟨h.inside, h'.inside⟩
  start_isValid := by
    rw [Span.merge, Nat.min_def]
    split
    · exact h.start_isValid
    · exact h'.start_isValid
  stop_isValid := by
    rw [Span.merge, Nat.max_def]
    split
    · exact h'.stop_isValid
    · exact h.stop_isValid

/-- The span goes on to a place, if that is further on. -/
theorem upTo (h : a.Fits text) {stop : Nat} (hstop : (⟨stop⟩ : String.Pos.Raw).IsValid text) :
    Span.Fits ⟨a.start, max stop a.stop⟩ text where
  forward := Nat.le_trans h.forward (Nat.le_max_right _ _)
  inside := Nat.max_le.mpr ⟨hstop.le_rawEndPos, h.inside⟩
  start_isValid := h.start_isValid
  stop_isValid := by
    rw [Nat.max_def]
    split
    · exact h.stop_isValid
    · exact hstop

end Span.Fits

namespace Parser

open Diagnostic (Cause)

/-! ### What is known of a parse -/

/-- A token has its place in the text, and is no preview verb unless previews are switched on. -/
structure Known (text : String) (preview : Bool) (t : Token) : Prop where
  located : t.Located text
  isKnown : ∀ verb, t.kind = .command verb → verb.isPreview = true → preview = true

/-- A diagnostic of the parser has its place in the text. Lexical errors are not its business. -/
structure Found (text : String) (d : Diagnostic) : Prop where
  located : d.Located text
  notLexical : d.kind ≠ .lexical

/-- The tokens ahead are known. What was recorded was found, not where an error token starts, and
not twice. -/
structure Tracked (text : String) (preview : Bool) (c : Context) (s : State) : Prop where
  source_eq : c.source = text.toList
  endToken : Known text preview c.endToken
  eof : c.endToken.kind = .eof
  ahead : ∀ l ∈ s.rest, Known text preview l.token
  prevEnd : (⟨s.prevEnd⟩ : String.Pos.Raw).IsValid text
  found : ∀ d ∈ s.recorded, Found text d
  apart : ∀ d ∈ s.recorded, d.span.start ∉ c.errorStarts
  distinct : s.recorded.Pairwise fun d e => ¬ d.Repeats e

/-- What a step makes: a value with the property, or a diagnostic that was found. -/
inductive Makes {α : Type} (text : String) (Q : α → Prop) : Except Diagnostic α → Prop where
  | ok {a : α} (h : Q a) : Makes text Q (.ok a)
  | error {d : Diagnostic} (h : Found text d) : Makes text Q (.error d)

/-- From a tracked state the step leads to a tracked state, and what it returns has the property. -/
def Ensures {α : Type} (text : String) (preview : Bool) (Q : α → Prop) (p : Parse α) : Prop :=
  ∀ ⦃c s⦄, Tracked text preview c s →
    Makes text Q (p c s).1 ∧ Tracked text preview c (p c s).2

section

variable {α β : Type} {text : String} {preview : Bool} {c : Context} {s : State}
  {P Q : α → Prop} {R : β → Prop} {p : Parse α} {t : Token} {cause : Cause} {span : Span}

/-- A diagnostic on a token in the text is found there, if its cause is not a lexical one. -/
theorem Found.onToken (ht : t.Located text) (hcause : cause.kind ≠ .lexical) :
    Found text (cause.onToken t) :=
  ⟨⟨ht.fits, ht.isPlace⟩, hcause⟩

/-! ### Tracked states -/

namespace Tracked

/-- What the parser has in front of it is known: a lexeme ahead, or the token of the end. -/
theorem current (h : Tracked text preview c s) : Known text preview (s.current c) := by
  unfold State.current
  split
  · exact h.endToken
  · rename_i l rest hrest
    exact h.ahead l (hrest ▸ List.mem_cons_self)

/-- The state with other lexemes of the text in front of it. -/
theorem onward (h : Tracked text preview c s) {rest : List Lexeme} {prevEnd : Nat}
    (hrest : ∀ l ∈ rest, Known text preview l.token)
    (hprevEnd : (⟨prevEnd⟩ : String.Pos.Raw).IsValid text) :
    Tracked text preview c { s with rest := rest, prevEnd := prevEnd } :=
  { h with ahead := hrest, prevEnd := hprevEnd }

/-- What is recorded was found. It is kept only where it is not told of already. -/
theorem record (h : Tracked text preview c s) {d : Diagnostic} (hd : Found text d) :
    Tracked text preview c (Parser.record d c s).2 := by
  unfold Parser.record
  split
  · exact h
  · rename_i hnew
    -- It is new: no error token starts where it does, and nothing of its kind is recorded there.
    simp only [Bool.or_eq_true, List.contains_iff_mem, List.any_eq_true, Bool.and_eq_true,
      decide_eq_true_eq, not_or, not_exists, not_and] at hnew
    obtain ⟨hapart, hdistinct⟩ := hnew
    exact { h with
      found := List.forall_mem_cons.mpr ⟨hd, h.found⟩
      apart := List.forall_mem_cons.mpr ⟨hapart, h.apart⟩
      distinct := List.pairwise_cons.mpr
        ⟨fun e he hrepeats => hdistinct e he hrepeats.2.symm hrepeats.1.symm, h.distinct⟩ }

/-- A diagnostic whose line and column are counted in the text. -/
theorem located (h : Tracked text preview c s) (hspan : span.Fits text)
    (hcause : cause.kind ≠ .lexical) {d : Diagnostic}
    (hd : d = cause.located span (Text.Position.locate c.source span.start).line
      (Text.Position.locate c.source span.start).col) : Found text d := by
  subst hd
  refine ⟨⟨hspan, ?_⟩, hcause⟩
  rw [h.source_eq]
  exact Text.isPlace_locate hspan.start_isValid

end Tracked

/-! ### Rules -/

namespace Ensures

/-- A constant keeps the state and has the property if its value has. -/
theorem pure {a : α} (h : Q a) : Ensures text preview Q (pure a) :=
  fun _ _ hs => ⟨.ok h, hs⟩

/-- A weaker property is ensured as well. -/
theorem imp (h : Ensures text preview P p) (himp : ∀ a, P a → Q a) : Ensures text preview Q p := by
  intro c s hs
  obtain ⟨hmakes, hs'⟩ := h hs
  refine ⟨?_, hs'⟩
  generalize (p c s).1 = r at hmakes
  cases hmakes with
  | ok h => exact .ok (himp _ h)
  | error h => exact .error h

/-- In a sequence the second step starts from a tracked state and from a value with the first
property. -/
theorem bind {f : α → Parse β} (h : Ensures text preview P p)
    (hf : ∀ a, P a → Ensures text preview R (f a)) : Ensures text preview R (p >>= f) := by
  intro c s hs
  obtain ⟨hmakes, hs'⟩ := h hs
  rw [Parse.bind_apply]
  generalize p c s = o at hmakes hs'
  obtain ⟨r, s'⟩ := o
  cases hmakes with
  | ok h => exact hf _ h hs'
  | error h => exact ⟨.error h, hs'⟩

/-- A look at the state before a step tells nothing that is needed here. -/
theorem onLook {f : Context → State → β} {g : β → Parse α} (h : ∀ b, Ensures text preview Q (g b)) :
    Ensures text preview Q (Parse.look f >>= g) :=
  fun c s hs => h (f c s) hs

/-- A stop with a diagnostic that was found breaks nothing. -/
theorem stop {d : Diagnostic} (h : Found text d) : Ensures text preview Q (.stop d) :=
  fun _ _ hs => ⟨.error h, hs⟩

/-- A choice between two steps is left to either. -/
theorem ite {b : Prop} [Decidable b] {q : Parse α} (h : Ensures text preview Q p)
    (h' : Ensures text preview Q q) : Ensures text preview Q (if b then p else q) := by
  split
  · exact h
  · exact h'

/-- The result of a step, mapped, has the property if it has it once mapped. -/
theorem map {f : α → β} (h : Ensures text preview (fun a => R (f a)) p) :
    Ensures text preview R (f <$> p) :=
  h.bind fun _ ha => .pure ha

end Ensures

/-! ### Steps of the parser -/

/-- The current token is known. -/
theorem current_ensures : Ensures text preview (Known text preview) current :=
  fun _ _ hs => ⟨.ok hs.current, hs⟩

/-- The token taken is known, and the state behind it is tracked. -/
theorem advance_ensures : Ensures text preview (Known text preview) advance := by
  intro c s hs
  unfold advance
  split
  · exact ⟨.ok hs.endToken, hs⟩
  · rename_i l rest hrest
    have hl := hs.ahead l (hrest ▸ List.mem_cons_self)
    have hahead : ∀ l' ∈ rest, Known text preview l'.token := fun l' hl' =>
      hs.ahead l' (hrest ▸ List.mem_cons_of_mem l hl')
    exact ⟨.ok hl, hs.onward hahead hl.located.fits.stop_isValid⟩

/-- A check decides between two steps that both keep the state tracked. -/
theorem Ensures.onCheck {kind : Token.Kind} {g : Bool → Parse α}
    (h : ∀ b, Ensures text preview Q (g b)) : Ensures text preview Q (check kind >>= g) :=
  .onLook h

/-- A token may be taken or left. -/
theorem eat_ensures (kind : Token.Kind) : Ensures text preview (fun _ => True) (eat kind) :=
  .onCheck fun _ => .ite (advance_ensures.bind fun _ _ => .pure trivial) (.pure trivial)

/-- What follows a token that may be taken is shown for either answer. -/
theorem Ensures.onEat {kind : Token.Kind} {g : Bool → Parse α}
    (h : ∀ b, Ensures text preview Q (g b)) : Ensures text preview Q (eat kind >>= g) :=
  (eat_ensures kind).bind fun b _ => h b

/-- A report of what was expected is about the token ahead, and that one is in the text. -/
theorem expected_ensures (what : String) : Ensures text preview (Found text) (expected what) :=
  current_ensures.bind fun _ ht => .pure (.onToken ht.located (by simp [expectedCause, Cause.kind]))

/-- To stop with such a report breaks nothing. -/
theorem unexpected_ensures (what : String) : Ensures text preview Q (unexpected what) :=
  (expected_ensures what).bind fun _ hd => .stop hd

/-- A token that is demanded is known when it is there. -/
theorem expect_ensures (kind : Token.Kind) (what : String) :
    Ensures text preview (Known text preview) (expect kind what) :=
  .onCheck fun _ => .ite advance_ensures (unexpected_ensures what)

/-- A token of some kind that only has to be there. -/
theorem Ensures.onExpect {kind : Token.Kind} {what : String} {f : Token → Parse α}
    (h : ∀ t, Known text preview t → Ensures text preview Q (f t)) :
    Ensures text preview Q (expect kind what >>= f) :=
  (expect_ensures kind what).bind h

/-- A diagnostic about a span in the text gets the line and the column of its start. -/
theorem located_ensures (hspan : span.Fits text) (hcause : cause.kind ≠ .lexical) :
    Ensures text preview (Found text) (located cause span) :=
  fun _ _ hs => ⟨.ok (hs.located hspan hcause rfl), hs⟩

/-- A stop with a diagnostic at a place in the text. -/
theorem stopLocated_ensures (hspan : span.Fits text) (hcause : cause.kind ≠ .lexical) :
    Ensures text preview Q (do .stop (← located cause span)) :=
  (located_ensures hspan hcause).bind fun _ hd => .stop hd

/-- To record a diagnostic keeps the state tracked: one that repeats another is dropped, and so is
one where an error token starts. -/
theorem record_ensures {d : Diagnostic} (h : Found text d) :
    Ensures text preview (fun _ => True) (record d) := by
  intro c s hs
  refine ⟨?_, hs.record h⟩
  unfold record
  split <;> exact .ok trivial

/-- To report a cause about a span in the text is to record what was found. -/
theorem report_ensures (hspan : span.Fits text) (hcause : cause.kind ≠ .lexical) :
    Ensures text preview (fun _ => True) (report cause span) :=
  (located_ensures hspan hcause).bind fun _ hd => record_ensures hd

/-- A report on a condition, and then the rest. -/
theorem Ensures.reportIf {b : Prop} [Decidable b] {k : Parse α} (hspan : span.Fits text)
    (hcause : cause.kind ≠ .lexical) (hk : Ensures text preview Q k) :
    Ensures text preview Q (if b then do report cause span; k else k) :=
  .ite ((report_ensures hspan hcause).bind fun _ _ => hk) hk

/-- The expected thing is missing, which is recorded, and reading goes on. -/
theorem recordExpected_ensures (what : String) :
    Ensures text preview (fun _ => True) (do record (← expected what)) :=
  (expected_ensures what).bind fun _ hd => record_ensures hd

/-- A span that starts in the text ends at the last token taken, so it is in the text. -/
theorem spanFrom_ensures (h : span.Fits text) :
    Ensures text preview (Span.Fits · text) (spanFrom span) :=
  fun _ _ hs => ⟨.ok (h.upTo hs.prevEnd), hs⟩

/-- The stop at the limit of nesting is about the token ahead. -/
theorem tooDeep_ensures : Ensures text preview Q tooDeep := by
  intro c s hs
  exact ⟨.error (.onToken hs.current.located (by simp [Cause.kind])), hs⟩

/-! ### Steps made of others -/

/-- One level deeper the state is as tracked as before. -/
theorem Ensures.deeper (h : Ensures text preview Q p) : Ensures text preview Q (deeper p) := by
  intro c s hs
  obtain ⟨hmakes, hs'⟩ := h (s := { s with depth := s.depth + 1 }) { hs with }
  exact ⟨hmakes, { hs' with }⟩

/-- An attempt that fails keeps what was recorded, and the place from before it. -/
theorem Ensures.attempt {p : Parse (Option α)} {Q : Option α → Prop} (hnone : Q none)
    (h : Ensures text preview Q p) : Ensures text preview Q (attempt p) := by
  intro c s hs
  obtain ⟨hmakes, hs'⟩ := h hs
  unfold Parser.attempt
  split
  · rename_i a s₁ hp
    rw [hp] at hmakes hs'
    exact ⟨hmakes, hs'⟩
  · rename_i r s₁ hp
    rw [hp] at hs'
    -- The place is that of the state before, and what was recorded is that of the state behind.
    exact ⟨.ok hnone, hs'.onward hs.ahead hs.prevEnd⟩

/-- A list is read item by item, each from a tracked state. -/
theorem moreItems_ensures {separator : Token.Kind} (h : Ensures text preview Q p) (fuel : Nat) :
    Ensures text preview (fun as => ∀ a ∈ as, Q a) (moreItems separator p fuel) := by
  induction fuel with
  | zero => exact .pure (by simp)
  | succ fuel ih =>
      refine .onEat fun _ => .ite ?_ (.pure (by simp))
      exact h.bind fun _ ha => ih.bind fun _ has => .pure (List.forall_mem_cons.mpr ⟨ha, has⟩)

/-- So are the items behind a first one. -/
theorem others_ensures {separator : Token.Kind} (h : Ensures text preview Q p) :
    Ensures text preview (fun as => ∀ a ∈ as, Q a) (others separator p) :=
  .onLook fun _ => moreItems_ensures h _

/-- And so is a whole list. -/
theorem separated_ensures {separator : Token.Kind} (h : Ensures text preview Q p) :
    Ensures text preview (fun as => ∀ a ∈ as, Q a) (separated separator p) :=
  h.bind fun _ ha => (others_ensures h).bind fun _ has =>
    .pure (List.forall_mem_cons.mpr ⟨ha, has⟩)

/-! ### Names, patterns and sources -/

/-- The span of an identifier is that of its token. -/
theorem identifier_ensures (what : String) :
    Ensures text preview (fun id => id.span.Fits text) (identifier what) := by
  refine current_ensures.bind fun t ht => ?_
  split
  · exact advance_ensures.bind fun _ _ => .pure ht.located.fits
  · exact advance_ensures.bind fun _ _ => .pure ht.located.fits
  · exact unexpected_ensures what

/-- A parameter that was not well-formed is reported on its token. -/
theorem parameterOf_ensures (ht : t.Located text) :
    Ensures text preview (fun _ => True) (parameterOf t) := by
  unfold parameterOf
  split
  · exact .pure trivial
  · dsimp only
    split
    · split
      · exact .pure trivial
      · exact stopLocated_ensures ht.fits (by simp [Cause.kind])
    · exact .pure trivial

/-- A part of a name spans a token in the text. -/
theorem namePart_ensures : Ensures text preview (fun part => part.span.Fits text) namePart := by
  refine current_ensures.bind fun t ht => .ite ?_ ?_
  · exact advance_ensures.bind fun _ _ =>
      (parameterOf_ensures ht.located).bind fun _ _ => .pure ht.located.fits
  · exact (identifier_ensures _).bind fun _ hid => .pure hid

/-- A field name is in the text, and so is every part of it. -/
theorem fieldName_ensures :
    Ensures text preview
      (fun name => name.span.Fits text ∧ ∀ part ∈ name.parts, part.span.Fits text) fieldName :=
  namePart_ensures.bind fun _ hfirst => (others_ensures namePart_ensures).bind fun _ hrest =>
    (spanFrom_ensures hfirst).bind fun _ hspan =>
      .pure ⟨hspan, List.forall_mem_cons.mpr ⟨hfirst, hrest⟩⟩

/-- So does a part of a pattern. -/
theorem patternPart_ensures :
    Ensures text preview (fun part => part.span.Fits text) patternPart := by
  refine current_ensures.bind fun t ht => .ite ?_ (.ite ?_ (unexpected_ensures _))
  · exact advance_ensures.bind fun _ _ => .pure ht.located.fits
  · exact advance_ensures.bind fun _ _ =>
      (parameterOf_ensures ht.located).bind fun _ _ => .pure ht.located.fits

/-- A field pattern spans the parts it was read from. -/
theorem fieldPattern_ensures :
    Ensures text preview (fun pattern => pattern.span.Fits text) fieldPattern :=
  patternPart_ensures.bind fun _ hfirst => (others_ensures patternPart_ensures).bind fun _ _ =>
    (spanFrom_ensures hfirst).bind fun _ hspan => .pure hspan

/-- Each of a list of field patterns does so. -/
theorem fieldPatterns_ensures :
    Ensures text preview (fun ps => ∀ p ∈ ps, Span.Fits p.span text) fieldPatterns :=
  separated_ensures fieldPattern_ensures

/-- The span of a source is that of its token. -/
theorem source_ensures : Ensures text preview (fun source => source.span.Fits text) source := by
  refine current_ensures.bind fun t ht => ?_
  split
  · exact advance_ensures.bind fun _ _ => .pure ht.located.fits
  · exact advance_ensures.bind fun _ _ => .pure ht.located.fits
  · exact unexpected_ensures _

/-- An index pattern reports blanks around its colon on a span in the text. -/
theorem indexPattern_ensures : Ensures text preview (fun _ => True) indexPattern := by
  refine source_ensures.bind fun _ hfirst => .onLook fun _ => .onEat fun _ =>
    .ite (.onLook fun _ => source_ensures.bind fun _ hindex => ?_) (.pure trivial)
  exact .reportIf (hfirst.merge hindex) (by simp [Cause.kind]) (.pure trivial)

/-- Each of a list of index patterns does so. -/
theorem indexPatterns_ensures : Ensures text preview (fun _ => True) indexPatterns :=
  (separated_ensures indexPattern_ensures).imp fun _ _ => trivial

end

end Parser

end PipeQuery
