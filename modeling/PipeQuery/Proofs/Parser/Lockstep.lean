import PipeQuery.Proofs.Command.Pipeline
import PipeQuery.Proofs.Query.Spans

/-!
# `PipeQuery.Proofs.Parser.Lockstep`: two parsers in lockstep

Two steps may be compared in many ways: they have the same outcome, one succeeds where the other
does, they read the same tree but for its spans. A comparison that fits the steps of
`PipeQuery.Parser.Basic` and everything made of them is a `Lockstep`: a relation on steps with one
rule for each way to make a step. `relates f p p'` says that `p'` goes where `p` goes and that `f`
takes the results of `p` to those of `p'`. What one can tell of two readers of expressions then
carries over to the readers of everything that holds expressions, whatever the comparison is.

Some steps have rules only together. A stopped command is salvaged at once, so its diagnostic cannot
be passed over, and the parser asks for hidden tokens only at a colon. An attempt has a rule only
against itself. The readers in this file are those of names, patterns and sources.
-/

set_option autoImplicit false

namespace PipeQuery.Parser

open Diagnostic (Cause)

variable {α β : Type} {c : Context} {s : State}

/-! ### Steps that belong together -/

/-- A step that records its diagnostic if it stops; what is left of the command is passed over
then. -/
def salvage (read : Parse α) (inBrackets : Bool) : Parse (Option α) := do
  match ← caught read with
  | .ok a => return some a
  | .error d =>
    record d
    recover inBrackets
    return none

/-- What comes of a salvaged step: its answer, or nothing once the diagnostic is recorded and the
command passed over. -/
theorem salvage_apply (read : Parse α) (inBrackets : Bool) :
    salvage read inBrackets c s =
      match read c s with
      | (.ok a, s') => (.ok (some a), s')
      | (.error d, s') => (do record d; recover inBrackets; return none) c s' := by
  have hcaught : caught read c s = (.ok (read c s).1, (read c s).2) := rfl
  rw [salvage, bind_apply_of_ok hcaught]
  obtain ⟨result, s'⟩ := read c s
  cases result <;> rfl

/-- A stage salvages its command. -/
theorem stage_eq (read : Parse Command) (inBrackets : Bool) :
    stage read inBrackets = salvage read inBrackets >>= stageBehind inBrackets := by
  funext c s
  rw [stage_apply, Parse.bind_apply, salvage_apply]
  obtain ⟨result, s₁⟩ := read c s
  cases result with
  | ok a => rfl
  | error d =>
      obtain ⟨_, s₂, hrecord⟩ := total_record d c s₁
      obtain ⟨_, s₃, hrecover⟩ := total_recover inBrackets c s₂
      simp only [bind_apply_of_ok hrecord, bind_apply_of_ok hrecover, Parse.pure_apply]

/-- The question for hidden tokens is about the first lexeme ahead, and the end has none in front of
it. -/
theorem isSpaced_apply : isSpaced c s = (.ok (s.rest.head?.any Lexeme.spaced), s) := rfl

/-- A colon, if one is ahead, and whether hidden tokens stand on either side of it. -/
def colon : Parse (Option Bool) := do
  let spacedColon ← isSpaced
  if ← eat .colon then
    let spacedBehind ← isSpaced
    return some (spacedColon || spacedBehind)
  else
    return none

/-- The reader of index patterns asks for hidden tokens at the colon only, so it is one with `colon`
in it. -/
theorem indexPattern_eq :
    indexPattern = (do
      let first ← source
      match ← colon with
      | some spaced =>
        let index ← source
        let span := first.span.merge index.span
        if spaced then report .splitSource span
        return ⟨some first, index, span⟩
      | none => return ⟨none, first, first.span⟩) := by
  unfold indexPattern
  congr 1
  funext first c s
  obtain ⟨b, s₁, heat⟩ := total_eat .colon c s
  simp only [colon, Parse.bind_apply, isSpaced_apply, heat]
  cases b <;> rfl

/-! ### Comparisons of steps -/

/-- A comparison of steps. The second step may have other spans, and with them other tokens and
diagnostics, but of the same kind and with the same text. -/
structure Lockstep where
  place : Span → Span
  token : Token → Token
  diagnostic : Diagnostic → Diagnostic
  /-- The second step goes where the first one does, and its result is the image of the first
  one's. -/
  relates : {α : Type} → (α → α) → Parse α → Parse α → Prop
  place_merge : ∀ a b : Span, place (a.merge b) = (place a).merge (place b)
  place_point : ∀ span : Span, place (.point span.stop) = .point (place span).stop
  token_kind : ∀ t : Token, (token t).kind = t.kind
  token_text : ∀ t : Token, (token t).text = t.text
  token_span : ∀ t : Token, (token t).span = place t.span
  diagnostic_onToken : ∀ (cause : Cause) (t : Token),
    diagnostic (cause.onToken t) = cause.onToken (token t)
  relates_pure : ∀ {α : Type} {f : α → α} (a : α), relates f (pure a) (pure (f a))
  relates_bind : ∀ {α β : Type} {f : α → α} {g : β → β} {p p' : Parse α} {k k' : α → Parse β},
    relates f p p' → (∀ a, relates g (k a) (k' (f a))) → relates g (p >>= k) (p' >>= k')
  relates_stop : ∀ {α : Type} {f : α → α} (d : Diagnostic),
    relates f (.stop d) (.stop (diagnostic d))
  relates_current : relates token current current
  relates_peek : relates id peek peek
  relates_peekSecond : relates id peekSecond peekSecond
  relates_remaining : relates id remaining remaining
  relates_advance : relates token advance advance
  relates_colon : relates id colon colon
  relates_spanFrom : ∀ first : Span, relates place (spanFrom first) (spanFrom (place first))
  relates_located : ∀ (cause : Cause) (span : Span),
    relates diagnostic (located cause span) (located cause (place span))
  relates_record : ∀ d : Diagnostic, relates id (record d) (record (diagnostic d))
  relates_recover : ∀ inBrackets : Bool, relates id (recover inBrackets) (recover inBrackets)
  relates_salvage : ∀ {α : Type} {f : α → α} {read read' : Parse α}, relates f read read' →
    ∀ inBrackets, relates (Option.map f) (salvage read inBrackets) (salvage read' inBrackets)
  relates_attempt : ∀ {α : Type} {f : α → α} {p : Parse (Option α)},
    relates (Option.map f) p p → relates (Option.map f) (attempt p) (attempt p)

namespace Lockstep

attribute [simp] token_kind token_text token_span

variable (L : Lockstep) {f : α → α} {g : β → β}

/-! ### Steps of every parse -/

variable {L} in
/-- Two constants are in lockstep if the second is the image of the first. -/
theorem relates_of_eq {a b : α} (h : b = f a) : L.relates f (pure a) (pure b) :=
  h ▸ L.relates_pure a

variable {L} in
/-- A choice on one condition is in lockstep if both branches are. -/
theorem relates_ite {b : Prop} [Decidable b] {p q p' q' : Parse α} (hp : L.relates f p p')
    (hq : L.relates f q q') : L.relates f (if b then p else q) (if b then p' else q') := by
  split
  · exact hp
  · exact hq

/-- A check looks at the kind only, which both tokens share. -/
theorem relates_check (kind : Token.Kind) : L.relates id (check kind) (check kind) := by
  have heq : check kind = (do return decide ((← peek) = kind)) := rfl
  rw [heq]
  exact L.relates_bind L.relates_peek fun _ => L.relates_pure _

/-- A token is taken in both or in neither. -/
theorem relates_eat (kind : Token.Kind) : L.relates id (eat kind) (eat kind) :=
  L.relates_bind (L.relates_check kind) fun _ =>
    relates_ite (L.relates_bind L.relates_advance fun _ => L.relates_pure _) (L.relates_pure _)

/-- What was expected is said of the current token, whose image is the current one of the second
step. -/
theorem relates_expected (what : String) :
    L.relates L.diagnostic (expected what) (expected what) := by
  refine L.relates_bind L.relates_current fun t => relates_of_eq ?_
  rw [L.diagnostic_onToken, expectedCause, expectedCause, L.token_kind, L.token_text]

/-- Both steps stop if a token is not what was expected. -/
theorem relates_unexpected (what : String) : L.relates f (unexpected what) (unexpected what) :=
  L.relates_bind (L.relates_expected what) fun d => L.relates_stop d

/-- A token that is demanded is there in both or in neither. -/
theorem relates_expect (kind : Token.Kind) (what : String) :
    L.relates L.token (expect kind what) (expect kind what) :=
  L.relates_bind (L.relates_check kind) fun _ =>
    relates_ite L.relates_advance (L.relates_unexpected what)

/-- Both stop on a token, each with its own diagnostic. -/
theorem relates_stopOn (cause : Cause) (t : Token) :
    L.relates f (.stop (cause.onToken t)) (.stop (cause.onToken (L.token t))) :=
  L.diagnostic_onToken cause t ▸ L.relates_stop (cause.onToken t)

/-- Both stop on a span, which is placed in the second. -/
theorem relates_stopAt (cause : Cause) (span : Span) :
    L.relates f (do .stop (← located cause span)) (do .stop (← located cause (L.place span))) :=
  L.relates_bind (L.relates_located cause span) fun d => L.relates_stop d

/-- A report about a span goes along with the report about the placed one. -/
theorem relates_report (cause : Cause) (span : Span) :
    L.relates id (report cause span) (report cause (L.place span)) :=
  L.relates_bind (L.relates_located cause span) fun d => L.relates_record d

/-- What was expected is recorded in both. -/
theorem relates_recordExpected (what : String) :
    L.relates id (do record (← expected what)) (do record (← expected what)) :=
  L.relates_bind (L.relates_expected what) fun d => L.relates_record d

/-! ### Items with separators between them -/

section

variable {L} {separator : Token.Kind} {item item' : Parse α}

/-- A list goes on in both as long as its separator is ahead. -/
theorem relates_moreItems (hitem : L.relates f item item') (fuel : Nat) :
    L.relates (List.map f) (moreItems separator item fuel) (moreItems separator item' fuel) := by
  induction fuel with
  | zero => exact L.relates_pure _
  | succ fuel ih =>
      refine L.relates_bind (L.relates_eat separator) fun _ =>
        relates_ite ?_ (L.relates_pure _)
      exact L.relates_bind hitem fun _ => L.relates_bind ih fun _ => L.relates_pure _

/-- The items behind a first one are read in both. -/
theorem relates_others (hitem : L.relates f item item') :
    L.relates (List.map f) (others separator item) (others separator item') :=
  L.relates_bind L.relates_remaining fun fuel => relates_moreItems hitem fuel

/-- A list is read in both if its items are. -/
theorem relates_separated (hitem : L.relates f item item') :
    L.relates (List.map f) (separated separator item) (separated separator item') :=
  L.relates_bind hitem fun _ => L.relates_bind (relates_others hitem) fun _ => L.relates_pure _

end

/-! ### Names -/

/-- An identifier is read in both, with its span placed. -/
theorem relates_identifier (what : String) :
    L.relates (Identifier.mapSpans L.place) (identifier what) (identifier what) := by
  refine L.relates_bind L.relates_current fun t => ?_
  simp only [token_kind, token_text, token_span]
  cases t.kind with
  | identifier => exact L.relates_bind L.relates_advance fun _ => L.relates_pure _
  | quotedIdentifier => exact L.relates_bind L.relates_advance fun _ => L.relates_pure _
  | _ => exact L.relates_unexpected what

/-- A parameter is a question about a token's text, so both have the same. -/
theorem relates_parameterOf (t : Token) :
    L.relates id (parameterOf t) (parameterOf (L.token t)) := by
  simp only [parameterOf, parameterBody, token_kind, token_text, token_span]
  refine relates_ite (L.relates_pure _) (relates_ite ?_ (L.relates_pure _))
  split
  · exact L.relates_pure _
  · exact L.relates_stopAt _ _

/-- A part of a name is read in both. -/
theorem relates_namePart : L.relates (NamePart.mapSpans L.place) namePart namePart := by
  refine L.relates_bind L.relates_current fun t => ?_
  simp only [token_kind, token_span]
  refine relates_ite ?_ (L.relates_bind (L.relates_identifier _) fun _ => L.relates_pure _)
  exact L.relates_bind L.relates_advance fun _ =>
    L.relates_bind (L.relates_parameterOf t) fun _ => L.relates_pure _

/-- A name is read in both. -/
theorem relates_fieldName : L.relates (FieldName.mapSpans L.place) fieldName fieldName := by
  refine L.relates_bind L.relates_namePart fun first => ?_
  rw [NamePart.span_mapSpans]
  exact L.relates_bind (relates_others L.relates_namePart) fun _ =>
    L.relates_bind (L.relates_spanFrom _) fun _ => L.relates_pure _

/-- A part of a pattern is read in both. -/
theorem relates_patternPart :
    L.relates (PatternPart.mapSpans L.place) patternPart patternPart := by
  refine L.relates_bind L.relates_current fun t => ?_
  simp only [token_kind, token_text, token_span]
  refine relates_ite (L.relates_bind L.relates_advance fun _ => L.relates_pure _)
    (relates_ite ?_ (L.relates_unexpected _))
  exact L.relates_bind L.relates_advance fun _ =>
    L.relates_bind (L.relates_parameterOf t) fun _ => L.relates_pure _

/-- A pattern is read in both. -/
theorem relates_fieldPattern :
    L.relates (FieldPattern.mapSpans L.place) fieldPattern fieldPattern := by
  refine L.relates_bind L.relates_patternPart fun first => ?_
  rw [PatternPart.span_mapSpans]
  exact L.relates_bind (relates_others L.relates_patternPart) fun _ =>
    L.relates_bind (L.relates_spanFrom _) fun _ => L.relates_pure _

/-- A list of patterns is read in both. -/
theorem relates_fieldPatterns :
    L.relates (List.map (FieldPattern.mapSpans L.place)) fieldPatterns fieldPatterns :=
  relates_separated L.relates_fieldPattern

/-- A source is read in both. -/
theorem relates_source : L.relates (Source.mapSpans L.place) source source := by
  refine L.relates_bind L.relates_current fun t => ?_
  simp only [token_kind, token_text, token_span]
  cases t.kind with
  | source => exact L.relates_bind L.relates_advance fun _ => L.relates_pure _
  | quotedString => exact L.relates_bind L.relates_advance fun _ => L.relates_pure _
  | _ => exact L.relates_unexpected _

/-- An index pattern is read in both; its span is a merge, and that is placed as its parts are. -/
theorem relates_indexPattern :
    L.relates (IndexPattern.mapSpans L.place) indexPattern indexPattern := by
  rw [indexPattern_eq]
  refine L.relates_bind L.relates_source fun first => L.relates_bind L.relates_colon fun spaced => ?_
  cases spaced with
  | none => exact L.relates_pure _
  | some spaced =>
      refine L.relates_bind L.relates_source fun index => ?_
      have hspan : (first.mapSpans L.place).span.merge (index.mapSpans L.place).span =
          L.place (first.span.merge index.span) := (L.place_merge _ _).symm
      simp only [hspan]
      refine relates_ite ?_ (L.relates_pure _)
      exact L.relates_bind (L.relates_report _ _) fun _ => L.relates_pure _

/-- A list of index patterns is read in both. -/
theorem relates_indexPatterns :
    L.relates (List.map (IndexPattern.mapSpans L.place)) indexPatterns indexPatterns :=
  relates_separated L.relates_indexPattern

end Lockstep

end PipeQuery.Parser
