import Mathlib.Data.List.TakeWhile
import PipeQuery.Proofs.Command.Grammar
import PipeQuery.Proofs.Expr.Sound

/-!
# `PipeQuery.Proofs.Command.Part`: parts of commands that are read without a report

A part of a command is read on although something is reported, so a success alone does not say that
it is written as the grammar has it. It is if the state behind it is clean: nothing is recorded
there, hence nothing was recorded on the way. Every lemma here has both, the lexemes that were
taken in any case and the grammar in the clean one.

Reports count only as long as none is suppressed. The lexer found no error, which is `herr`.
-/

set_option autoImplicit false

namespace PipeQuery.Parser

variable {α : Type} {c : Context} {s s' : State} {sub : Nat → Parse Expr}

/-! ### Clean states -/

/-- Nothing is recorded. -/
def State.IsClean (s : State) : Prop :=
  s.recorded = []

/-- A state in front of a clean one is clean. -/
theorem Moves.isClean {w : List Lexeme} (h : Moves s w s') (hclean : s'.IsClean) : s.IsClean :=
  h.recorded_eq_nil hclean

/-- A record takes nothing. -/
theorem record_moves {d : Diagnostic} {u : Unit} (h : record d c s = (.ok u, s')) :
    Moves s [] s' := by
  unfold record at h
  split at h
  · obtain ⟨-, rfl⟩ := Prod.mk.inj h
    exact .refl s
  · obtain ⟨-, rfl⟩ := Prod.mk.inj h
    exact ⟨rfl, rfl, rfl, List.suffix_cons _ _⟩

/-- Behind a record the state is not clean: the diagnostic is there, or one that stands for it. -/
theorem record_ok (herr : c.errorStarts = []) {d : Diagnostic} {u : Unit}
    (h : record d c s = (.ok u, s')) : Moves s [] s' ∧ ¬ s'.IsClean := by
  refine ⟨record_moves h, ?_⟩
  simp only [record, herr, List.contains_nil, Bool.false_or] at h
  split at h
  case isTrue hany =>
    obtain ⟨-, rfl⟩ := Prod.mk.inj h
    intro hclean
    rw [State.IsClean] at hclean
    simp [hclean] at hany
  case isFalse =>
    obtain ⟨-, rfl⟩ := Prod.mk.inj h
    simp [State.IsClean]

/-- A report records one diagnostic. -/
theorem report_record {cause : Diagnostic.Cause} {span : Span} {u : Unit}
    (h : report cause span c s = (.ok u, s')) : ∃ d, record d c s = (.ok u, s') := by
  simp only [report, located, bind_ok, look_ok] at h
  obtain ⟨d, s₁, ⟨-, rfl⟩, hrecord⟩ := h
  exact ⟨d, hrecord⟩

/-- A report takes no lexemes. Where the text has no error tokens it is kept, so the state behind it
is not clean. -/
theorem report_ok {cause : Diagnostic.Cause} {span : Span} {u : Unit}
    (h : report cause span c s = (.ok u, s')) :
    Moves s [] s' ∧ (c.errorStarts = [] → ¬ s'.IsClean) :=
  (report_record h).elim fun _ h => ⟨record_moves h, fun herr => (record_ok herr h).2⟩

/-- A conditional report takes nothing, and behind it a clean state tells that the condition does
not hold. -/
theorem reportIf_ok {b : Bool} {cause : Diagnostic.Cause} {span : Span} {k : Unit → Parse α} {a : α}
    (h : (if b then report cause span >>= k else k ()) c s = (.ok a, s')) :
    ∃ s₁, Moves s [] s₁ ∧ (c.errorStarts = [] → s₁.IsClean → b = false) ∧
      k () c s₁ = (.ok a, s') := by
  cases b with
  | false => exact ⟨s, .refl s, fun _ _ => rfl, h⟩
  | true =>
      obtain ⟨u, s₁, hreport, h⟩ := bind_ok.mp h
      obtain ⟨hmoves, hdirty⟩ := report_ok hreport
      exact ⟨s₁, hmoves, fun herr hclean => absurd hclean (hdirty herr), h⟩

/-- Items that are in the grammar if the state is clean make up a list of such items. -/
theorem separated_clean {kind : Token.Kind} (hkind : kind ≠ .eof) {item : Parse α}
    {R : List Lexeme → α → Prop}
    (hitem : ∀ {s a s'}, item c s = (.ok a, s') → ∃ w, Moves s w s' ∧ (s'.IsClean → R w a))
    {as : List α} (h : separated kind item c s = (.ok as, s')) :
    ∃ w, Moves s w s' ∧ (s'.IsClean → SepBy kind R w as) :=
  separated_ok hkind (fun hmoves => hmoves.isClean) hitem h

/-- Field patterns are read off a list of them with commas between. -/
theorem fieldPatterns_ok (hend : c.endToken.kind = .eof) {fields : List FieldPattern}
    (h : fieldPatterns c s = (.ok fields, s')) :
    ∃ w, Moves s w s' ∧ SepBy .comma IsFieldPattern w fields := by
  obtain ⟨w, hmoves, hall⟩ := separated_ok (g := fun _ => True) (by simp) (fun _ h => h)
    (fun h => by
      obtain ⟨w, hpattern, hmoves⟩ := fieldPattern_ok hend h
      exact ⟨w, hmoves, fun _ => hpattern⟩) h
  exact ⟨w, hmoves, hall trivial⟩

/-! ### Sources -/

/-- An index pattern is a source, or two with a colon between them. A blank at the colon is
reported. -/
theorem indexPattern_parts (hend : c.endToken.kind = .eof) {p : IndexPattern}
    (h : indexPattern c s = (.ok p, s')) :
    (∃ l source, IsSource l source ∧ Moves s [l] s' ∧ p = ⟨none, source, source.span⟩) ∨
      ∃ l colon l' cluster index, IsSource l cluster ∧ colon.token.kind = .colon ∧
        IsSource l' index ∧ Moves s [l, colon, l'] s' ∧
        p = ⟨some cluster, index, cluster.span.merge index.span⟩ ∧
        (c.errorStarts = [] → s'.IsClean → colon.spaced = false ∧ l'.spaced = false) := by
  simp only [indexPattern, isSpaced, bind_ok, look_ok] at h
  obtain ⟨first, s₁, hfirst, spaced, _, ⟨hspaced, rfl⟩, b, s₂, heat, h⟩ := h
  obtain ⟨l, hsource, hmoves⟩ := source_ok hend hfirst
  rcases eat_ok (by simp) heat with ⟨rfl, colon, hcolon, hmoves₁⟩ | ⟨rfl, -, rfl⟩
  · simp only [if_true, bind_ok, look_ok] at h
    obtain ⟨spaced', _, ⟨hspaced', rfl⟩, index, s₃, hindex, h⟩ := h
    obtain ⟨l', hsource', hmoves₂⟩ := source_ok hend hindex
    obtain ⟨s₄, hmoves₃, hglued, h⟩ := reportIf_ok h
    obtain ⟨rfl, rfl⟩ := pure_ok.mp h
    refine .inr ⟨l, colon, l', _, _, hsource, hcolon, hsource',
      hmoves.trans (hmoves₁.trans (hmoves₂.trans hmoves₃)), rfl, fun herr hclean => ?_⟩
    obtain ⟨hcolonGlued, hindexGlued⟩ := Bool.or_eq_false_iff.mp (hglued herr hclean)
    rw [← hspaced, hmoves₁.rest_eq] at hcolonGlued
    rw [← hspaced', hmoves₂.rest_eq] at hindexGlued
    exact ⟨by simpa using hcolonGlued, by simpa using hindexGlued⟩
  · obtain ⟨rfl, rfl⟩ := pure_ok.mp h
    exact .inl ⟨l, _, hsource, hmoves, rfl⟩

/-- An index pattern is read off its lexemes, and without blanks around the colon if nothing was
reported. -/
theorem indexPattern_ok (hend : c.endToken.kind = .eof) (herr : c.errorStarts = [])
    {p : IndexPattern} (h : indexPattern c s = (.ok p, s')) :
    ∃ w, Moves s w s' ∧ (s'.IsClean → IsIndexPattern w p) := by
  rcases indexPattern_parts hend h with ⟨l, source, hsource, hmoves, rfl⟩ |
    ⟨l, colon, l', cluster, index, hcluster, hcolon, hindex, hmoves, rfl, hglued⟩
  · exact ⟨[l], hmoves, fun _ => .plain hsource⟩
  · refine ⟨[l, colon, l'], hmoves, fun hclean => ?_⟩
    obtain ⟨hcolonGlued, hindexGlued⟩ := hglued herr hclean
    exact .remote hcluster hcolon hindex hcolonGlued hindexGlued

/-- So is a list of index patterns. -/
theorem indexPatterns_ok (hend : c.endToken.kind = .eof) (herr : c.errorStarts = [])
    {sources : List IndexPattern} (h : indexPatterns c s = (.ok sources, s')) :
    ∃ w, Moves s w s' ∧ (s'.IsClean → SepBy .comma IsIndexPattern w sources) :=
  separated_clean (by simp) (indexPattern_ok hend herr) h

/-- The metadata of a `FROM` is read off a clause, in brackets or not, or off nothing. -/
theorem metadata_ok (hend : c.endToken.kind = .eof) {m : Option Metadata}
    (h : metadata c s = (.ok m, s')) : ∃ w, Moves s w s' ∧ IsMetadata w m := by
  have hsources : ∀ {s s' fields}, separated .comma source c s = (.ok fields, s') →
      ∃ w, Moves s w s' ∧ SepBy .comma IsSourceItem w fields := by
    intro s s' fields h
    obtain ⟨w, hmoves, hall⟩ := separated_ok (g := fun _ => True) (R := IsSourceItem) (by simp)
      (fun _ h => h) (fun h => by
        obtain ⟨l, hsource, hmoves⟩ := source_ok hend h
        exact ⟨[l], hmoves, fun _ => .mk hsource⟩) h
    exact ⟨w, hmoves, hall trivial⟩
  simp only [metadata, current, peekSecond, bind_ok, look_ok] at h
  obtain ⟨_, _, ⟨rfl, rfl⟩, _, _, ⟨rfl, rfl⟩, h⟩ := h
  by_cases hbracketed : (s.current c).kind = .openBracket ∧ s.kindAt 1 = .keyword .metadata
  · -- The bracket and the word behind it are both looked at before either is taken.
    obtain ⟨hopening, hsecond⟩ := hbracketed
    simp only [hopening, hsecond, decide_true, Bool.and_self, Bool.true_or, if_true, bind_ok] at h
    obtain ⟨_, s₁, hadvance, _, s₂, hadvance', fields, s₃, hfields, _, s₄, hexpect, h⟩ := h
    obtain ⟨opening, rest, hrest, hl, heq⟩ := current_eq hend hopening (by simp)
    obtain ⟨-, hmoves⟩ := advance_ok hrest hadvance
    have hsecond' : s₁.kindAt 0 = .keyword .metadata := by
      rw [← hsecond, kindAt_eq, kindAt_eq, hmoves.rest_eq, List.singleton_append,
        kindIn_cons_succ]
    obtain ⟨l, rest', hrest', hword⟩ := exists_lexeme hsecond' (by simp)
    obtain ⟨-, hmoves'⟩ := advance_ok hrest' hadvance'
    obtain ⟨w, hmoves₁, hall⟩ := hsources hfields
    obtain ⟨closing, hclosing, rfl, hmoves₂⟩ := expect_ok (by simp) hexpect
    simp only [pure_ok, spanFrom_ok] at h
    obtain ⟨_, _, ⟨rfl, rfl⟩, rfl, rfl⟩ := h
    refine ⟨[opening] ++ ([l] ++ (w ++ [closing])),
      hmoves.trans (hmoves'.trans (hmoves₁.trans hmoves₂)), ?_⟩
    rw [heq, hmoves₂.prevEnd_eq]
    exact .bracketed hl hword hall hclosing
  · have hnot : (decide ((s.current c).kind = .openBracket) &&
        decide (s.kindAt 1 = .keyword .metadata)) = false := by
      simpa [← Bool.not_eq_true] using hbracketed
    by_cases hbare : (s.current c).kind = .keyword .metadata
    · -- The word alone: the clause goes on to its last field, and its span ends there.
      simp only [hnot, Bool.false_or, decide_eq_true_eq, if_pos hbare, Bool.false_eq_true,
        if_false, bind_ok, pure_ok, spanFrom_ok] at h
      obtain ⟨_, s₁, hadvance, fields, s₂, hfields, _, _, ⟨rfl, rfl⟩, rfl, rfl⟩ := h
      obtain ⟨l, rest, hrest, hl, heq⟩ := current_eq hend hbare (by simp)
      obtain ⟨-, hmoves⟩ := advance_ok hrest hadvance
      obtain ⟨w, hmoves₁, hall⟩ := hsources hfields
      have hmoves := hmoves.trans hmoves₁
      refine ⟨[l] ++ w, hmoves, ?_⟩
      rw [heq, hmoves.prevEnd_eq, spanFrom_eq (by simp)]
      exact .bare hl hall
    · simp only [hnot, Bool.false_or, decide_eq_true_eq, if_neg hbare] at h
      obtain ⟨rfl, rfl⟩ := pure_ok.mp h
      exact ⟨[], .refl _, .absent⟩

/-! ### Assignments -/

/-- Whatever comes of the step, nothing is recorded and the depth is as before. -/
def Quiet (p : Parse α) : Prop :=
  ∀ c s, (p c s).2.depth = s.depth ∧ (p c s).2.recorded = s.recorded

section

variable {β : Type}

/-- A constant is quiet. -/
theorem quiet_pure (a : α) : Quiet (pure a : Parse α) :=
  fun _ _ => ⟨rfl, rfl⟩

/-- A stop is quiet: its diagnostic is recorded by who catches it. -/
theorem quiet_stop (d : Diagnostic) : Quiet (.stop d : Parse α) :=
  fun _ _ => ⟨rfl, rfl⟩

/-- A look at the state is quiet. -/
theorem quiet_look (f : Context → State → α) : Quiet (.look f) :=
  fun _ _ => ⟨rfl, rfl⟩

/-- The taking of a token is quiet, at the end as well. -/
theorem quiet_advance : Quiet advance := by
  intro c s
  unfold advance
  split <;> exact ⟨rfl, rfl⟩

/-- A sequence of quiet steps is quiet. -/
theorem Quiet.bind {p : Parse α} {f : α → Parse β} (hp : Quiet p) (hf : ∀ a, Quiet (f a)) :
    Quiet (p >>= f) := by
  intro c s
  rw [Parse.bind_apply]
  obtain ⟨hdepth, hrecorded⟩ := hp c s
  split
  · next a s' heq =>
      rw [heq] at hdepth hrecorded
      exact ⟨((hf a c s').1).trans hdepth, ((hf a c s').2).trans hrecorded⟩
  · next heq =>
      rw [heq] at hdepth hrecorded
      exact ⟨hdepth, hrecorded⟩

/-- A token that may be taken is taken quietly. -/
theorem quiet_eat (kind : Token.Kind) : Quiet (eat kind) := by
  refine (quiet_look _).bind fun b => ?_
  split
  · exact quiet_advance.bind fun _ => quiet_pure _
  · exact quiet_pure _

/-- A report of what was expected is a stop, and so quiet. -/
theorem quiet_unexpected (what : String) : Quiet (unexpected what : Parse α) :=
  ((quiet_look _).bind fun _ => quiet_pure _).bind fun _ => quiet_stop _

/-- A list of quiet items is read quietly. -/
theorem quiet_moreItems (kind : Token.Kind) {item : Parse α} (hitem : Quiet item) (fuel : Nat) :
    Quiet (moreItems kind item fuel) := by
  induction fuel with
  | zero => exact quiet_pure _
  | succ fuel ih =>
      refine (quiet_eat kind).bind fun b => ?_
      split
      · exact hitem.bind fun _ => ih.bind fun _ => quiet_pure _
      · exact quiet_pure _

end

/-- An identifier is read quietly. -/
theorem quiet_identifier (what : String) : Quiet (identifier what) := by
  refine (quiet_look _).bind fun token => ?_
  split
  · exact quiet_advance.bind fun _ => quiet_pure _
  · exact quiet_advance.bind fun _ => quiet_pure _
  · exact quiet_unexpected _

/-- A parameter is read quietly, also when it is not well-formed. -/
theorem quiet_parameterOf (token : Token) : Quiet (parameterOf token) := by
  unfold parameterOf
  split
  · exact quiet_pure _
  · dsimp only
    split
    · split
      · exact quiet_pure _
      · exact (quiet_look _).bind fun _ => quiet_stop _
    · exact quiet_pure _

/-- A part of a name is read quietly. -/
theorem quiet_namePart : Quiet namePart := by
  refine (quiet_look _).bind fun token => ?_
  split
  · exact quiet_advance.bind fun _ => (quiet_parameterOf token).bind fun _ => quiet_pure _
  · exact (quiet_identifier _).bind fun _ => quiet_pure _

/-- A name is read quietly, so the attempt at a target adds nothing that would have to be taken
back. -/
theorem quiet_fieldName : Quiet fieldName :=
  quiet_namePart.bind fun _ =>
    ((quiet_look _).bind fun _ => quiet_moreItems _ quiet_namePart _).bind fun _ =>
      (quiet_look _).bind fun _ => quiet_pure _

/-- An attempt that has an answer moves as the step does; one that has none did nothing. -/
theorem attempt_ok {p : Parse (Option α)} (hp : Quiet p) {r : Option α}
    (h : attempt p c s = (.ok r, s')) :
    (∃ a, r = some a ∧ p c s = (.ok (some a), s')) ∨ (r = none ∧ s' = s) := by
  obtain ⟨hdepth, hrecorded⟩ := hp c s
  unfold attempt at h
  split at h
  · next a s₁ heq =>
      obtain ⟨hr, rfl⟩ := Prod.mk.inj h
      exact .inl ⟨a, (Except.ok.inj hr).symm, heq⟩
  · next s₁ _ heq =>
      obtain ⟨hr, rfl⟩ := Prod.mk.inj h
      rw [heq] at hdepth hrecorded
      refine .inr ⟨(Except.ok.inj hr).symm, ?_⟩
      cases s
      cases s₁
      simp_all

/-- An assignment is read off a target with `=` and a value, or off a value alone. -/
theorem assignment_ok (hend : c.endToken.kind = .eof) (hsub : ReadsAll c sub) {a : Assignment}
    (h : assignment sub c s = (.ok a, s')) : ∃ w, Moves s w s' ∧ IsAssignment w a := by
  rw [assignment, bind_ok] at h
  obtain ⟨target, s₁, hattempt, h⟩ := h
  rw [bind_ok] at h
  obtain ⟨value, s₂, hvalue, h⟩ := h
  obtain ⟨w', hmoves', hderives⟩ := (hsub (Nat.zero_le _) hvalue).derives .disjunction
    (Nat.le_refl 1)
  -- The attempt at a target records nothing, so one that fails leaves no trace.
  have hquiet : Quiet (do
      let name ← fieldName
      return if ← eat .assign then some name else none) :=
    quiet_fieldName.bind fun _ => (quiet_eat _).bind fun _ => quiet_pure _
  rcases attempt_ok hquiet hattempt with ⟨name, rfl, hname⟩ | ⟨rfl, rfl⟩
  · simp only [bind_ok, pure_ok] at hname
    obtain ⟨name', s₃, hname, b, s₄, heat, hsome, rfl⟩ := hname
    obtain ⟨rfl, rfl⟩ := pure_ok.mp h
    obtain ⟨w, hfield, hmoves⟩ := fieldName_ok hend hname
    rcases eat_ok (by simp) heat with ⟨rfl, l, hl, hmoves₁⟩ | ⟨rfl, -, -⟩
    · obtain rfl : name' = name := by simpa using hsome
      exact ⟨w ++ ([l] ++ w'), hmoves.trans (hmoves₁.trans hmoves'), .target hfield hl hderives⟩
    · simp at hsome
  · obtain ⟨rfl, rfl⟩ := pure_ok.mp h
    exact ⟨w', hmoves', .plain hderives⟩

/-- Assignments are read off a list of them with commas between. -/
theorem assignments_ok (hend : c.endToken.kind = .eof) (hsub : ReadsAll c sub)
    {as : List Assignment} (h : assignments sub c s = (.ok as, s')) :
    ∃ w, Moves s w s' ∧ SepBy .comma IsAssignment w as := by
  obtain ⟨w, hmoves, hall⟩ := separated_ok (g := fun _ => True) (R := IsAssignment) (by simp)
    (fun _ h => h) (fun h => by
      obtain ⟨w, hmoves, hassignment⟩ := assignment_ok hend hsub h
      exact ⟨w, hmoves, fun _ => hassignment⟩) h
  exact ⟨w, hmoves, hall trivial⟩

/-- A clause in front of the rest of a step. -/
theorem clause_ok {β : Type} {word : Keyword} {items : Parse (List α)} {g : State → Prop}
    {R : List Lexeme → α → Prop}
    (hitems : ∀ {s as s'}, items c s = (.ok as, s') →
      ∃ w, Moves s w s' ∧ (g s' → SepBy .comma R w as))
    {k : List α → Parse β} {b : β}
    (h : (do
      if ← eat (.keyword word) then
        let as ← items
        k as
      else
        let as ← pure []
        k as) c s = (.ok b, s')) :
    ∃ as w s₁, Moves s w s₁ ∧ (g s₁ → IsClause word R w as) ∧ k as c s₁ = (.ok b, s') := by
  rw [bind_ok] at h
  obtain ⟨eaten, s₁, heat, h⟩ := h
  rcases eat_ok (by simp) heat with ⟨rfl, l, hl, hmoves⟩ | ⟨rfl, -, rfl⟩
  · obtain ⟨as, s₂, hread, h⟩ := bind_ok.mp h
    obtain ⟨w, hmoves', hall⟩ := hitems hread
    exact ⟨as, [l] ++ w, s₂, hmoves.trans hmoves', fun hgood => .present hl (hall hgood), h⟩
  · exact ⟨[], [], s₁, .refl s₁, fun _ => .absent, h⟩

/-- The two parts of `STATS` are read off the lists before and behind `BY`, and either may be
missing. -/
theorem statsParts_ok (hend : c.endToken.kind = .eof) (hsub : ReadsAll c sub)
    {parts : List Assignment × List Assignment} (h : statsParts sub c s = (.ok parts, s')) :
    ∃ w, Moves s w s' ∧ IsStatsParts w parts.1 parts.2 := by
  have hread : ∀ {s as s'}, assignments sub c s = (.ok as, s') →
      ∃ w, Moves s w s' ∧ (True → SepBy .comma IsAssignment w as) := fun h =>
    (assignments_ok hend hsub h).imp fun _ h => ⟨h.1, fun _ => h.2⟩
  simp only [statsParts, peek] at h
  rw [bind_ok] at h
  obtain ⟨first, _, hpeek, h⟩ := h
  obtain ⟨-, rfl⟩ := look_ok.mp hpeek
  split at h
  · obtain ⟨groupings, w, s₁, hmoves, hclause, h⟩ := clause_ok (g := fun _ => True) hread h
    obtain ⟨rfl, rfl⟩ := pure_ok.mp h
    exact ⟨[] ++ w, hmoves, .mk .absent (hclause trivial)⟩
  · rw [bind_ok] at h
    obtain ⟨aggregations, s₁, haggregations, h⟩ := h
    obtain ⟨w, hmoves, hall⟩ := assignments_ok hend hsub haggregations
    obtain ⟨groupings, w', s₂, hmoves', hclause, h⟩ := clause_ok (g := fun _ => True) hread h
    obtain ⟨rfl, rfl⟩ := pure_ok.mp h
    exact ⟨w ++ w', hmoves.trans hmoves', .mk (.present hall) (hclause trivial)⟩

/-! ### Other parts of commands -/

/-- A direction is read off its word, or off nothing. -/
theorem direction_ok {d : Option Direction} (h : direction c s = (.ok d, s')) :
    ∃ w, Moves s w s' ∧ IsDirection w d := by
  rw [direction, bind_ok] at h
  obtain ⟨b, s₁, heat, h⟩ := h
  rcases eat_ok (by simp) heat with ⟨rfl, l, hl, hmoves⟩ | ⟨rfl, -, rfl⟩
  · obtain ⟨rfl, rfl⟩ := pure_ok.mp h
    exact ⟨[l], hmoves, .asc hl⟩
  · simp only [Bool.false_eq_true, if_false] at h
    rw [bind_ok] at h
    obtain ⟨b', s₂, heat', h⟩ := h
    rcases eat_ok (by simp) heat' with ⟨rfl, l, hl, hmoves⟩ | ⟨rfl, -, rfl⟩
    · obtain ⟨rfl, rfl⟩ := pure_ok.mp h
      exact ⟨[l], hmoves, .desc hl⟩
    · obtain ⟨rfl, rfl⟩ := pure_ok.mp h
      exact ⟨[], .refl _, .absent⟩

/-- The order of the nulls is read off `NULLS` and a word, or off nothing. -/
theorem nullsOrder_ok {n : Option NullsOrder} (h : nullsOrder c s = (.ok n, s')) :
    ∃ w, Moves s w s' ∧ IsNullsOrder w n := by
  rw [nullsOrder, bind_ok] at h
  obtain ⟨b, s₁, heat, h⟩ := h
  rcases eat_ok (by simp) heat with ⟨rfl, l, hl, hmoves⟩ | ⟨rfl, -, rfl⟩
  · simp only [if_true] at h
    rw [bind_ok] at h
    obtain ⟨b', s₂, heat', h⟩ := h
    rcases eat_ok (by simp) heat' with ⟨rfl, l', hl', hmoves'⟩ | ⟨rfl, -, rfl⟩
    · obtain ⟨rfl, rfl⟩ := pure_ok.mp h
      exact ⟨[l] ++ [l'], hmoves.trans hmoves', .first hl hl'⟩
    · simp only [Bool.false_eq_true, if_false] at h
      rw [bind_ok] at h
      obtain ⟨b'', s₃, heat'', h⟩ := h
      rcases eat_ok (by simp) heat'' with ⟨rfl, l', hl', hmoves'⟩ | ⟨rfl, -, rfl⟩
      · obtain ⟨rfl, rfl⟩ := pure_ok.mp h
        exact ⟨[l] ++ [l'], hmoves.trans hmoves', .last hl hl'⟩
      · exact (unexpected_ok.mp h).elim
  · obtain ⟨rfl, rfl⟩ := pure_ok.mp h
    exact ⟨[], .refl _, .absent⟩

/-- A sort key is read off an expression, a direction and an order of the nulls. -/
theorem sortKey_ok (hsub : ReadsAll c sub) {key : SortKey} (h : sortKey sub c s = (.ok key, s')) :
    ∃ w, Moves s w s' ∧ IsSortKey w key := by
  simp only [sortKey, bind_ok, pure_ok, spanFrom_ok] at h
  obtain ⟨e, s₁, he, dir, s₂, hdir, nulls, s₃, hnulls, _, _, ⟨rfl, rfl⟩, rfl, rfl⟩ := h
  obtain ⟨w, hmoves, hderives⟩ := (hsub (Nat.zero_le _) he).derives .disjunction (Nat.le_refl 1)
  obtain ⟨w₁, hmoves₁, hdir⟩ := direction_ok hdir
  obtain ⟨w₂, hmoves₂, hnulls⟩ := nullsOrder_ok hnulls
  have hall := hmoves.trans (hmoves₁.trans hmoves₂)
  refine ⟨w ++ (w₁ ++ w₂), hall, ?_⟩
  rw [hall.prevEnd_eq, spanFrom_eq (by simp [hderives.ne_nil])]
  exact .mk hderives hdir hnulls

/-- Two names are refused one after the other if they have wildcards. That takes no lexemes, and in
a clean state there were none to refuse. -/
theorem refuse_ok {b b' : Bool} {cause cause' : Diagnostic.Cause} {span span' : Span} {a a' : α}
    (h : (do
      let _ ← (if b then report cause span else pure () : Parse Unit)
      let _ ← (if b' then report cause' span' else pure () : Parse Unit)
      return a) c s = (.ok a', s')) :
    a = a' ∧ Moves s [] s' ∧ (c.errorStarts = [] → s'.IsClean → b = false ∧ b' = false) := by
  -- A report that is made leaves the state unclean, and both are made alike.
  have hone : ∀ {b cause span s s'} {u : Unit},
      (if b then report cause span else pure () : Parse Unit) c s = (.ok u, s') →
      Moves s [] s' ∧ (c.errorStarts = [] → s'.IsClean → b = false) := by
    intro b cause span s s' u h
    cases b with
    | false =>
        obtain ⟨-, rfl⟩ := pure_ok.mp h
        exact ⟨.refl s, fun _ _ => rfl⟩
    | true =>
        obtain ⟨hmoves, hdirty⟩ := report_ok h
        exact ⟨hmoves, fun herr hclean => absurd hclean (hdirty herr)⟩
  simp only [bind_ok, pure_ok] at h
  obtain ⟨_, s₁, h₁, _, s₂, h₂, ha, rfl⟩ := h
  obtain ⟨hmoves₁, hb⟩ := hone h₁
  obtain ⟨hmoves₂, hb'⟩ := hone h₂
  exact ⟨ha, hmoves₁.trans hmoves₂, fun herr hclean =>
    ⟨hb herr (hmoves₂.isClean hclean), hb' herr hclean⟩⟩

/-- Two names, with one lexeme between them, are a renaming in either spelling. A wildcard in them
is reported. -/
theorem renameClause_parts (hend : c.endToken.kind = .eof) {clause : RenameClause}
    (h : renameClause c s = (.ok clause, s')) :
    ∃ w l w' first second, IsFieldPattern w first ∧ IsFieldPattern w' second ∧
      Moves s (w ++ ([l] ++ w')) s' ∧
      (l.token.kind = .keyword .as ∧
          clause = ⟨first, second, .as, first.span.merge second.span⟩ ∨
        l.token.kind = .assign ∧
          clause = ⟨second, first, .assign, second.span.merge first.span⟩) ∧
      (c.errorStarts = [] → s'.IsClean →
        clause.oldName.hasWildcard = false ∧ clause.newName.hasWildcard = false) := by
  rw [renameClause, bind_ok] at h
  obtain ⟨first, s₁, hfirst, h⟩ := h
  obtain ⟨w, hpattern, hmoves⟩ := fieldPattern_ok hend hfirst
  rw [bind_ok] at h
  obtain ⟨b, s₂, heat, h⟩ := h
  -- `AS` is asked for first and `=` only without it.
  rcases eat_ok (by simp) heat with ⟨rfl, l, hl, hmoves₁⟩ | ⟨rfl, -, rfl⟩
  · obtain ⟨_, _, hfalse, h⟩ := bind_ok.mp h
    obtain ⟨rfl, rfl⟩ := pure_ok.mp hfalse
    obtain ⟨second, s₃, hsecond, h⟩ := bind_ok.mp h
    obtain ⟨w', hpattern', hmoves₂⟩ := fieldPattern_ok hend hsecond
    obtain ⟨rfl, hmoves₃, hplain⟩ := refuse_ok h
    have hall := hmoves.trans (hmoves₁.trans (hmoves₂.trans hmoves₃))
    rw [List.append_nil] at hall
    exact ⟨w, l, w', first, second, hpattern, hpattern', hall, .inl ⟨hl, rfl⟩, hplain⟩
  · simp only [Bool.false_eq_true, if_false] at h
    rw [bind_ok] at h
    obtain ⟨b', s₃, heat', h⟩ := h
    rcases eat_ok (by simp) heat' with ⟨rfl, l, hl, hmoves₁⟩ | ⟨rfl, -, rfl⟩
    · obtain ⟨second, s₄, hsecond, h⟩ := bind_ok.mp h
      obtain ⟨w', hpattern', hmoves₂⟩ := fieldPattern_ok hend hsecond
      obtain ⟨rfl, hmoves₃, hplain⟩ := refuse_ok h
      have hall := hmoves.trans (hmoves₁.trans (hmoves₂.trans hmoves₃))
      rw [List.append_nil] at hall
      exact ⟨w, l, w', first, second, hpattern, hpattern', hall, .inr ⟨hl, rfl⟩, hplain⟩
    · exact (unexpected_ok.mp h).elim

/-- A renaming is read off two names with `AS` between, without wildcards if nothing was reported.
-/
theorem renameClause_ok (hend : c.endToken.kind = .eof) (herr : c.errorStarts = [])
    {clause : RenameClause} (h : renameClause c s = (.ok clause, s')) :
    ∃ w, Moves s w s' ∧ (s'.IsClean → IsRenameClause w clause) := by
  obtain ⟨w, l, w', first, second, hfirst, hsecond, hmoves, hform, hplain⟩ :=
    renameClause_parts hend h
  refine ⟨_, hmoves, fun hclean => ?_⟩
  obtain ⟨hold, hnew⟩ := hplain herr hclean
  rcases hform with ⟨hl, rfl⟩ | ⟨hl, rfl⟩
  · exact .as hfirst hl hsecond hold hnew
  · exact .assign hfirst hl hsecond hold hnew

/-- An added field of `ENRICH` is one name, or two with `=` between them. A wildcard in them is
reported. -/
theorem enrichField_parts (hend : c.endToken.kind = .eof) {field : EnrichField}
    (h : enrichField c s = (.ok field, s')) :
    (∃ w name, IsFieldPattern w name ∧ Moves s w s' ∧ field = ⟨none, name, name.span⟩ ∧
        (c.errorStarts = [] → s'.IsClean → name.hasWildcard = false)) ∨
      ∃ w l w' new name, IsFieldPattern w new ∧ l.token.kind = .assign ∧ IsFieldPattern w' name ∧
        Moves s (w ++ ([l] ++ w')) s' ∧ field = ⟨some new, name, new.span.merge name.span⟩ ∧
        (c.errorStarts = [] → s'.IsClean →
          new.hasWildcard = false ∧ name.hasWildcard = false) := by
  rw [enrichField, bind_ok] at h
  obtain ⟨first, s₁, hfirst, h⟩ := h
  obtain ⟨w, hpattern, hmoves⟩ := fieldPattern_ok hend hfirst
  dsimp only at h
  rw [bind_ok] at h
  obtain ⟨b, s₂, heat, h⟩ := h
  rcases eat_ok (by simp) heat with ⟨rfl, l, hl, hmoves₁⟩ | ⟨rfl, -, rfl⟩
  · obtain ⟨second, s₃, hsecond, h⟩ := bind_ok.mp h
    obtain ⟨w', hpattern', hmoves₂⟩ := fieldPattern_ok hend hsecond
    obtain ⟨rfl, hmoves₃, hplain⟩ := refuse_ok h
    have hall := hmoves.trans (hmoves₁.trans (hmoves₂.trans hmoves₃))
    rw [List.append_nil] at hall
    exact .inr ⟨w, l, w', first, second, hpattern, hl, hpattern', hall, rfl, hplain⟩
  · -- A single name is refused as two are, the second of which is in order.
    have h : (do
        let _ ← (if first.hasWildcard then
          report (.enrichWildcard first.render) first.span else pure () : Parse Unit)
        let _ ← (if false then report .splitSource first.span else pure () : Parse Unit)
        return (⟨none, first, first.span⟩ : EnrichField)) c s₂ = (.ok field, s') := h
    obtain ⟨rfl, hmoves₁, hplain⟩ := refuse_ok h
    have hall := hmoves.trans hmoves₁
    rw [List.append_nil] at hall
    exact .inl ⟨w, first, hpattern, hall, rfl, fun herr hclean => (hplain herr hclean).1⟩

/-- An added field of `ENRICH` is read off one name or two, without wildcards if nothing was
reported. -/
theorem enrichField_ok (hend : c.endToken.kind = .eof) (herr : c.errorStarts = [])
    {field : EnrichField} (h : enrichField c s = (.ok field, s')) :
    ∃ w, Moves s w s' ∧ (s'.IsClean → IsEnrichField w field) := by
  rcases enrichField_parts hend h with ⟨w, name, hname, hmoves, rfl, hplain⟩ |
    ⟨w, l, w', new, name, hnew, hl, hname, hmoves, rfl, hplain⟩
  · exact ⟨w, hmoves, fun hclean => .plain hname (hplain herr hclean)⟩
  · exact ⟨_, hmoves, fun hclean =>
      .renamed hnew hl hname (hplain herr hclean).1 (hplain herr hclean).2⟩

/-- An option of `DISSECT` is a name, `=` and a value. One that is not known, or whose value is no
string, is reported. -/
theorem dissectOption_parts (hend : c.endToken.kind = .eof) (hsub : ReadsAll c sub)
    {option : DissectOption} (h : dissectOption sub c s = (.ok option, s')) :
    ∃ l assign w name value, IsIdentifier l name ∧ assign.token.kind = .assign ∧
      Derives .sign w value ∧ Moves s ([l] ++ ([assign] ++ w)) s' ∧
      option = ⟨name, value, name.span.merge value.span⟩ ∧
      (c.errorStarts = [] → s'.IsClean →
        Text.sameWord name.name "append_separator" = true ∧ value.isString = true) := by
  rw [dissectOption, bind_ok] at h
  obtain ⟨name, s₁, hname, h⟩ := h
  obtain ⟨t, s₂, hexpect, h⟩ := bind_ok.mp h
  obtain ⟨value, s₃, hvalue, h⟩ := bind_ok.mp h
  obtain ⟨l, hid, hmoves⟩ := identifier_ok hend hname
  obtain ⟨assign, hassign, -, hmoves₁⟩ := expect_ok (by simp) hexpect
  obtain ⟨w, hmoves₂, hderives⟩ := constant_ok hend hsub hvalue
  have hmoves := hmoves.trans (hmoves₁.trans hmoves₂)
  obtain ⟨rfl, hmoves₃, hplain⟩ : (⟨name, value, name.span.merge value.span⟩ : DissectOption) =
      option ∧ Moves s₃ [] s' ∧ (c.errorStarts = [] → s'.IsClean →
        Text.sameWord name.name "append_separator" = true ∧ value.isString = true) := by
    split at h
    case isTrue =>
      obtain ⟨u, s₄, hreport, h⟩ := bind_ok.mp h
      obtain ⟨rfl, rfl⟩ := pure_ok.mp h
      obtain ⟨hmoves, hdirty⟩ := report_ok hreport
      exact ⟨rfl, hmoves, fun herr hclean => absurd hclean (hdirty herr)⟩
    case isFalse hknown =>
      obtain ⟨s₄, hmoves, hstring, h⟩ := reportIf_ok h
      obtain ⟨rfl, rfl⟩ := pure_ok.mp h
      exact ⟨rfl, hmoves, fun herr hclean =>
        ⟨by simpa using hknown, by simpa using hstring herr hclean⟩⟩
  have hall := hmoves.trans hmoves₃
  rw [List.append_nil] at hall
  exact ⟨l, assign, w, name, value, hid, hassign, hderives, hall, rfl, hplain⟩

/-- An option of `DISSECT` is read off a name, `=` and a value, and it is a known one if nothing was
reported. -/
theorem dissectOption_ok (hend : c.endToken.kind = .eof) (herr : c.errorStarts = [])
    (hsub : ReadsAll c sub) {option : DissectOption}
    (h : dissectOption sub c s = (.ok option, s')) :
    ∃ w, Moves s w s' ∧ (s'.IsClean → IsDissectOption w option) := by
  obtain ⟨l, assign, w, name, value, hid, hassign, hderives, hmoves, rfl, hplain⟩ :=
    dissectOption_parts hend hsub h
  exact ⟨_, hmoves, fun hclean =>
    .mk hid hassign hderives (hplain herr hclean).1 (hplain herr hclean).2⟩

/-- The options of `DISSECT` are read off a list of them, or off nothing. -/
theorem dissectOptions_ok (hend : c.endToken.kind = .eof) (herr : c.errorStarts = [])
    (hsub : ReadsAll c sub) {options : List DissectOption}
    (h : dissectOptions sub c s = (.ok options, s')) :
    ∃ w, Moves s w s' ∧ (s'.IsClean → IsOptional IsDissectOption w options) := by
  simp only [dissectOptions, peek] at h
  rw [bind_ok] at h
  obtain ⟨first, _, hpeek, h⟩ := h
  obtain ⟨rfl, rfl⟩ := look_ok.mp hpeek
  split at h
  · obtain ⟨w, hmoves, hall⟩ := separated_clean (by simp) (dissectOption_ok hend herr hsub) h
    exact ⟨w, hmoves, fun hclean => .present (hall hclean)⟩
  · obtain ⟨rfl, rfl⟩ := pure_ok.mp h
    exact ⟨[], .refl _, fun _ => .absent⟩

/-- A setting is a name and a value in brackets, with a colon between. One that is not known is
reported. -/
theorem setting_parts {given : Setting} (hahead : s.kindAt 0 = .openBracket)
    (h : setting c s = (.ok given, s')) :
    ∃ opening name colon value closing : Lexeme, opening.token.kind = .openBracket ∧
      name.token.kind = .setting ∧ colon.token.kind = .colon ∧ value.token.kind = .setting ∧
      closing.token.kind = .closeBracket ∧
      Moves s [opening, name, colon, value, closing] s' ∧
      given = ⟨name.token.text, value.token.text, spanOver opening.token.span [closing]⟩ ∧
      (c.errorStarts = [] → s'.IsClean → Text.sameWord name.token.text "ccq.mode" = true ∧
        (EnrichMode.ofName? value.token.text).isSome = true) := by
  simp only [setting] at h
  rw [bind_ok] at h
  obtain ⟨t, s₁, hadvance, h⟩ := h
  obtain ⟨opening, rest, hrest, hopening⟩ := exists_lexeme hahead (by simp)
  obtain ⟨rfl, hmoves⟩ := advance_ok hrest hadvance
  obtain ⟨t, s₂, hexpect, h⟩ := bind_ok.mp h
  obtain ⟨name, hname, rfl, hmoves₁⟩ := expect_ok (by simp) hexpect
  obtain ⟨t, s₃, hexpect, h⟩ := bind_ok.mp h
  obtain ⟨colon, hcolon, rfl, hmoves₂⟩ := expect_ok (by simp) hexpect
  obtain ⟨t, s₄, hexpect, h⟩ := bind_ok.mp h
  obtain ⟨value, hvalue, rfl, hmoves₃⟩ := expect_ok (by simp) hexpect
  obtain ⟨t, s₅, hexpect, h⟩ := bind_ok.mp h
  obtain ⟨closing, hclosing, rfl, hmoves₄⟩ := expect_ok (by simp) hexpect
  rw [bind_ok] at h
  obtain ⟨span, _, hspan, h⟩ := h
  obtain ⟨rfl, rfl⟩ := spanFrom_ok.mp hspan
  have hmoves := hmoves.trans (hmoves₁.trans (hmoves₂.trans (hmoves₃.trans hmoves₄)))
  -- Whatever is reported at the end, the setting is made and no lexeme is taken.
  obtain ⟨rfl, hmoves₅, hplain⟩ : (⟨name.token.text, value.token.text, ⟨opening.token.span.start,
      max s₅.prevEnd opening.token.span.stop⟩⟩ : Setting) = given ∧ Moves s₅ [] s' ∧
      (c.errorStarts = [] → s'.IsClean → Text.sameWord name.token.text "ccq.mode" = true ∧
        (EnrichMode.ofName? value.token.text).isSome = true) := by
    split at h
    case isTrue =>
      obtain ⟨u, s₆, hreport, h⟩ := bind_ok.mp h
      obtain ⟨rfl, rfl⟩ := pure_ok.mp h
      obtain ⟨hmoves, hdirty⟩ := report_ok hreport
      exact ⟨rfl, hmoves, fun herr hclean => absurd hclean (hdirty herr)⟩
    case isFalse hknown =>
      obtain ⟨s₆, hmoves, hmode, h⟩ := reportIf_ok h
      obtain ⟨rfl, rfl⟩ := pure_ok.mp h
      exact ⟨rfl, hmoves, fun herr hclean =>
        ⟨by simpa using hknown, by simpa [← Option.not_isSome] using hmode herr hclean⟩⟩
  refine ⟨opening, name, colon, value, closing, hopening, hname, hcolon, hvalue, hclosing,
    hmoves.trans hmoves₅, ?_, hplain⟩
  rw [hmoves₄.prevEnd_eq]
  rfl

/-- A setting is read off its brackets, and it is a known one if nothing was reported. -/
theorem setting_ok (herr : c.errorStarts = []) {given : Setting}
    (hahead : s.kindAt 0 = .openBracket) (h : setting c s = (.ok given, s')) :
    ∃ w, Moves s w s' ∧ (s'.IsClean → IsSetting w given) := by
  obtain ⟨opening, name, colon, value, closing, hopening, hname, hcolon, hvalue, hclosing, hmoves,
    rfl, hplain⟩ := setting_parts hahead h
  exact ⟨_, hmoves, fun hclean => .mk hopening hname hcolon hvalue hclosing
    (hplain herr hclean).1 (hplain herr hclean).2⟩

/-- A setting that the grammar knows is the mode of `ENRICH`, the only one there is. -/
theorem IsSetting.isKnown {w : List Lexeme} {given : Setting} (h : IsSetting w given) :
    Text.sameWord given.name "ccq.mode" = true := by
  cases h with
  | mk _ _ _ _ _ hknown _ => exact hknown

/-- Behind a known setting there is no other one: it would have the same name. -/
theorem settings_ok (herr : c.errorStarts = []) {fuel : Nat} {before given : List Setting}
    (h : settings fuel before c s = (.ok given, s')) :
    ∃ w, Moves s w s' ∧
      (s'.IsClean → before = [] → IsSettings w given) ∧
      (s'.IsClean → ∀ first ∈ before, Text.sameWord first.name "ccq.mode" = true →
        w = [] ∧ given = before) := by
  induction fuel generalizing s before with
  | zero =>
      obtain ⟨rfl, rfl⟩ := pure_ok.mp h
      exact ⟨[], .refl s, fun _ hnil => hnil ▸ .absent, fun _ _ _ _ => ⟨rfl, rfl⟩⟩
  | succ fuel ih =>
      rw [settings, bind_ok] at h
      obtain ⟨b, _, hcheck, h⟩ := h
      obtain ⟨rfl, rfl⟩ := check_ok.mp hcheck
      by_cases hahead : s.kindAt 0 = .openBracket
      · simp only [hahead, decide_true, if_true] at h
        rw [bind_ok] at h
        obtain ⟨next, s₁, hnext, h⟩ := h
        obtain ⟨w, hmoves, hsetting⟩ := setting_ok herr hahead hnext
        obtain ⟨s₂, hmoves₁, hfresh, h⟩ := reportIf_ok h
        obtain ⟨w', hmoves₂, -, hlast⟩ := ih h
        refine ⟨w ++ ([] ++ w'), hmoves.trans (hmoves₁.trans hmoves₂), fun hclean hnil => ?_,
          fun hclean first hfirst hknown => ?_⟩
        · have hnext := hsetting ((hmoves₁.trans hmoves₂).isClean hclean)
          obtain ⟨rfl, rfl⟩ := hlast hclean next (by simp) hnext.isKnown
          subst hnil
          simpa using IsSettings.present hnext
        · have hnext := hsetting ((hmoves₁.trans hmoves₂).isClean hclean)
          have hnone := hfresh herr (hmoves₂.isClean hclean)
          -- Both names are the known one up to case, so they are the same up to case.
          have hsame : Text.sameWord first.name next.name = true := by
            have hword := hnext.isKnown
            simp only [Text.sameWord, decide_eq_true_eq] at hknown hword ⊢
            rw [hknown, hword]
          rw [List.any_eq_false] at hnone
          exact absurd hsame (hnone first hfirst)
      · simp only [hahead, decide_false, Bool.false_eq_true, if_false] at h
        obtain ⟨rfl, rfl⟩ := pure_ok.mp h
        exact ⟨[], .refl _, fun _ hnil => hnil ▸ .absent, fun _ _ _ _ => ⟨rfl, rfl⟩⟩

/-- A list that is not all in front of the first colon has a colon there. -/
theorem takeWhile_colon {cs : List Char} (h : (cs.takeWhile (· ≠ ':')).length ≠ cs.length) :
    cs = cs.takeWhile (· ≠ ':') ++ ':' :: cs.drop ((cs.takeWhile (· ≠ ':')).length + 1) := by
  induction cs with
  | nil => simp at h
  | cons a cs ih =>
      by_cases ha : a = ':'
      · subst ha
        simp
      · have hcons : (a :: cs).takeWhile (· ≠ ':') = a :: cs.takeWhile (· ≠ ':') := by simp [ha]
        rw [hcons] at h ⊢
        rw [List.cons_append, List.length_cons, List.drop_succ_cons, ← ih (by simpa using h)]

/-- A policy is read off one token, which has a mode it may have if nothing was reported. -/
theorem policy_ok (herr : c.errorStarts = []) {p : Policy} (h : policy c s = (.ok p, s')) :
    ∃ l, Moves s [l] s' ∧ (s'.IsClean → IsPolicy l p) := by
  simp only [policy] at h
  rw [bind_ok] at h
  obtain ⟨t, s₁, hexpect, h⟩ := h
  obtain ⟨l, hl, rfl, hmoves⟩ := expect_ok (by simp) hexpect
  split at h
  case isTrue hplain =>
    obtain ⟨rfl, rfl⟩ := pure_ok.mp h
    refine ⟨l, hmoves, fun _ => .plain hl fun hmem => ?_⟩
    have hall := (List.takeWhile_prefix (· ≠ ':')).eq_of_length hplain
    exact absurd (List.takeWhile_eq_self_iff.mp hall ':' hmem) (by simp)
  case isFalse hcolon =>
    obtain ⟨s₂, hmoves', hmode, h⟩ := reportIf_ok h
    obtain ⟨rfl, rfl⟩ := pure_ok.mp h
    refine ⟨l, hmoves.trans hmoves', fun hclean => ?_⟩
    obtain ⟨mode, hmode⟩ := Option.ne_none_iff_exists'.mp
      (Option.isNone_eq_false_iff.mp (hmode herr hclean) |> Option.isSome_iff_ne_none.mp)
    rw [hmode]
    refine .qualified hl (takeWhile_colon hcolon) (fun hmem => ?_) hmode
    exact absurd (List.mem_takeWhile_imp hmem) (by simp)

end PipeQuery.Parser
