import PipeQuery.Parser.Command
import PipeQuery.Proofs.Expr.Carried

/-!
# `PipeQuery.Proofs.Command.Carried`: commands at two places

Each step of `PipeQuery.Parser.Command` carries states of a parser over a text to those over a
longer one, `EXPLAIN` apart: what it holds may go on behind the end of the text, and a condition on
it is left open. A command takes its verb before it reads anything else, so where the parser was in
front of it makes no difference (`CarriesVerb`). `command_agrees` puts the verbs together.
-/

set_option autoImplicit false

namespace PipeQuery.Parser.Embedding

open Diagnostic (Cause)

variable {e : Embedding} {c c' : Context} {n m : Nat} {s s' : State} {sub : Nat → Parse Expr}

/-! ### Parts of commands -/

/-- An assignment is carried over; the attempt at a target is given up in both parses or in neither.
-/
theorem assignment_carries (hc : e.Contexts c c') (hsub : e.CarriesAll c c' sub) :
    e.Carries c c' (Image (Assignment.mapSpans (.shift e.offset))) (assignment sub) := by
  intro n s s' hs
  -- A name is only a target in front of `=`, and else the start of the value.
  have htarget : e.Carries c c' (Image (Option.map (FieldName.mapSpans (.shift e.offset)))) (do
      let name ← fieldName
      return if ← eat .assign then some name else none) := by
    intro n s s' hs
    refine (fieldName_carries hc hs).bind ?_
    rintro name _ s₁ s₁' rfl hs₁
    refine (hs₁.eat (by decide)).bind ?_
    rintro assigned _ s₂ s₂' rfl hs₂
    refine hs₂.pure ?_
    cases assigned <;> rfl
  refine (htarget.attempt hs).bind ?_
  rintro target _ s₁ s₁' rfl hs₁
  refine (hsub 0 hs₁).bind ?_
  rintro value _ s₂ s₂' rfl hs₂
  cases target with
  | none =>
      refine hs₂.pure ?_
      rw [Image, Assignment.mapSpans, Expr.span_mapSpans]
      rfl
  | some name =>
      refine hs₂.pure ?_
      rw [Image, Assignment.mapSpans, Expr.span_mapSpans, Span.shift_merge]
      rfl

/-- A list of assignments is carried over. -/
theorem assignments_carries (hc : e.Contexts c c') (hsub : e.CarriesAll c c' sub) :
    e.Carries c c' (Image (List.map (Assignment.mapSpans (.shift e.offset)))) (assignments sub) :=
  (assignment_carries hc hsub).separated (by decide)

/-- A part behind a keyword, or what stands for it without the keyword, and then the rest. -/
theorem States.optional {α β : Type} {R : α → α → Prop} {S : β → β → Prop} (hs : e.States n s s')
    {word : Keyword} {part : Parse α} (hpart : e.Carries c c' R part) {none none' : α}
    (hnone : R none none') {k k' : α → Parse β}
    (hk : ∀ {a a' s₁ s₁'}, R a a' → e.States n s₁ s₁' → e.Agrees n S (k a c s₁) (k' a' c' s₁')) :
    e.Agrees n S
      ((Parser.eat (.keyword word) >>= fun b => if b then part >>= k else Pure.pure none >>= k) c s)
      ((Parser.eat (.keyword word) >>= fun b => if b then part >>= k' else Pure.pure none' >>= k')
        c' s') := by
  have hword : ¬ AtEnd (.keyword word) := by rintro (h | h) <;> cases h
  refine (hs.eat hword).bind ?_
  rintro present _ s₁ s₁' rfl hs₁
  exact .ite Iff.rfl (fun _ => (hpart hs₁).bind hk) fun _ => (hs₁.pure hnone).bind hk

/-- What stands in `STATS` before and behind `BY` is carried over. -/
theorem statsParts_carries (hc : e.Contexts c c') (hsub : e.CarriesAll c c' sub) :
    e.Carries c c' (Image (Prod.map (List.map (Assignment.mapSpans (.shift e.offset)))
      (List.map (Assignment.mapSpans (.shift e.offset))))) (statsParts sub) := by
  intro n s s' hs
  -- What follows the aggregations.
  have hgroupings : ∀ {aggregations : List Assignment} {s₁ s₁'}, e.States n s₁ s₁' →
      e.Agrees n (Image (Prod.map (List.map (Assignment.mapSpans (.shift e.offset)))
          (List.map (Assignment.mapSpans (.shift e.offset)))))
        ((do
          let groupings ← if ← eat (.keyword .«by») then assignments sub else pure []
          return (aggregations, groupings)) c s₁)
        ((do
          let groupings ← if ← eat (.keyword .«by») then assignments sub else pure []
          return (aggregations.map (Assignment.mapSpans (.shift e.offset)), groupings)) c' s₁') := by
    intro aggregations s₁ s₁' hs₁
    refine hs₁.optional (assignments_carries hc hsub) rfl ?_
    rintro groupings _ s₂ s₂' rfl hs₂
    exact hs₂.pure rfl
  have hends : (endsCommand (s'.kindAt 0) || s'.kindAt 0 = .keyword .«by») =
      (endsCommand (s.kindAt 0) || s.kindAt 0 = .keyword .«by») := by
    rcases hs.kindAt_zero with heq | ⟨heof, hpipe⟩
    · rw [heq]
    · rw [heof, hpipe]
      rfl
  rw [statsParts, peek, bind_look, bind_look, hends]
  refine .ite Iff.rfl (fun _ => hgroupings hs) fun _ => ?_
  refine (assignments_carries hc hsub hs).bind ?_
  rintro aggregations _ s₁ s₁' rfl hs₁
  exact hgroupings hs₁

/-- The metadata of a `FROM` is carried over, in brackets or without. -/
theorem metadata_carries (hc : e.Contexts c c') :
    e.Carries c c' (Image (Option.map (Metadata.mapSpans (.shift e.offset)))) metadata := by
  intro n s s' hs
  -- The fields and the bracket behind them.
  have hfields : ∀ {first first' : Token} {bracketed : Bool} {m s₁ s₁'},
      first.Moved e.offset first' → e.States m s₁ s₁' →
      e.Agrees m (Image (Option.map (Metadata.mapSpans (.shift e.offset))))
        ((do
          let fields ← separated .comma source
          if bracketed then
            let _ ← expect .closeBracket "']'"
          return some (Metadata.mk fields bracketed (← spanFrom first.span))) c s₁)
        ((do
          let fields ← separated .comma source
          if bracketed then
            let _ ← expect .closeBracket "']'"
          return some (Metadata.mk fields bracketed (← spanFrom first'.span))) c' s₁') := by
    intro first first' bracketed m s₁ s₁' hfirst hs₁
    have hspan : ∀ {fields : List Source} {s₂ s₂'}, e.States m s₂ s₂' →
        e.Agrees m (Image (Option.map (Metadata.mapSpans (.shift e.offset))))
          ((do return some (Metadata.mk fields bracketed (← spanFrom first.span))) c s₂)
          ((do return some (Metadata.mk (fields.map (Source.mapSpans (.shift e.offset))) bracketed
            (← spanFrom first'.span))) c' s₂') := by
      intro fields s₂ s₂' hs₂
      refine (hs₂.spanFrom hfirst.span_eq).bind ?_
      rintro span _ s₃ s₃' rfl hs₃
      exact hs₃.pure rfl
    refine ((source_carries hc).separated (by decide) hs₁).bind ?_
    rintro fields _ s₂ s₂' rfl hs₂
    cases bracketed with
    | false => exact hspan hs₂
    | true => exact (hs₂.expect hc (by decide) _).bind fun _ hs₃ => hspan hs₃
  rw [metadata, bind_apply_of_ok (current_run c s), bind_apply_of_ok (current_run c' s'),
    peekSecond, bind_look, bind_look]
  rcases hs.front_or_end with ⟨m, l, l', rfl, hfront, -⟩ | ⟨hrest, hrest'⟩
  · have hsecond : s'.kindAt 1 = .keyword .metadata ↔ s.kindAt 1 = .keyword .metadata :=
      hfront.kindAt_one_iff (by decide)
    simp only [(hfront.current c c').1, (hfront.current c c').2, hfront.moved.kind_eq, hsecond]
    generalize hbracketed : (decide (l.token.kind = .openBracket) &&
      decide (s.kindAt 1 = .keyword .metadata)) = bracketed
    refine .ite Iff.rfl (fun _ => hfront.skip ?_) fun _ => hs.pure rfl
    cases bracketed with
    | false => exact hfields hfront.moved hfront.past
    | true =>
        obtain ⟨-, hword⟩ := Bool.and_eq_true_iff.mp hbracketed
        obtain ⟨m, l₂, l₂', rfl, hfront₂⟩ := hfront.second (by
          rw [of_decide_eq_true hword]
          decide)
        exact hfront₂.skip (hfields hfront.moved hfront₂.past)
  · obtain ⟨hend, hend'⟩ := hc.atEnd hrest hrest'
    have hnone : ∀ {t : Token}, AtEnd t.kind →
        t.kind ≠ .openBracket ∧ t.kind ≠ .keyword .metadata := by
      rintro t (h | h) <;> rw [h] <;> exact ⟨by decide, by decide⟩
    simp only [(hnone hend).1, (hnone hend).2, (hnone hend').1, (hnone hend').2, decide_false,
      Bool.false_and, Bool.or_self, Bool.false_eq_true, if_false]
    exact hs.pure rfl

/-- The direction of a sort key is carried over, and has no span to shift. -/
theorem direction_carries : e.Carries c c' Eq direction := by
  intro n s s' hs
  refine hs.onEat (by decide) (fun _ hs₁ => hs₁.pure rfl) ?_
  refine hs.onEat (by decide) (fun _ hs₁ => hs₁.pure rfl) ?_
  exact hs.pure rfl

/-- So is the order of the nulls. -/
theorem nullsOrder_carries (hc : e.Contexts c c') : e.Carries c c' Eq nullsOrder := by
  intro n s s' hs
  refine hs.onEat (by decide) ?_ (hs.pure rfl)
  rintro m s₁ s₁' - hs₁
  refine hs₁.onEat (by decide) (fun _ hs₂ => hs₂.pure rfl) ?_
  refine hs₁.onEat (by decide) (fun _ hs₂ => hs₂.pure rfl) ?_
  exact hs₁.unexpected hc _

/-- A sort key is carried over. -/
theorem sortKey_carries (hc : e.Contexts c c') (hsub : e.CarriesAll c c' sub) :
    e.Carries c c' (Image (SortKey.mapSpans (.shift e.offset))) (sortKey sub) := by
  intro n s s' hs
  refine (hsub 0 hs).bind ?_
  rintro key _ s₁ s₁' rfl hs₁
  refine (direction_carries hs₁).bind ?_
  rintro direction _ s₂ s₂' rfl hs₂
  refine (nullsOrder_carries hc hs₂).bind ?_
  rintro nulls _ s₃ s₃' rfl hs₃
  refine (hs₃.spanFrom (Expr.span_mapSpans _ key)).bind ?_
  rintro span _ s₄ s₄' rfl hs₄
  exact hs₄.pure rfl

/-- Refuses a name with a wildcard. -/
def refuseWildcard (cause : String → Cause) (name : FieldPattern) : Parse Unit :=
  if name.hasWildcard then report (cause name.render) name.span else pure ()

/-- A wildcard is refused in both parses or in neither, since a shift changes no pattern. -/
theorem States.refuseWildcard (hc : e.Contexts c c') (hs : e.States n s s')
    {cause : String → Cause} (hkind : ∀ text text', (cause text').kind = (cause text).kind)
    (name : FieldPattern) :
    e.Agrees n Eq (refuseWildcard cause name c s)
      (refuseWildcard cause (name.mapSpans (.shift e.offset)) c' s') :=
  .ite (by rw [FieldPattern.hasWildcard_mapSpans]) (fun _ => hs.report hc (hkind _ _) rfl)
    fun _ => hs.pure rfl

/-- A renaming is carried over. -/
theorem renameClause_carries (hc : e.Contexts c c') :
    e.Carries c c' (Image (RenameClause.mapSpans (.shift e.offset))) renameClause := by
  intro n s s' hs
  -- Both forms end alike, with two names that may hold no wildcard.
  have hmade : ∀ {oldName newName : FieldPattern} {form : RenameForm} {s₂ s₂'},
      e.States n s₂ s₂' → e.Agrees n (Image (RenameClause.mapSpans (.shift e.offset)))
        ((do
          refuseWildcard .renameWildcard oldName
          refuseWildcard .renameWildcard newName
          return RenameClause.mk oldName newName form (oldName.span.merge newName.span)) c s₂)
        ((do
          refuseWildcard .renameWildcard (oldName.mapSpans (.shift e.offset))
          refuseWildcard .renameWildcard (newName.mapSpans (.shift e.offset))
          return RenameClause.mk (oldName.mapSpans (.shift e.offset))
            (newName.mapSpans (.shift e.offset)) form
            ((oldName.mapSpans (.shift e.offset)).span.merge
              (newName.mapSpans (.shift e.offset)).span)) c' s₂') := by
    intro oldName newName form s₂ s₂' hs₂
    refine (hs₂.refuseWildcard hc (fun _ _ => rfl) oldName).bind fun _ hs₃ => ?_
    refine (hs₃.refuseWildcard hc (fun _ _ => rfl) newName).bind fun _ hs₄ => ?_
    refine hs₄.pure ?_
    rw [Image, RenameClause.mapSpans, Span.shift_merge]
    rfl
  refine (fieldPattern_carries hc hs).bind ?_
  rintro first _ s₁ s₁' rfl hs₁
  refine (hs₁.eat (by decide)).bind ?_
  rintro as _ s₂ s₂' rfl hs₂
  cases as with
  | true =>
      refine (fieldPattern_carries hc hs₂).bind ?_
      rintro second _ s₃ s₃' rfl hs₃
      exact hmade hs₃
  | false =>
      refine (hs₂.eat (by decide)).bind ?_
      rintro assigned _ s₃ s₃' rfl hs₃
      cases assigned with
      | false => exact hs₃.unexpected hc _
      | true =>
          refine (fieldPattern_carries hc hs₃).bind ?_
          rintro second _ s₄ s₄' rfl hs₄
          exact hmade hs₄

/-- An option of `DISSECT` is carried over. -/
theorem dissectOption_carries (hc : e.Contexts c c') (hsub : e.CarriesAll c c' sub) :
    e.Carries c c' (Image (DissectOption.mapSpans (.shift e.offset))) (dissectOption sub) := by
  intro n s s' hs
  refine (identifier_carries hc _ hs).bind ?_
  rintro name _ s₁ s₁' rfl hs₁
  refine (hs₁.expect hc (by decide) _).bind fun _ hs₂ => ?_
  refine (constant_carries hc hsub hs₂).bind ?_
  rintro value _ s₃ s₃' rfl hs₃
  have hmade : ∀ {s₄ s₄'}, e.States n s₄ s₄' →
      e.Agrees n (Image (DissectOption.mapSpans (.shift e.offset)))
      ((pure (DissectOption.mk name value (name.span.merge value.span)) : Parse _) c s₄)
      ((pure (DissectOption.mk (name.mapSpans (.shift e.offset)) (value.mapSpans (.shift e.offset))
        ((name.mapSpans (.shift e.offset)).span.merge
          (value.mapSpans (.shift e.offset)).span)) : Parse _) c' s₄') := by
    intro s₄ s₄' hs₄
    refine hs₄.pure ?_
    rw [Image, DissectOption.mapSpans, Span.shift_merge, Expr.span_mapSpans]
    rfl
  refine .ite Iff.rfl (fun _ => (hs₃.report hc rfl rfl).bind fun _ hs₄ => hmade hs₄) fun _ => ?_
  exact hs₃.reportIf hc (by rw [Expr.isString_mapSpans]) rfl (Expr.span_mapSpans _ value) hmade

/-- The options of `DISSECT` are carried over, up to the end of the pattern. -/
theorem dissectOptions_carries (hc : e.Contexts c c') (hsub : e.CarriesAll c c' sub) :
    e.Carries c c' (Image (List.map (DissectOption.mapSpans (.shift e.offset))))
      (dissectOptions sub) := by
  intro n s s' hs
  have hfirst : s'.kindAt 0 = .identifier ∨ s'.kindAt 0 = .quotedIdentifier ↔
      s.kindAt 0 = .identifier ∨ s.kindAt 0 = .quotedIdentifier :=
    or_congr (hs.kindAt_iff (by decide)) (hs.kindAt_iff (by decide))
  rw [dissectOptions, peek, bind_look, bind_look]
  refine .ite (by simpa using hfirst) (fun _ => ?_) fun _ => hs.pure rfl
  exact (dissectOption_carries hc hsub).separated (by decide) hs

/-- A setting begins with its bracket. -/
theorem Front.setting (hc : e.Contexts c c') {l l' : Lexeme} (hfront : e.Front m s s' l l') :
    e.Agrees m (Image (Setting.mapSpans (.shift e.offset))) (setting c s) (setting c' s') := by
  refine hfront.advance ?_
  refine (hfront.past.expect hc (by decide) _).bind ?_
  intro name name' s₁ s₁' hname hs₁
  refine (hs₁.expect hc (by decide) _).bind fun _ hs₂ => ?_
  refine (hs₂.expect hc (by decide) _).bind ?_
  intro value value' s₃ s₃' hvalue hs₃
  refine (hs₃.expect hc (by decide) _).bind fun _ hs₄ => ?_
  refine (hs₄.spanFrom hfront.moved.span_eq).bind ?_
  rintro span _ s₅ s₅' rfl hs₅
  rw [hname.text_eq, hvalue.text_eq]
  refine .ite Iff.rfl (fun _ => (hs₅.report hc rfl hname.span_eq).bind fun _ hs₆ => hs₆.pure rfl)
    fun _ => ?_
  exact hs₅.reportIf hc Iff.rfl rfl hvalue.span_eq fun hs₆ => hs₆.pure rfl

/-- No setting follows where no bracket stands. -/
theorem settings_apply_nil (fuel : Nat) (before : List Setting) (h : s.kindAt 0 ≠ .openBracket) :
    settings fuel before c s = (.ok before, s) := by
  cases fuel with
  | zero => rfl
  | succ fuel =>
      rw [settings, bind_apply_of_ok (check_apply _)]
      simp only [h, decide_false, Bool.false_eq_true, if_false]
      rfl

/-- The settings of an `ENRICH` are carried over, with the second of one name refused in both. -/
theorem States.settings (hc : e.Contexts c c') (hs : e.States n s s') {fuel fuel' : Nat}
    (hfuel : n ≤ fuel) (hfuel' : n ≤ fuel') (before : List Setting) :
    e.Agrees n (Image (List.map (Setting.mapSpans (.shift e.offset)))) (settings fuel before c s)
      (settings fuel' (before.map (Setting.mapSpans (.shift e.offset))) c' s') := by
  have hopening : ¬ AtEnd .openBracket := by decide
  induction hfuel, hfuel' using rounds generalizing s s' before with
  | last fuel fuel' =>
      obtain ⟨hahead, hahead'⟩ := hs.kindAt_ne hopening
      rw [settings_apply_nil fuel before hahead, settings_apply_nil fuel' _ hahead']
      exact ⟨.ok rfl, hs⟩
  | round m fuel fuel' _ _ ih =>
      rw [Parser.settings, Parser.settings]
      refine hs.onCheck hopening ?_ (hs.pure rfl)
      rintro _ l l' hm hfront -
      obtain rfl := Nat.succ.inj hm
      refine Agrees.weaken ((hfront.setting hc).bind ?_)
      rintro next _ s₁ s₁' rfl hs₁
      refine hs₁.reportIf hc ?_ rfl rfl fun hs₂ => ?_
      · -- The names of the settings before are the same.
        simp only [List.any_map]
        rfl
      · have h := ih hs₂ (before ++ [next])
        rwa [List.map_append] at h

/-- The policy of an `ENRICH` is carried over. -/
theorem policy_carries (hc : e.Contexts c c') :
    e.Carries c c' (Image (Policy.mapSpans (.shift e.offset))) policy := by
  intro n s s' hs
  refine (hs.expect hc (by decide) _).bind ?_
  intro token token' s₁ s₁' htoken hs₁
  simp only [htoken.text_eq]
  refine .ite Iff.rfl (fun _ => hs₁.pure ?_) fun _ => ?_
  · rw [htoken.span_eq]
    rfl
  · refine hs₁.reportIf hc Iff.rfl rfl htoken.span_eq fun hs₂ => hs₂.pure ?_
    rw [htoken.span_eq]
    rfl

/-- An added field of `ENRICH` is carried over. -/
theorem enrichField_carries (hc : e.Contexts c c') :
    e.Carries c c' (Image (EnrichField.mapSpans (.shift e.offset))) enrichField := by
  intro n s s' hs
  refine (fieldPattern_carries hc hs).bind ?_
  rintro first _ s₁ s₁' rfl hs₁
  refine (hs₁.eat (by decide)).bind ?_
  rintro assigned _ s₂ s₂' rfl hs₂
  cases assigned with
  | false =>
      refine (hs₂.refuseWildcard hc (fun _ _ => rfl) first).bind fun _ hs₃ => ?_
      exact hs₃.pure rfl
  | true =>
      refine (fieldPattern_carries hc hs₂).bind ?_
      rintro second _ s₃ s₃' rfl hs₃
      refine (hs₃.refuseWildcard hc (fun _ _ => rfl) first).bind fun _ hs₄ => ?_
      refine (hs₄.refuseWildcard hc (fun _ _ => rfl) second).bind fun _ hs₅ => ?_
      refine hs₅.pure ?_
      rw [Image, EnrichField.mapSpans, Span.shift_merge]
      rfl

/-! ### Commands -/

/-- The step carries from states with a lexeme ahead, whatever was taken before, and takes it. -/
def CarriesVerb (e : Embedding) (c c' : Context) (p : Parse Command) : Prop :=
  ∀ ⦃m s s' l l'⦄, e.Front m s s' l l' →
    e.Agrees m (Image (Command.mapSpans (.shift e.offset))) (p c s) (p c' s')

/-- A verb that is taken first is the front of both parses, and behind it their states belong
together. -/
theorem carriesVerb_of_behind {f : Token → Parse Command}
    (h : ∀ {m t t' s s'}, t.Moved e.offset t' → e.States m s s' →
      e.Agrees m (Image (Command.mapSpans (.shift e.offset))) (f t c s) (f t' c' s')) :
    e.CarriesVerb c c' (advance >>= f) :=
  fun _ _ _ _ _ hfront => hfront.advance (h hfront.moved hfront.past)

/-- A command is made of its parts and takes its span from the verb to the last token taken. -/
theorem States.made (hs : e.States n s s') {t t' : Token} (ht : t.Moved e.offset t')
    {make make' : Span → Command}
    (hmake : ∀ span, make' (span.shift e.offset) = (make span).mapSpans (.shift e.offset)) :
    e.Agrees n (Image (Command.mapSpans (.shift e.offset)))
      ((do return make (← Parser.spanFrom t.span)) c s)
      ((do return make' (← Parser.spanFrom t'.span)) c' s') := by
  refine (hs.spanFrom ht.span_eq).bind ?_
  rintro span _ s₁ s₁' rfl hs₁
  exact hs₁.pure (hmake span)

/-- The command `FROM` is carried over. -/
theorem fromCommand_carries (hc : e.Contexts c c') : e.CarriesVerb c c' fromCommand := by
  refine carriesVerb_of_behind fun ht hs => ?_
  refine (indexPatterns_carries hc hs).bind ?_
  rintro sources _ s₁ s₁' rfl hs₁
  refine (metadata_carries hc hs₁).bind ?_
  rintro clause _ s₂ s₂' rfl hs₂
  exact hs₂.made ht fun _ => by rw [Command.mapSpans]

/-- The command `ROW` is carried over. -/
theorem rowCommand_carries (hc : e.Contexts c c') (hsub : e.CarriesAll c c' sub) :
    e.CarriesVerb c c' (rowCommand sub) := by
  refine carriesVerb_of_behind fun ht hs => ?_
  refine (assignments_carries hc hsub hs).bind ?_
  rintro fields _ s₁ s₁' rfl hs₁
  exact hs₁.made ht fun _ => by rw [Command.mapSpans]

/-- The command `SHOW` is carried over. -/
theorem showCommand_carries (hc : e.Contexts c c') : e.CarriesVerb c c' showCommand := by
  refine carriesVerb_of_behind fun ht hs => ?_
  refine (hs.expect hc (by decide) _).bind fun _ hs₁ => ?_
  exact hs₁.made ht fun _ => by rw [Command.mapSpans]

/-- The command `METRICS` is carried over. -/
theorem metricsCommand_carries (hc : e.Contexts c c') (hsub : e.CarriesAll c c' sub) :
    e.CarriesVerb c c' (metricsCommand sub) := by
  refine carriesVerb_of_behind fun ht hs => ?_
  refine (indexPatterns_carries hc hs).bind ?_
  rintro sources _ s₁ s₁' rfl hs₁
  refine (statsParts_carries hc hsub hs₁).bind ?_
  rintro ⟨aggregations, groupings⟩ _ s₂ s₂' rfl hs₂
  exact hs₂.made ht fun _ => by rw [Command.mapSpans]

/-- The command `EVAL` is carried over. -/
theorem evalCommand_carries (hc : e.Contexts c c') (hsub : e.CarriesAll c c' sub) :
    e.CarriesVerb c c' (evalCommand sub) := by
  refine carriesVerb_of_behind fun ht hs => ?_
  refine (assignments_carries hc hsub hs).bind ?_
  rintro fields _ s₁ s₁' rfl hs₁
  exact hs₁.made ht fun _ => by rw [Command.mapSpans]

/-- The command `WHERE` is carried over. -/
theorem whereCommand_carries (hsub : e.CarriesAll c c' sub) :
    e.CarriesVerb c c' (whereCommand sub) := by
  refine carriesVerb_of_behind fun ht hs => ?_
  refine (hsub 0 hs).bind ?_
  rintro condition _ s₁ s₁' rfl hs₁
  exact hs₁.made ht fun _ => by rw [Command.mapSpans]

/-- The command `STATS` is carried over. -/
theorem statsCommand_carries (hc : e.Contexts c c') (hsub : e.CarriesAll c c' sub) :
    e.CarriesVerb c c' (statsCommand sub) := by
  refine carriesVerb_of_behind fun ht hs => ?_
  refine (statsParts_carries hc hsub hs).bind ?_
  rintro ⟨aggregations, groupings⟩ _ s₁ s₁' rfl hs₁
  refine hs₁.reportIf hc (by simp) rfl ht.span_eq fun hs₂ => ?_
  exact hs₂.made ht fun _ => by rw [Command.mapSpans]

/-- The command `INLINESTATS` is carried over. -/
theorem inlineStatsCommand_carries (hc : e.Contexts c c') (hsub : e.CarriesAll c c' sub) :
    e.CarriesVerb c c' (inlineStatsCommand sub) := by
  refine carriesVerb_of_behind fun ht hs => ?_
  refine (statsParts_carries hc hsub hs).bind ?_
  rintro ⟨aggregations, groupings⟩ _ s₁ s₁' rfl hs₁
  refine hs₁.reportIf hc (by simp) rfl ht.span_eq fun hs₂ => ?_
  exact hs₂.made ht fun _ => by rw [Command.mapSpans]

/-- The command `SORT` is carried over. -/
theorem sortCommand_carries (hc : e.Contexts c c') (hsub : e.CarriesAll c c' sub) :
    e.CarriesVerb c c' (sortCommand sub) := by
  refine carriesVerb_of_behind fun ht hs => ?_
  refine ((sortKey_carries hc hsub).separated (by decide) hs).bind ?_
  rintro keys _ s₁ s₁' rfl hs₁
  exact hs₁.made ht fun _ => by rw [Command.mapSpans]

/-- The command `LIMIT` is carried over. -/
theorem limitCommand_carries (hc : e.Contexts c c') : e.CarriesVerb c c' limitCommand := by
  refine carriesVerb_of_behind fun ht hs => ?_
  refine (hs.expect hc (by decide) _).bind ?_
  intro token token' s₁ s₁' htoken hs₁
  rw [integerValue_moved htoken, htoken.text_eq]
  cases integerValue token with
  | some count => exact hs₁.made ht fun _ => by rw [Command.mapSpans]
  | none => exact hs₁.stopAt rfl htoken.span_eq

/-- The command `KEEP` is carried over. -/
theorem keepCommand_carries (hc : e.Contexts c c') : e.CarriesVerb c c' keepCommand := by
  refine carriesVerb_of_behind fun ht hs => ?_
  refine (fieldPatterns_carries hc hs).bind ?_
  rintro fields _ s₁ s₁' rfl hs₁
  exact hs₁.made ht fun _ => by rw [Command.mapSpans]

/-- The stars of a list are refused in both parses or in neither, one by one. -/
theorem States.refuseStars (hc : e.Contexts c c') (hs : e.States n s s')
    (fields : List FieldPattern) :
    e.Agrees n Eq (refuseStars fields c s)
      (refuseStars (fields.map (FieldPattern.mapSpans (.shift e.offset))) c' s') := by
  induction fields generalizing s s' with
  | nil => exact hs.pure rfl
  | cons field fields ih =>
      exact hs.reportIf hc (by rw [FieldPattern.isStar_mapSpans]) rfl rfl fun hs₁ => ih hs₁

/-- The command `DROP` is carried over. -/
theorem dropCommand_carries (hc : e.Contexts c c') : e.CarriesVerb c c' dropCommand := by
  refine carriesVerb_of_behind fun ht hs => ?_
  refine (fieldPatterns_carries hc hs).bind ?_
  rintro fields _ s₁ s₁' rfl hs₁
  refine (hs₁.refuseStars hc fields).bind fun _ hs₂ => ?_
  exact hs₂.made ht fun _ => by rw [Command.mapSpans]

/-- The command `RENAME` is carried over. -/
theorem renameCommand_carries (hc : e.Contexts c c') : e.CarriesVerb c c' renameCommand := by
  refine carriesVerb_of_behind fun ht hs => ?_
  refine ((renameClause_carries hc).separated (by decide) hs).bind ?_
  rintro clauses _ s₁ s₁' rfl hs₁
  exact hs₁.made ht fun _ => by rw [Command.mapSpans]

/-- The command `DISSECT` is carried over. -/
theorem dissectCommand_carries (hc : e.Contexts c c') (hsub : e.CarriesAll c c' sub) :
    e.CarriesVerb c c' (dissectCommand sub) := by
  refine carriesVerb_of_behind fun ht hs => ?_
  refine (primary_carries hc hsub hs).bind ?_
  rintro input _ s₁ s₁' rfl hs₁
  refine (stringLiteral_carries hc _ hs₁).bind ?_
  rintro pattern _ s₂ s₂' rfl hs₂
  refine (dissectOptions_carries hc hsub hs₂).bind ?_
  rintro options _ s₃ s₃' rfl hs₃
  exact hs₃.made ht fun _ => by rw [Command.mapSpans]

/-- The command `GROK` is carried over. -/
theorem grokCommand_carries (hc : e.Contexts c c') (hsub : e.CarriesAll c c' sub) :
    e.CarriesVerb c c' (grokCommand sub) := by
  refine carriesVerb_of_behind fun ht hs => ?_
  refine (primary_carries hc hsub hs).bind ?_
  rintro input _ s₁ s₁' rfl hs₁
  refine (stringLiteral_carries hc _ hs₁).bind ?_
  rintro pattern _ s₂ s₂' rfl hs₂
  exact hs₂.made ht fun _ => by rw [Command.mapSpans]

/-- The command `ENRICH` is carried over. -/
theorem enrichCommand_carries (hc : e.Contexts c c') : e.CarriesVerb c c' enrichCommand := by
  refine carriesVerb_of_behind fun ht hs => ?_
  have hon : e.Carries c c' (Image (Option.map (FieldPattern.mapSpans (.shift e.offset))))
      (some <$> fieldPattern) := by
    intro n s s' hs
    refine (fieldPattern_carries hc hs).bind ?_
    rintro field _ s₁ s₁' rfl hs₁
    exact hs₁.pure rfl
  refine Agrees.bind (R := Image (List.map (Setting.mapSpans (.shift e.offset))))
    (hs.onRemaining fun hs hfuel hfuel' => hs.settings hc hfuel hfuel' []) ?_
  rintro given _ s₁ s₁' rfl hs₁
  refine (policy_carries hc hs₁).bind ?_
  rintro name _ s₂ s₂' rfl hs₂
  refine hs₂.optional hon rfl ?_
  rintro on _ s₃ s₃' rfl hs₃
  refine hs₃.optional ((enrichField_carries hc).separated (by decide)) rfl ?_
  rintro fields _ s₄ s₄' rfl hs₄
  exact hs₄.made ht fun _ => by rw [Command.mapSpans]

/-- The command `MV_EXPAND` is carried over. -/
theorem mvExpandCommand_carries (hc : e.Contexts c c') : e.CarriesVerb c c' mvExpandCommand := by
  refine carriesVerb_of_behind fun ht hs => ?_
  refine (fieldName_carries hc hs).bind ?_
  rintro field _ s₁ s₁' rfl hs₁
  exact hs₁.made ht fun _ => by rw [Command.mapSpans]

/-- The command `MATCH` is carried over. -/
theorem matchCommand_carries (hc : e.Contexts c c') : e.CarriesVerb c c' matchCommand := by
  refine carriesVerb_of_behind fun ht hs => ?_
  refine (stringLiteral_carries hc _ hs).bind ?_
  rintro query _ s₁ s₁' rfl hs₁
  exact hs₁.made ht fun _ => by rw [Command.mapSpans]

/-- The command `LOOKUP` is carried over. -/
theorem lookupCommand_carries (hc : e.Contexts c c') : e.CarriesVerb c c' lookupCommand := by
  refine carriesVerb_of_behind fun {m t t' s s'} ht hs => ?_
  -- What follows the word `JOIN`, or stands in its place.
  have htable : ∀ {join : Bool} {m s₁ s₁'}, e.States m s₁ s₁' →
      e.Agrees m (Image (Command.mapSpans (.shift e.offset)))
        ((do
          let table ← indexPattern
          let _ ← expect (.keyword .on) "ON"
          let matchFields ← fieldPatterns
          return Command.lookup table matchFields join (← spanFrom t.span)) c s₁)
        ((do
          let table ← indexPattern
          let _ ← expect (.keyword .on) "ON"
          let matchFields ← fieldPatterns
          return Command.lookup table matchFields join (← spanFrom t'.span)) c' s₁') := by
    intro join m s₁ s₁' hs₁
    refine (indexPattern_carries hc hs₁).bind ?_
    rintro table _ s₂ s₂' rfl hs₂
    refine (hs₂.expect hc (by decide) _).bind fun _ hs₃ => ?_
    refine (fieldPatterns_carries hc hs₃).bind ?_
    rintro fields _ s₄ s₄' rfl hs₄
    exact hs₄.made ht fun _ => by rw [Command.mapSpans]
  rw [bind_apply_of_ok (current_run c s), bind_apply_of_ok (current_run c' s'), peekSecond,
    bind_look, bind_look]
  rcases hs.front_or_end with ⟨m, l, l', rfl, hfront, -⟩ | ⟨hrest, hrest'⟩
  · have hsecond : (s'.kindAt 1 = .source ∨ s'.kindAt 1 = .quotedString) ↔
        (s.kindAt 1 = .source ∨ s.kindAt 1 = .quotedString) :=
      or_congr (hfront.kindAt_one_iff (by decide)) (hfront.kindAt_one_iff (by decide))
    simp only [(hfront.current c c').1, (hfront.current c c').2, hfront.moved.kind_eq,
      hfront.moved.text_eq, ← Bool.decide_or, hsecond]
    generalize (decide (l.token.kind = .source) && Text.sameWord l.token.text "join" &&
      decide (s.kindAt 1 = .source ∨ s.kindAt 1 = .quotedString)) = join
    cases join with
    | false => exact htable hs
    | true => exact hfront.skip (htable hfront.past)
  · obtain ⟨hend, hend'⟩ := hc.atEnd hrest hrest'
    have hnone : ∀ {t : Token}, AtEnd t.kind → t.kind ≠ .source := by
      rintro t (h | h) <;> rw [h] <;> decide
    simp only [hnone hend, hnone hend', decide_false, Bool.false_and]
    exact htable hs

/-- `EXPLAIN` carries where the pipeline between its brackets does. -/
theorem explainCommand_agrees (hc : e.Contexts c c') {explained : Parse (List Command)}
    {l l' : Lexeme} (hfront : e.Front m s s' l l')
    (hexplained : ∀ {opening s₁ s₁'},
      expect .openBracket "'['" c (s.past [l]) = (.ok opening, s₁) → e.States m s₁ s₁' →
      e.Agrees m (Image (List.map (Command.mapSpans (.shift e.offset)))) (explained c s₁)
        (explained c' s₁')) :
    e.Agrees m (Image (Command.mapSpans (.shift e.offset))) (explainCommand explained c s)
      (explainCommand explained c' s') := by
  refine hfront.advance ((hfront.past.expect hc (by decide) _).bind_of_ok ?_)
  intro opening opening' s₁ s₁' hok hopening hs₁
  refine (hexplained hok hs₁).bind ?_
  rintro commands _ s₂ s₂' rfl hs₂
  have hclose : ∀ {s₃ s₃'}, e.States m s₃ s₃' →
      e.Agrees m (Image (Command.mapSpans (.shift e.offset)))
      ((do
        let _ ← expect .closeBracket "']'"
        return Command.explain commands
          ((Command.spanOf? commands).getD (.point opening.span.stop))
          (← spanFrom l.token.span)) c s₃)
      ((do
        let _ ← expect .closeBracket "']'"
        return Command.explain (commands.map (Command.mapSpans (.shift e.offset)))
          ((Command.spanOf? (commands.map (Command.mapSpans (.shift e.offset)))).getD
            (.point opening'.span.stop)) (← spanFrom l'.token.span)) c' s₃') := by
    intro s₃ s₃' hs₃
    refine (hs₃.expect hc (by decide) _).bind fun _ hs₄ => hs₄.made hfront.moved fun span => ?_
    rw [Command.mapSpans, Command.mapSpansAll_eq_map,
      Command.spanOf?_map_mapSpans _ (Span.shift_merge _), hopening.span_eq, Span.shift_stop,
      ← Span.shift_point, Option.getD_map]
  -- Empty brackets are told by where the last token ended, and the bracket moved as that did.
  have hempty : ((commands.map (Command.mapSpans (.shift e.offset))).isEmpty &&
      decide (s₂'.prevEnd = opening'.span.stop)) =
      (commands.isEmpty && decide (s₂.prevEnd = opening.span.stop)) := by
    rw [hs₂.prevEnd, hopening.span_eq, Span.shift_stop, List.isEmpty_map]
    simp
  show e.Agrees m _ ((Parse.state >>= fun _ => _) c s₂) ((Parse.state >>= fun _ => _) c' s₂')
  have hstate : ∀ (c : Context) (s : State), Parse.state c s = (.ok s, s) := fun _ _ => rfl
  rw [bind_apply_of_ok (hstate c s₂), bind_apply_of_ok (hstate c' s₂')]
  refine .ite (by rw [hempty]) (fun _ => ?_) fun _ => hclose hs₂
  refine (hs₂.expected hc _).bind fun hd hs₃ => ?_
  exact (hs₃.record hc hd).bind fun _ hs₄ => hclose hs₄

/-- A command carries if `EXPLAIN` does where it is ahead. A command that stops in front of its verb
leaves the states as they are. -/
theorem command_agrees (hc : e.Contexts c c') (hsub : e.CarriesAll c c' sub)
    {explained : Parse (List Command)} {l l' : Lexeme} (hfront : e.Front m s s' l l')
    (hexplain : l.token.kind = .command .explain →
      e.Agrees m (Image (Command.mapSpans (.shift e.offset))) (explainCommand explained c s)
        (explainCommand explained c' s')) :
    e.Agrees m (Image (Command.mapSpans (.shift e.offset))) (command sub explained c s)
        (command sub explained c' s') ∨
      ∃ d d', command sub explained c s = (.error d, s) ∧
        command sub explained c' s' = (.error d', s') ∧ e.Diagnoses d d' := by
  rw [command, bind_apply_of_ok (current_run c s), bind_apply_of_ok (current_run c' s'),
    (hfront.current c c').1, (hfront.current c c').2, hfront.moved.kind_eq]
  generalize hkind : l.token.kind = kind at hexplain
  cases kind with
  | command verb =>
      left
      cases verb with
      | «from» => exact fromCommand_carries hc hfront
      | row => exact rowCommand_carries hc hsub hfront
      | «show» => exact showCommand_carries hc hfront
      | explain => exact hexplain rfl
      | metrics => exact metricsCommand_carries hc hsub hfront
      | eval => exact evalCommand_carries hc hsub hfront
      | «where» => exact whereCommand_carries hsub hfront
      | stats => exact statsCommand_carries hc hsub hfront
      | inlineStats => exact inlineStatsCommand_carries hc hsub hfront
      | sort => exact sortCommand_carries hc hsub hfront
      | limit => exact limitCommand_carries hc hfront
      | keep => exact keepCommand_carries hc hfront
      | drop => exact dropCommand_carries hc hfront
      | rename => exact renameCommand_carries hc hfront
      | dissect => exact dissectCommand_carries hc hsub hfront
      | grok => exact grokCommand_carries hc hsub hfront
      | enrich => exact enrichCommand_carries hc hfront
      | mvExpand => exact mvExpandCommand_carries hc hfront
      | lookup => exact lookupCommand_carries hc hfront
      | «match» => exact matchCommand_carries hc hfront
  -- Neither run reads anything here: both report the lexeme, each where it stands.
  | unknownCommand =>
      exact .inr ⟨_, _, rfl, rfl, fun _ _ => ⟨rfl, congrArg Span.start hfront.moved.span_eq⟩⟩
  | _ =>
      refine .inr ⟨_, _, rfl, rfl, fun _ _ => ⟨rfl, ?_⟩⟩
      show (s'.current c').span.start = (s.current c).span.start + e.offset
      rw [(hfront.current c c').1, (hfront.current c c').2, hfront.moved.span_eq, Span.shift_start]

end PipeQuery.Parser.Embedding
