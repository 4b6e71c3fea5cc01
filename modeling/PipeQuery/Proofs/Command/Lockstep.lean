import PipeQuery.Proofs.Expr.Lockstep

/-!
# `PipeQuery.Proofs.Command.Lockstep`: readers of commands in lockstep

If two readers of expressions and two readers of the pipeline between the brackets of an `EXPLAIN`
are in lockstep, then so are the readers of commands and of pipelines made of them.

`EXPLAIN` compares places to see whether its brackets are empty, which is no step that a comparison
has to know. What stands between the brackets is therefore one step here, `enclosed`.
-/

set_option autoImplicit false

namespace PipeQuery.Parser

/-- Records that a command was expected, if brackets have nothing at all between them. -/
def reportHollow (opening : Token) (commands : List Command) : Parse Unit := do
  let s ← Parse.state
  if commands.isEmpty && s.prevEnd = opening.span.stop then
    record (← expected "a command")

/-- The opening bracket of an `EXPLAIN` and the commands behind it. -/
def enclosed (explained : Parse (List Command)) : Parse (Token × List Command) := do
  let opening ← expect .openBracket "'['"
  let commands ← explained
  reportHollow opening commands
  return (opening, commands)

/-- An `EXPLAIN` reads its opening bracket and the commands behind it as one step. -/
theorem explainCommand_eq (explained : Parse (List Command)) :
    explainCommand explained = (do
      let verb ← advance
      let (opening, commands) ← enclosed explained
      let _ ← expect .closeBracket "']'"
      let inner := (Command.spanOf? commands).getD (.point opening.span.stop)
      return .explain commands inner (← spanFrom verb.span)) := by
  unfold explainCommand
  congr 1
  funext verb c s
  simp only [enclosed, reportHollow, Parse.bind_apply]
  split
  · -- Only between the brackets do the two differ in form: both record the diagnostic of an empty
    -- query.
    next opening s₁ hexpect =>
      split
      · next commands s₂ hcommands =>
          have hstate : Parse.state c s₂ = (.ok s₂, s₂) := rfl
          simp only [hstate]
          split
          · obtain ⟨d, s₃, hexpected⟩ := total_expected "a command" c s₂
            obtain ⟨u, s₄, hrecord⟩ := total_record d c s₃
            simp only [Parse.bind_apply, hexpected, hrecord]
            rfl
          · rfl
      · rfl
  · rfl

/-- A setting behind its opening bracket. -/
def settingBehind (opening : Token) : Parse Setting := do
  let name ← expect .setting "a setting name"
  let _ ← expect .colon "':'"
  let value ← expect .setting "a setting value"
  let _ ← expect .closeBracket "']'"
  let span ← spanFrom opening.span
  if !Text.sameWord name.text "ccq.mode" then
    report (.unsupportedSetting name.text) name.span
  else if (EnrichMode.ofName? value.text).isNone then
    report (.settingValue value.text) value.span
  return ⟨name.text, value.text, span⟩

/-- A setting is its opening bracket and what is read behind that. -/
theorem setting_eq : setting = (do settingBehind (← advance)) := rfl

namespace Lockstep

open Diagnostic (Cause)

variable (L : Lockstep)

/-! ### Parts of commands -/

section

variable {L} {sub sub' : Nat → Parse Expr} (hsub : L.RelatesAll sub sub')

include hsub

/-- Assignments are in lockstep if the readers of their values are. -/
theorem relates_assignment :
    L.relates (Assignment.mapSpans L.place) (assignment sub) (assignment sub') := by
  have htarget : L.relates (Option.map (FieldName.mapSpans L.place))
      (attempt do
        let name ← fieldName
        return if ← eat .assign then some name else none)
      (attempt do
        let name ← fieldName
        return if ← eat .assign then some name else none) := by
    refine L.relates_attempt (L.relates_bind L.relates_fieldName fun name =>
      L.relates_bind (L.relates_eat _) fun given => relates_of_eq ?_)
    cases given <;> rfl
  refine L.relates_bind htarget fun target => L.relates_bind (hsub 0) fun value => ?_
  cases target with
  | none =>
      refine relates_of_eq ?_
      rw [Expr.span_mapSpans]
      rfl
  | some name =>
      refine relates_of_eq ?_
      rw [Assignment.mapSpans, L.place_merge, Expr.span_mapSpans]
      rfl

/-- Lists of assignments are in lockstep if the readers of their values are. -/
theorem relates_assignments :
    L.relates (List.map (Assignment.mapSpans L.place)) (assignments sub) (assignments sub') :=
  relates_separated (relates_assignment hsub)

/-- Both parts of a `STATS` are in lockstep if the readers of their values are. -/
theorem relates_statsParts :
    L.relates (Prod.map (List.map (Assignment.mapSpans L.place))
      (List.map (Assignment.mapSpans L.place))) (statsParts sub) (statsParts sub') := by
  refine L.relates_bind L.relates_peek fun first => ?_
  -- With aggregations or without, `BY` is read the same.
  have hbehind : ∀ aggregations : List Assignment,
      L.relates (Prod.map (List.map (Assignment.mapSpans L.place))
        (List.map (Assignment.mapSpans L.place)))
        (do
          let groupings ← if ← eat (.keyword .«by») then assignments sub else pure []
          return (aggregations, groupings))
        (do
          let groupings ← if ← eat (.keyword .«by») then assignments sub' else pure []
          return (aggregations.map (Assignment.mapSpans L.place), groupings)) := by
    intro aggregations
    refine L.relates_bind (L.relates_eat _) fun grouped => ?_
    cases grouped with
    | true => exact L.relates_bind (relates_assignments hsub) fun _ => L.relates_pure _
    | false => exact L.relates_pure (aggregations, [])
  simp only [id]
  split
  · exact hbehind []
  · exact L.relates_bind (relates_assignments hsub) hbehind

/-- Sort keys are in lockstep if the readers of their expressions are. -/
theorem relates_sortKey : L.relates (SortKey.mapSpans L.place) (sortKey sub) (sortKey sub') := by
  have hdirection : L.relates id direction direction :=
    L.relates_bind (L.relates_eat _) fun _ => relates_ite (L.relates_pure _)
      (L.relates_bind (L.relates_eat _) fun _ => relates_ite (L.relates_pure _) (L.relates_pure _))
  have hnulls : L.relates id nullsOrder nullsOrder :=
    L.relates_bind (L.relates_eat _) fun _ => relates_ite
      (L.relates_bind (L.relates_eat _) fun _ => relates_ite (L.relates_pure _)
        (L.relates_bind (L.relates_eat _) fun _ =>
          relates_ite (L.relates_pure _) (L.relates_unexpected _)))
      (L.relates_pure _)
  refine L.relates_bind (hsub 0) fun e => L.relates_bind hdirection fun dir =>
    L.relates_bind hnulls fun nulls => ?_
  rw [Expr.span_mapSpans]
  exact L.relates_bind (L.relates_spanFrom _) fun _ => L.relates_pure _

/-- Options of a `DISSECT` are in lockstep if the readers of their values are. -/
theorem relates_dissectOption :
    L.relates (DissectOption.mapSpans L.place) (dissectOption sub) (dissectOption sub') := by
  refine L.relates_bind (L.relates_identifier _) fun name =>
    L.relates_bind (L.relates_expect _ _) fun _ =>
      L.relates_bind (relates_constant hsub) fun value => ?_
  simp only [Expr.isString_mapSpans, Expr.render_mapSpans, Expr.span_mapSpans]
  have hmade : L.relates (DissectOption.mapSpans L.place)
      (pure ⟨name, value, name.span.merge value.span⟩)
      (pure ⟨name.mapSpans L.place, value.mapSpans L.place,
        (name.mapSpans L.place).span.merge (L.place value.span)⟩) := by
    refine relates_of_eq ?_
    rw [DissectOption.mapSpans, L.place_merge]
    rfl
  exact relates_ite (L.relates_bind (L.relates_report _ _) fun _ => hmade)
    (relates_ite (L.relates_bind (L.relates_report _ _) fun _ => hmade) hmade)

/-- Lists of options are in lockstep if the readers of their values are. -/
theorem relates_dissectOptions :
    L.relates (List.map (DissectOption.mapSpans L.place)) (dissectOptions sub)
      (dissectOptions sub') :=
  L.relates_bind L.relates_peek fun _ =>
    relates_ite (relates_separated (relates_dissectOption hsub)) (L.relates_pure _)

end

/-- Metadata clauses are in lockstep, since they hold names only. -/
theorem relates_metadata :
    L.relates (Option.map (Metadata.mapSpans L.place)) metadata metadata := by
  refine L.relates_bind L.relates_current fun first =>
    L.relates_bind L.relates_peekSecond fun second => ?_
  simp only [token_kind, token_span, id]
  refine relates_ite ?_ (L.relates_pure _)
  refine L.relates_bind L.relates_advance fun _ => ?_
  have hfields : ∀ bracketed : Bool, L.relates (Option.map (Metadata.mapSpans L.place))
      (do
        let fields ← separated .comma source
        if bracketed then
          let _ ← expect .closeBracket "']'"
        return some ⟨fields, bracketed, ← spanFrom first.span⟩)
      (do
        let fields ← separated .comma source
        if bracketed then
          let _ ← expect .closeBracket "']'"
        return some ⟨fields, bracketed, ← spanFrom (L.place first.span)⟩) := by
    intro bracketed
    refine L.relates_bind (relates_separated L.relates_source) fun fields => ?_
    cases bracketed with
    | true => exact L.relates_bind (L.relates_expect _ _) fun _ =>
        L.relates_bind (L.relates_spanFrom _) fun _ => L.relates_pure _
    | false => exact L.relates_bind (L.relates_spanFrom _) fun _ => L.relates_pure _
  exact relates_ite (L.relates_bind L.relates_advance fun _ => hfields _) (hfields _)

/-- A name with a wildcard is reported on both sides or on neither. -/
theorem relates_refuse (cause : String → Cause) (name : FieldPattern) :
    L.relates id (if name.hasWildcard then report (cause name.render) name.span else pure ())
      (if (name.mapSpans L.place).hasWildcard then
        report (cause (name.mapSpans L.place).render) (name.mapSpans L.place).span
      else pure ()) := by
  simp only [FieldPattern.hasWildcard_mapSpans, FieldPattern.render_mapSpans]
  exact relates_ite (L.relates_report _ _) (L.relates_pure _)

/-- Clauses of a `RENAME` are in lockstep, and a wildcard is refused in both or in neither. -/
theorem relates_renameClause :
    L.relates (RenameClause.mapSpans L.place) renameClause renameClause := by
  -- What follows the two names, in whichever order they were written.
  have hmade : ∀ (oldName newName : FieldPattern) (form : RenameForm),
      L.relates (RenameClause.mapSpans L.place)
        (do
          let refuse (name : FieldPattern) : Parse Unit :=
            if name.hasWildcard then report (.renameWildcard name.render) name.span else pure ()
          refuse oldName
          refuse newName
          return ⟨oldName, newName, form, oldName.span.merge newName.span⟩)
        (do
          let refuse (name : FieldPattern) : Parse Unit :=
            if name.hasWildcard then report (.renameWildcard name.render) name.span else pure ()
          refuse (oldName.mapSpans L.place)
          refuse (newName.mapSpans L.place)
          return ⟨oldName.mapSpans L.place, newName.mapSpans L.place, form,
            (oldName.mapSpans L.place).span.merge (newName.mapSpans L.place).span⟩) := by
    intro oldName newName form
    refine L.relates_bind (L.relates_refuse _ oldName) fun _ =>
      L.relates_bind (L.relates_refuse _ newName) fun _ => relates_of_eq ?_
    rw [RenameClause.mapSpans, L.place_merge]
    rfl
  refine L.relates_bind L.relates_fieldPattern fun first =>
    L.relates_bind (L.relates_eat _) fun as =>
      relates_ite (L.relates_bind (L.relates_pure (f := id) false) fun assign => ?_)
        (L.relates_bind (L.relates_eat _) fun assign => ?_)
  all_goals
    refine relates_ite (L.relates_unexpected _) (L.relates_bind L.relates_fieldPattern
      fun second => ?_)
    cases as with
    | true => exact hmade first second .as
    | false => exact hmade second first .assign

/-- What is behind the bracket of a setting is in lockstep, whichever token the bracket is. -/
theorem relates_settingBehind (opening : Token) :
    L.relates (Setting.mapSpans L.place) (settingBehind opening)
      (settingBehind (L.token opening)) := by
  refine L.relates_bind (L.relates_expect _ _) fun name =>
    L.relates_bind (L.relates_expect _ _) fun _ =>
      L.relates_bind (L.relates_expect _ _) fun value =>
        L.relates_bind (L.relates_expect _ _) fun _ => ?_
  simp only [token_text, token_span]
  refine L.relates_bind (L.relates_spanFrom _) fun span => ?_
  exact relates_ite (L.relates_bind (L.relates_report _ _) fun _ => L.relates_pure _)
    (relates_ite (L.relates_bind (L.relates_report _ _) fun _ => L.relates_pure _)
      (L.relates_pure _))

/-- Settings are in lockstep. -/
theorem relates_setting : L.relates (Setting.mapSpans L.place) setting setting := by
  rw [setting_eq]
  exact L.relates_bind L.relates_advance fun opening => L.relates_settingBehind opening

/-- Lists of settings are in lockstep, and one that is repeated is refused in both. -/
theorem relates_settings (fuel : Nat) (before : List Setting) :
    L.relates (List.map (Setting.mapSpans L.place)) (settings fuel before)
      (settings fuel (before.map (Setting.mapSpans L.place))) := by
  induction fuel generalizing before with
  | zero => exact L.relates_pure _
  | succ fuel ih =>
      refine L.relates_bind (L.relates_check _) fun _ => relates_ite ?_ (L.relates_pure _)
      refine L.relates_bind L.relates_setting fun next => ?_
      have hmore := ih (before ++ [next])
      rw [List.map_append, List.map_singleton] at hmore
      simp only [List.any_map, Function.comp_def, Setting.mapSpans]
      exact relates_ite (L.relates_bind (L.relates_report _ _) fun _ => hmore) hmore

/-- Policies are in lockstep: mode and name depend on the text of the token alone. -/
theorem relates_policy : L.relates (Policy.mapSpans L.place) policy policy := by
  refine L.relates_bind (L.relates_expect _ _) fun t => ?_
  simp only [token_text, token_span]
  refine relates_ite (L.relates_pure _) (relates_ite ?_ (L.relates_pure _))
  exact L.relates_bind (L.relates_report _ _) fun _ => L.relates_pure _

/-- Fields of an `ENRICH` are in lockstep, and a wildcard is refused in both or in neither. -/
theorem relates_enrichField :
    L.relates (EnrichField.mapSpans L.place) enrichField enrichField := by
  refine L.relates_bind L.relates_fieldPattern fun first =>
    L.relates_bind (L.relates_eat _) fun assigned => relates_ite ?_ ?_
  · refine L.relates_bind L.relates_fieldPattern fun second =>
      L.relates_bind (L.relates_refuse _ first) fun _ =>
        L.relates_bind (L.relates_refuse _ second) fun _ => relates_of_eq ?_
    rw [EnrichField.mapSpans, L.place_merge]
    rfl
  · exact L.relates_bind (L.relates_refuse _ first) fun _ => L.relates_pure _

/-! ### Commands -/

/-- The end of a command that is made with the span it stretches over. -/
theorem relates_made {make make' : Span → Command}
    (hmake : ∀ span, make' (L.place span) = (make span).mapSpans L.place) (verb : Token) :
    L.relates (Command.mapSpans L.place) (do return make (← spanFrom verb.span))
      (do return make' (← spanFrom (L.token verb).span)) := by
  rw [L.token_span]
  exact L.relates_bind (L.relates_spanFrom _) fun span => relates_of_eq (hmake span)

/-- The readers of `FROM` are in lockstep. -/
theorem relates_fromCommand :
    L.relates (Command.mapSpans L.place) fromCommand fromCommand :=
  L.relates_bind L.relates_advance fun verb => L.relates_bind L.relates_indexPatterns fun _ =>
    L.relates_bind L.relates_metadata fun _ => L.relates_made (fun _ => rfl) verb

/-- The readers of `SHOW` are in lockstep. -/
theorem relates_showCommand : L.relates (Command.mapSpans L.place) showCommand showCommand :=
  L.relates_bind L.relates_advance fun verb => L.relates_bind (L.relates_expect _ _) fun _ =>
    L.relates_made (fun _ => rfl) verb

/-- The readers of `LIMIT` are in lockstep: whether the count fits depends on its digits alone. -/
theorem relates_limitCommand :
    L.relates (Command.mapSpans L.place) limitCommand limitCommand := by
  refine L.relates_bind L.relates_advance fun verb =>
    L.relates_bind (L.relates_expect _ _) fun t => ?_
  rw [integerValue_token, L.token_text, L.token_span t]
  cases integerValue t with
  | some count => exact L.relates_made (fun _ => rfl) verb
  | none => exact L.relates_stopAt _ _

/-- The readers of `KEEP` are in lockstep. -/
theorem relates_keepCommand : L.relates (Command.mapSpans L.place) keepCommand keepCommand :=
  L.relates_bind L.relates_advance fun verb => L.relates_bind L.relates_fieldPatterns fun _ =>
    L.relates_made (fun _ => rfl) verb

/-- A star is refused in both lists or in neither, as spans do not tell what a star is. -/
theorem relates_refuseStars (fields : List FieldPattern) :
    L.relates id (refuseStars fields)
      (refuseStars (fields.map (FieldPattern.mapSpans L.place))) := by
  induction fields with
  | nil => exact L.relates_pure _
  | cons field fields ih =>
      rw [List.map_cons, refuseStars, refuseStars, FieldPattern.isStar_mapSpans]
      exact relates_ite (L.relates_bind (L.relates_report _ _) fun _ => ih) ih

/-- The readers of `DROP` are in lockstep. -/
theorem relates_dropCommand : L.relates (Command.mapSpans L.place) dropCommand dropCommand :=
  L.relates_bind L.relates_advance fun verb => L.relates_bind L.relates_fieldPatterns fun fields =>
    L.relates_bind (L.relates_refuseStars fields) fun _ => L.relates_made (fun _ => rfl) verb

/-- The readers of `RENAME` are in lockstep. -/
theorem relates_renameCommand :
    L.relates (Command.mapSpans L.place) renameCommand renameCommand :=
  L.relates_bind L.relates_advance fun verb =>
    L.relates_bind (relates_separated L.relates_renameClause) fun _ =>
      L.relates_made (fun _ => rfl) verb

/-- The readers of `ENRICH` are in lockstep. -/
theorem relates_enrichCommand :
    L.relates (Command.mapSpans L.place) enrichCommand enrichCommand := by
  refine L.relates_bind L.relates_advance fun verb => L.relates_bind L.relates_remaining fun fuel =>
    L.relates_bind (L.relates_settings fuel []) fun given =>
      L.relates_bind L.relates_policy fun name => ?_
  have hon : L.relates (Option.map (FieldPattern.mapSpans L.place)) (some <$> fieldPattern)
      (some <$> fieldPattern) :=
    L.relates_bind L.relates_fieldPattern fun _ => L.relates_pure _
  -- The two clauses behind the policy may each be missing.
  have hwith : ∀ on : Option FieldPattern, L.relates (Command.mapSpans L.place)
      (do
        let fields ← if ← eat (.keyword .«with») then separated .comma enrichField else pure []
        return .enrich given name on fields (← spanFrom verb.span))
      (do
        let fields ← if ← eat (.keyword .«with») then separated .comma enrichField else pure []
        return .enrich (given.map (Setting.mapSpans L.place)) (name.mapSpans L.place)
          (on.map (FieldPattern.mapSpans L.place)) fields (← spanFrom (L.token verb).span)) := by
    intro on
    refine L.relates_bind (L.relates_eat _) fun more => ?_
    cases more with
    | true => exact L.relates_bind (relates_separated L.relates_enrichField) fun _ =>
        L.relates_made (fun _ => rfl) verb
    | false => exact L.relates_made (fun _ => rfl) verb
  refine L.relates_bind (L.relates_eat _) fun given => ?_
  cases given with
  | true => exact L.relates_bind hon hwith
  | false => exact hwith none

/-- The readers of `MV_EXPAND` are in lockstep. -/
theorem relates_mvExpandCommand :
    L.relates (Command.mapSpans L.place) mvExpandCommand mvExpandCommand :=
  L.relates_bind L.relates_advance fun verb => L.relates_bind L.relates_fieldName fun _ =>
    L.relates_made (fun _ => rfl) verb

/-- The readers of `LOOKUP` are in lockstep, with `JOIN` in front of the table or without. -/
theorem relates_lookupCommand :
    L.relates (Command.mapSpans L.place) lookupCommand lookupCommand := by
  refine L.relates_bind L.relates_advance fun verb => L.relates_bind L.relates_current fun first =>
    L.relates_bind L.relates_peekSecond fun second => ?_
  simp only [token_kind, token_text, id]
  have htable : ∀ join : Bool, L.relates (Command.mapSpans L.place)
      (do
        let table ← indexPattern
        let _ ← expect (.keyword .on) "ON"
        let matchFields ← fieldPatterns
        return .lookup table matchFields join (← spanFrom verb.span))
      (do
        let table ← indexPattern
        let _ ← expect (.keyword .on) "ON"
        let matchFields ← fieldPatterns
        return .lookup table matchFields join (← spanFrom (L.token verb).span)) :=
    fun join => L.relates_bind L.relates_indexPattern fun _ =>
      L.relates_bind (L.relates_expect _ _) fun _ => L.relates_bind L.relates_fieldPatterns fun _ =>
        L.relates_made (fun _ => rfl) verb
  exact relates_ite (L.relates_bind L.relates_advance fun _ => htable _) (htable _)

/-- The readers of `MATCH` are in lockstep. -/
theorem relates_matchCommand : L.relates (Command.mapSpans L.place) matchCommand matchCommand :=
  L.relates_bind L.relates_advance fun verb => L.relates_bind (L.relates_stringLiteral _) fun _ =>
    L.relates_made (fun _ => rfl) verb

section

variable {L} {sub sub' : Nat → Parse Expr} (hsub : L.RelatesAll sub sub')

include hsub

/-- The readers of `ROW` are in lockstep if those of expressions are. -/
theorem relates_rowCommand :
    L.relates (Command.mapSpans L.place) (rowCommand sub) (rowCommand sub') :=
  L.relates_bind L.relates_advance fun verb => L.relates_bind (relates_assignments hsub) fun _ =>
    L.relates_made (fun _ => rfl) verb

/-- The readers of `EVAL` are in lockstep if those of expressions are. -/
theorem relates_evalCommand :
    L.relates (Command.mapSpans L.place) (evalCommand sub) (evalCommand sub') :=
  L.relates_bind L.relates_advance fun verb => L.relates_bind (relates_assignments hsub) fun _ =>
    L.relates_made (fun _ => rfl) verb

/-- The readers of `METRICS` are in lockstep if those of expressions are. -/
theorem relates_metricsCommand :
    L.relates (Command.mapSpans L.place) (metricsCommand sub) (metricsCommand sub') :=
  L.relates_bind L.relates_advance fun verb => L.relates_bind L.relates_indexPatterns fun _ =>
    L.relates_bind (relates_statsParts hsub) fun _ => L.relates_made (fun _ => rfl) verb

/-- The readers of `WHERE` are in lockstep if those of expressions are. -/
theorem relates_whereCommand :
    L.relates (Command.mapSpans L.place) (whereCommand sub) (whereCommand sub') :=
  L.relates_bind L.relates_advance fun verb => L.relates_bind (hsub 0) fun _ =>
    L.relates_made (fun _ => rfl) verb

/-- The readers of `STATS` are in lockstep if those of expressions are. -/
theorem relates_statsCommand :
    L.relates (Command.mapSpans L.place) (statsCommand sub) (statsCommand sub') := by
  refine L.relates_bind L.relates_advance fun verb =>
    L.relates_bind (relates_statsParts hsub) fun ⟨aggregations, groupings⟩ => ?_
  simp only [Prod.map, List.isEmpty_map]
  have hmade : L.relates (Command.mapSpans L.place)
      (do return .stats aggregations groupings (← spanFrom verb.span))
      (do
        return .stats (aggregations.map (Assignment.mapSpans L.place))
          (groupings.map (Assignment.mapSpans L.place)) (← spanFrom (L.token verb).span)) :=
    L.relates_made (fun _ => rfl) verb
  refine relates_ite (L.relates_bind (f := id) ?_ fun _ => hmade) hmade
  rw [L.token_span]
  exact L.relates_report _ _

/-- The readers of `INLINESTATS` are in lockstep if those of expressions are. -/
theorem relates_inlineStatsCommand :
    L.relates (Command.mapSpans L.place) (inlineStatsCommand sub) (inlineStatsCommand sub') := by
  refine L.relates_bind L.relates_advance fun verb =>
    L.relates_bind (relates_statsParts hsub) fun ⟨aggregations, groupings⟩ => ?_
  simp only [Prod.map, List.isEmpty_map]
  have hmade : L.relates (Command.mapSpans L.place)
      (do return .inlineStats aggregations groupings (← spanFrom verb.span))
      (do
        return .inlineStats (aggregations.map (Assignment.mapSpans L.place))
          (groupings.map (Assignment.mapSpans L.place)) (← spanFrom (L.token verb).span)) :=
    L.relates_made (fun _ => rfl) verb
  refine relates_ite (L.relates_bind (f := id) ?_ fun _ => hmade) hmade
  rw [L.token_span]
  exact L.relates_report _ _

/-- The readers of `SORT` are in lockstep if those of expressions are. -/
theorem relates_sortCommand :
    L.relates (Command.mapSpans L.place) (sortCommand sub) (sortCommand sub') :=
  L.relates_bind L.relates_advance fun verb =>
    L.relates_bind (relates_separated (relates_sortKey hsub)) fun _ =>
      L.relates_made (fun _ => rfl) verb

/-- The readers of `DISSECT` are in lockstep if those of expressions are. -/
theorem relates_dissectCommand :
    L.relates (Command.mapSpans L.place) (dissectCommand sub) (dissectCommand sub') :=
  L.relates_bind L.relates_advance fun verb => L.relates_bind (relates_primary hsub) fun _ =>
    L.relates_bind (L.relates_stringLiteral _) fun _ =>
      L.relates_bind (relates_dissectOptions hsub) fun _ => L.relates_made (fun _ => rfl) verb

/-- The readers of `GROK` are in lockstep if those of expressions are. -/
theorem relates_grokCommand :
    L.relates (Command.mapSpans L.place) (grokCommand sub) (grokCommand sub') :=
  L.relates_bind L.relates_advance fun verb => L.relates_bind (relates_primary hsub) fun _ =>
    L.relates_bind (L.relates_stringLiteral _) fun _ => L.relates_made (fun _ => rfl) verb

end

/-- What is between the brackets of an `EXPLAIN` is in lockstep, the check for empty brackets
included. -/
def RelatesEnclosed (explained explained' : Parse (List Command)) : Prop :=
  L.relates (Prod.map L.token (List.map (Command.mapSpans L.place))) (enclosed explained)
    (enclosed explained')

section

variable {L} {sub sub' : Nat → Parse Expr} {explained explained' : Parse (List Command)}
  {read read' : Parse Command}

/-- A comparison that knows of the check for empty brackets asks nothing else. -/
theorem relates_enclosed
    (hhollow : ∀ opening commands, L.relates id (reportHollow opening commands)
      (reportHollow (L.token opening) (commands.map (Command.mapSpans L.place))))
    (hexplained : L.relates (List.map (Command.mapSpans L.place)) explained explained') :
    L.RelatesEnclosed explained explained' :=
  L.relates_bind (L.relates_expect _ _) fun opening => L.relates_bind hexplained fun commands =>
    L.relates_bind (hhollow opening commands) fun _ => L.relates_pure _

/-- The readers of `EXPLAIN` are in lockstep if those between its brackets are. -/
theorem relates_explainCommand (hexplained : L.RelatesEnclosed explained explained') :
    L.relates (Command.mapSpans L.place) (explainCommand explained)
      (explainCommand explained') := by
  rw [explainCommand_eq, explainCommand_eq]
  refine L.relates_bind L.relates_advance fun verb =>
    L.relates_bind hexplained fun ⟨opening, commands⟩ =>
      L.relates_bind (L.relates_expect _ _) fun _ => L.relates_made (fun span => ?_) verb
  rw [Command.mapSpans, Command.mapSpansAll_eq_map, Command.spanOf?_map_mapSpans _ L.place_merge,
    L.token_span]
  cases Command.spanOf? commands with
  | none => rw [Option.map_none, Option.getD_none, Option.getD_none, L.place_point]
  | some inner => rfl

/-- The readers of commands are in lockstep: the kind ahead is the same, and so is the verb. -/
theorem relates_command (hsub : L.RelatesAll sub sub')
    (hexplained : L.RelatesEnclosed explained explained') :
    L.relates (Command.mapSpans L.place) (command sub explained) (command sub' explained') := by
  refine L.relates_bind L.relates_current fun t => ?_
  -- Both runs look at the same kind, so they go into the same reader.
  simp only [token_kind, token_text]
  cases t.kind with
  | command verb =>
      cases verb with
      | «from» => exact L.relates_fromCommand
      | row => exact relates_rowCommand hsub
      | «show» => exact L.relates_showCommand
      | explain => exact relates_explainCommand hexplained
      | metrics => exact relates_metricsCommand hsub
      | eval => exact relates_evalCommand hsub
      | «where» => exact relates_whereCommand hsub
      | stats => exact relates_statsCommand hsub
      | inlineStats => exact relates_inlineStatsCommand hsub
      | sort => exact relates_sortCommand hsub
      | limit => exact L.relates_limitCommand
      | keep => exact L.relates_keepCommand
      | drop => exact L.relates_dropCommand
      | rename => exact L.relates_renameCommand
      | dissect => exact relates_dissectCommand hsub
      | grok => exact relates_grokCommand hsub
      | enrich => exact L.relates_enrichCommand
      | mvExpand => exact L.relates_mvExpandCommand
      | lookup => exact L.relates_lookupCommand
      | «match» => exact L.relates_matchCommand
  | unknownCommand => exact L.relates_stopOn _ _
  | _ => exact L.relates_unexpected _

/-! ### Pipelines -/

variable (L) in
/-- Both pipelines are at their end, or neither is. -/
theorem relates_atPipelineEnd (inBrackets : Bool) :
    L.relates id (atPipelineEnd inBrackets) (atPipelineEnd inBrackets) :=
  L.relates_bind L.relates_peek fun _ => L.relates_pure _

variable (L) in
/-- A pipe behind a stage is taken in both or in neither. -/
theorem relates_stagePipe (inBrackets : Bool) (made : Option Command) :
    L.relates (Option.map (Command.mapSpans L.place)) (stagePipe inBrackets made)
      (stagePipe inBrackets (made.map (Command.mapSpans L.place))) :=
  L.relates_bind (L.relates_eat _) fun _ => relates_ite
    (L.relates_bind (L.relates_atPipelineEnd inBrackets) fun _ => relates_ite
      (L.relates_bind (L.relates_expected _) fun d =>
        L.relates_bind (L.relates_record d) fun _ => L.relates_pure _)
      (L.relates_pure _))
    (L.relates_pure _)

variable (L) in
/-- The rest of a stage is passed over in both or in neither. -/
theorem relates_stageBehind (inBrackets : Bool) (made : Option Command) :
    L.relates (Option.map (Command.mapSpans L.place)) (stageBehind inBrackets made)
      (stageBehind inBrackets (made.map (Command.mapSpans L.place))) :=
  L.relates_bind (L.relates_atPipelineEnd inBrackets) fun _ =>
    L.relates_bind (L.relates_check _) fun _ => relates_ite
      (L.relates_bind (L.relates_expected _) fun d =>
        L.relates_bind (L.relates_record d) fun _ =>
          L.relates_bind (L.relates_recover inBrackets) fun _ => L.relates_stagePipe _ made)
      (L.relates_stagePipe _ made)

/-- Stages are in lockstep if their commands are. -/
theorem relates_stage (hread : L.relates (Command.mapSpans L.place) read read')
    (inBrackets : Bool) :
    L.relates (Option.map (Command.mapSpans L.place)) (stage read inBrackets)
      (stage read' inBrackets) := by
  rw [stage_eq, stage_eq]
  exact L.relates_bind (L.relates_salvage hread inBrackets) fun made =>
    L.relates_stageBehind inBrackets made

/-- The rounds of a pipeline are in lockstep if its commands are. The induction is on the rounds
left. -/
theorem relates_stages (hread : L.relates (Command.mapSpans L.place) read read')
    (inBrackets : Bool) (fuel : Nat) :
    L.relates (List.map (Command.mapSpans L.place)) (stages read inBrackets fuel)
      (stages read' inBrackets fuel) := by
  induction fuel with
  | zero => exact L.relates_pure _
  | succ fuel ih =>
      refine L.relates_bind (L.relates_atPipelineEnd inBrackets) fun _ =>
        relates_ite (L.relates_pure _) ?_
      refine L.relates_bind (L.relates_check _) fun _ => relates_ite ?_ ?_
      · exact L.relates_bind (L.relates_expected _) fun d =>
          L.relates_bind (L.relates_record d) fun _ => L.relates_bind L.relates_advance fun _ => ih
      · refine L.relates_bind (relates_stage hread inBrackets) fun first =>
          L.relates_bind ih fun rest => relates_of_eq ?_
        rw [List.map_append]
        cases first <;> rfl

/-- Pipelines are in lockstep if their commands are. -/
theorem relates_pipeline (hread : L.relates (Command.mapSpans L.place) read read')
    (inBrackets : Bool) :
    L.relates (List.map (Command.mapSpans L.place)) (pipeline read inBrackets)
      (pipeline read' inBrackets) :=
  L.relates_bind L.relates_remaining fun fuel => relates_stages hread inBrackets fuel

end

end Lockstep

end PipeQuery.Parser
