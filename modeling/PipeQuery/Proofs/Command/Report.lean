import PipeQuery.Proofs.Command.Pipeline
import PipeQuery.Proofs.Expr.Report

/-!
# `PipeQuery.Proofs.Command.Report`: what the readers of commands tell and return

The readers of commands find and record what is wrong at places in the text. A command is returned
with the verb of its token, which is no preview unless previews are switched on, and it holds the
expressions that the readers of expressions returned. So what these readers ensure of expressions
(`Reading`) and what is true of the verbs (`hV`) is met in all commands of a pipeline, and in those
of an `EXPLAIN` as well (`wholePipeline_ensures`).
-/

set_option autoImplicit false

namespace PipeQuery

/-- It is met by all that the command contains. -/
abbrev Command.AllMeet (V : Verb → Prop) (E : Expr → Prop) (c : Command) : Prop :=
  (Node.command c).AllMeet V E

namespace Parser

open Diagnostic (Cause)

/-- The readers of expressions that commands use return expressions that fit. -/
structure Reading (text : String) (preview : Bool) (V : Verb → Prop) (E : Expr → Prop)
    (sub : Nat → Parse Expr) : Prop where
  expr : ∀ p, Ensures text preview (Fit text V E) (sub p)
  primary : Ensures text preview (Fit text V E) (primary sub)
  constant : Ensures text preview (Fit text V E) (constant sub)
  string : ∀ what, Ensures text preview (Fit text V E) (stringLiteral what)

section

variable {α : Type} {text : String} {preview : Bool} {V : Verb → Prop} {E : Expr → Prop}
  {sub : Nat → Parse Expr} {command : Command}

/-! ### Parts of commands -/

/-- A command meets what is asked if its verb and all that it holds do. -/
theorem allMeet_command (hverb : V command.verb)
    (h : ∀ child ∈ command.children, child.AllMeet V E) : command.AllMeet V E :=
  Node.allMeet_iff.mpr ⟨hverb, h⟩

/-- Nodes made of a list meet what is asked if each of them does. -/
theorem allMeet_map {f : α → Node} {as : List α} (h : ∀ a ∈ as, (f a).AllMeet V E) :
    ∀ child ∈ as.map f, child.AllMeet V E :=
  List.forall_mem_map.mpr h

/-- Nothing is asked of things that are only named. -/
theorem allMeet_names {f : α → Node} (as : List α) (h : ∀ a, (f a).isNaming = true) :
    ∀ child ∈ as.map f, child.AllMeet V E :=
  allMeet_map fun a _ => Node.allMeet_of_isNaming (h a)

/-- Two lists of nodes meet what is asked if both do. -/
theorem allMeet_append {nodes nodes' : List Node} (h : ∀ node ∈ nodes, node.AllMeet V E)
    (h' : ∀ node ∈ nodes', node.AllMeet V E) : ∀ node ∈ nodes ++ nodes', node.AllMeet V E :=
  List.forall_mem_append.mpr ⟨h, h'⟩

/-- A single node stands for the list of it. -/
theorem allMeet_single {node : Node} (h : node.AllMeet V E) : ∀ child ∈ [node], child.AllMeet V E :=
  List.forall_mem_singleton.mpr h

/-- Two nodes stand for the list of both. -/
theorem allMeet_pair {node node' : Node} (h : node.AllMeet V E) (h' : node'.AllMeet V E) :
    ∀ child ∈ [node, node'], child.AllMeet V E :=
  List.forall_mem_cons.mpr ⟨h, allMeet_single h'⟩

section

variable (hread : Reading text preview V E sub)

include hread

/-- The value of an assignment was returned by the reader of expressions, and its target is a name.
-/
theorem assignment_ensures :
    Ensures text preview (fun a => (Node.assignment a).AllMeet V E) (assignment sub) := by
  have htarget : Ensures text preview (fun _ => True) (do
      let name ← fieldName
      return if ← eat .assign then some name else none) :=
    fieldName_ensures.bind fun _ _ => .onEat fun _ => .pure trivial
  refine (Ensures.attempt trivial htarget).bind fun target _ =>
    (hread.expr 0).bind fun value hvalue => ?_
  have hmeets : ∀ span, (Node.assignment ⟨target, value, span⟩).AllMeet V E := fun span =>
    Node.allMeet_iff.mpr ⟨trivial,
      allMeet_append (allMeet_names _ fun _ => rfl) (allMeet_single hvalue.allMeet)⟩
  split
  · exact .pure (hmeets _)
  · exact .pure (hmeets _)

/-- A list of assignments has values that meet what is asked. -/
theorem assignments_ensures :
    Ensures text preview (fun as => ∀ a ∈ as, (Node.assignment a).AllMeet V E)
      (assignments sub) :=
  separated_ensures (assignment_ensures hread)

/-- Both parts of a `STATS` have values that meet what is asked. -/
theorem statsParts_ensures :
    Ensures text preview (fun parts => (∀ a ∈ parts.1, (Node.assignment a).AllMeet V E) ∧
      ∀ a ∈ parts.2, (Node.assignment a).AllMeet V E) (statsParts sub) := by
  have hnone : Ensures text preview (fun as => ∀ a ∈ as, (Node.assignment a).AllMeet V E)
      (pure []) := .pure (by simp)
  have hgroupings : ∀ aggregations : List Assignment,
      (∀ a ∈ aggregations, (Node.assignment a).AllMeet V E) →
      Ensures text preview (fun parts => (∀ a ∈ parts.1, (Node.assignment a).AllMeet V E) ∧
        ∀ a ∈ parts.2, (Node.assignment a).AllMeet V E) (do
          let groupings ← if ← eat (.keyword .«by») then assignments sub else pure []
          return (aggregations, groupings)) := fun aggregations haggregations =>
    .onEat fun _ => .ite
      ((assignments_ensures hread).bind fun _ h => .pure ⟨haggregations, h⟩)
      (hnone.bind fun _ h => .pure ⟨haggregations, h⟩)
  exact .onLook fun _ =>
    .ite (hnone.bind hgroupings) ((assignments_ensures hread).bind hgroupings)

omit hread in
/-- The reader of a metadata clause tells of places in the text only. -/
theorem metadata_ensures : Ensures text preview (fun _ => True) metadata := by
  refine current_ensures.bind fun t ht => .onLook fun second => .ite ?_ (.pure trivial)
  refine advance_ensures.bind fun _ _ => ?_
  have hclosed : Ensures text preview (fun _ => True) (spanFrom t.span) :=
    (spanFrom_ensures ht.located.fits).imp fun _ _ => trivial
  have hfields : ∀ bracketed : Bool, Ensures text preview (fun _ => True) (do
      let fields ← separated .comma source
      if bracketed then
        let _ ← expect .closeBracket "']'"
      return some (Metadata.mk fields bracketed (← spanFrom t.span))) := fun bracketed =>
    (separated_ensures source_ensures).bind fun _ _ => .ite
      (.onExpect fun _ _ => hclosed.bind fun _ _ => .pure trivial)
      (hclosed.bind fun _ _ => .pure trivial)
  exact .ite (advance_ensures.bind fun _ _ => hfields _) (hfields _)

omit hread in
/-- The reader of a sorting direction tells of places in the text only. -/
theorem direction_ensures : Ensures text preview (fun _ => True) direction :=
  .onEat fun _ => .ite (.pure trivial) (.onEat fun _ => .ite (.pure trivial) (.pure trivial))

omit hread in
/-- The reader of an order of nulls tells of places in the text only. -/
theorem nullsOrder_ensures : Ensures text preview (fun _ => True) nullsOrder :=
  .onEat fun _ => .ite
    (.onEat fun _ => .ite (.pure trivial)
      (.onEat fun _ => .ite (.pure trivial) (unexpected_ensures _)))
    (.pure trivial)

/-- A sort key has an expression that meets what is asked. -/
theorem sortKey_ensures :
    Ensures text preview (fun key => (Node.sortKey key).AllMeet V E) (sortKey sub) :=
  (hread.expr 0).bind fun _ he => direction_ensures.bind fun _ _ =>
    nullsOrder_ensures.bind fun _ _ => (spanFrom_ensures he.fits).bind fun _ _ =>
      .pure (Node.allMeet_iff.mpr ⟨trivial, allMeet_single he.allMeet⟩)

omit hread in
/-- A name with a wildcard is told of where none may stand, and reading goes on. -/
theorem refuseWildcard_ensures {name : FieldPattern} {cause : Cause} (hname : name.span.Fits text)
    (hcause : cause.kind ≠ .lexical) : Ensures text preview (fun _ => True)
      (if name.hasWildcard then report cause name.span else pure ()) :=
  .ite (report_ensures hname hcause) (.pure trivial)

omit hread in
/-- The reader of a clause of a `RENAME` tells of places in the text only, wildcards included. -/
theorem renameClause_ensures : Ensures text preview (fun _ => True) renameClause := by
  -- What follows the two names, in whichever order they were written.
  have hmade : ∀ {oldName newName : FieldPattern} {form : RenameForm},
      oldName.span.Fits text → newName.span.Fits text → Ensures text preview (fun _ => True) (do
        let refuse (name : FieldPattern) : Parse Unit :=
          if name.hasWildcard then report (.renameWildcard name.render) name.span else pure ()
        refuse oldName
        refuse newName
        return RenameClause.mk oldName newName form (oldName.span.merge newName.span)) :=
    fun hold hnew => (refuseWildcard_ensures hold (by simp [Cause.kind])).bind fun _ _ =>
      (refuseWildcard_ensures hnew (by simp [Cause.kind])).bind fun _ _ => .pure trivial
  refine fieldPattern_ensures.bind fun first hfirst => .onEat fun as => ?_
  refine .ite (.bind (P := fun _ => True) (.pure trivial) fun assign _ => ?_)
    (.onEat fun assign => ?_)
  all_goals
    refine .ite (unexpected_ensures _) (fieldPattern_ensures.bind fun second hsecond => ?_)
    cases as with
    | true => exact hmade hfirst hsecond
    | false => exact hmade hsecond hfirst

/-- An option of a `DISSECT` has a value that meets what is asked. -/
theorem dissectOption_ensures :
    Ensures text preview (fun option => (Node.dissectOption option).AllMeet V E)
      (dissectOption sub) := by
  refine (identifier_ensures _).bind fun name hname => .onExpect fun _ _ =>
    hread.constant.bind fun value hvalue => ?_
  have hmade : Ensures text preview (fun option => (Node.dissectOption option).AllMeet V E)
      (pure ⟨name, value, name.span.merge value.span⟩) :=
    .pure (Node.allMeet_iff.mpr
      ⟨trivial, allMeet_pair (Node.allMeet_of_isNaming rfl) hvalue.allMeet⟩)
  exact .ite ((report_ensures hname (by simp [Cause.kind])).bind fun _ _ => hmade)
    (.reportIf hvalue.fits (by simp [Cause.kind]) hmade)

/-- Each option of a `DISSECT` has a value that meets what is asked. -/
theorem dissectOptions_ensures :
    Ensures text preview (fun options => ∀ o ∈ options, (Node.dissectOption o).AllMeet V E)
      (dissectOptions sub) :=
  .onLook fun _ => .ite (separated_ensures (dissectOption_ensures hread)) (.pure (by simp))

end

/-- A setting is in the text, so it can be told of when it is unknown or repeated. -/
theorem setting_ensures : Ensures text preview (fun s => s.span.Fits text) setting := by
  refine advance_ensures.bind fun opening hopening => .onExpect fun name hname =>
    .onExpect fun _ _ => .onExpect fun value hvalue => .onExpect fun _ _ =>
      (spanFrom_ensures hopening.located.fits).bind fun span hspan => ?_
  have hmade : Ensures text preview (fun s => s.span.Fits text)
      (pure (Setting.mk name.text value.text span)) := .pure hspan
  exact .ite ((report_ensures hname.located.fits (by simp [Cause.kind])).bind fun _ _ => hmade)
    (.reportIf hvalue.located.fits (by simp [Cause.kind]) hmade)

/-- The reader of settings tells of places in the text only, however many settings there are. -/
theorem settings_ensures (fuel : Nat) (before : List Setting) :
    Ensures text preview (fun _ => True) (settings fuel before) := by
  induction fuel generalizing before with
  | zero => exact .pure trivial
  | succ fuel ih =>
      exact .onCheck fun _ => .ite
        (setting_ensures.bind fun next hnext => .reportIf hnext (by simp [Cause.kind]) (ih _))
        (.pure trivial)

/-- The reader of a policy tells of places in the text only. -/
theorem policy_ensures : Ensures text preview (fun _ => True) policy :=
  .onExpect fun _ ht => .ite (.pure trivial)
    (.reportIf ht.located.fits (by simp [Cause.kind]) (.pure trivial))

/-- The reader of a field of an `ENRICH` tells of places in the text only, wildcards included. -/
theorem enrichField_ensures : Ensures text preview (fun _ => True) enrichField := by
  have hrefuse : ∀ name : FieldPattern, name.span.Fits text → Ensures text preview (fun _ => True)
      (if name.hasWildcard then report (.enrichWildcard name.render) name.span else pure ()) :=
    fun _ hname => refuseWildcard_ensures hname (by simp [Cause.kind])
  exact fieldPattern_ensures.bind fun first hfirst => .onEat fun _ => .ite
    (fieldPattern_ensures.bind fun second hsecond => (hrefuse _ hfirst).bind fun _ _ =>
      (hrefuse _ hsecond).bind fun _ _ => .pure trivial)
    ((hrefuse _ hfirst).bind fun _ _ => .pure trivial)

/-! ### Commands -/

/-- The end of a command: its span, and the command with it. -/
theorem Ensures.made {verb : Token} (hverb : Known text preview verb) {make : Span → Command}
    (h : ∀ span, (make span).AllMeet V E) :
    Ensures text preview (Command.AllMeet V E)
      (do return make (← spanFrom verb.span)) :=
  (spanFrom_ensures hverb.located.fits).bind fun span _ => .pure (h span)

/-- A `FROM` has its verb and holds names only. -/
theorem fromCommand_ensures (hV : V .«from») :
    Ensures text preview (Command.AllMeet V E) fromCommand :=
  advance_ensures.bind fun _ hverb => indexPatterns_ensures.bind fun _ _ =>
    metadata_ensures.bind fun _ _ => .made hverb fun _ => allMeet_command hV
      (allMeet_append (allMeet_names _ fun _ => rfl) (allMeet_names _ fun _ => rfl))

/-- A `SHOW` has its verb and holds nothing. -/
theorem showCommand_ensures (hV : V .«show») :
    Ensures text preview (Command.AllMeet V E) showCommand :=
  advance_ensures.bind fun _ hverb => .onExpect fun _ _ =>
    .made hverb fun _ => allMeet_command hV nofun

/-- A `LIMIT` has its verb and holds nothing, be its count readable or not. -/
theorem limitCommand_ensures (hV : V .limit) :
    Ensures text preview (Command.AllMeet V E) limitCommand := by
  refine advance_ensures.bind fun _ hverb => .onExpect fun t ht => ?_
  split
  · exact .made hverb fun _ => allMeet_command hV nofun
  · exact stopLocated_ensures ht.located.fits (by simp [Cause.kind])

/-- A `KEEP` has its verb and holds names only. -/
theorem keepCommand_ensures (hV : V .keep) :
    Ensures text preview (Command.AllMeet V E) keepCommand :=
  advance_ensures.bind fun _ hverb => fieldPatterns_ensures.bind fun _ _ =>
    .made hverb fun _ => allMeet_command hV (allMeet_names _ fun _ => rfl)

/-- Stars are refused at the places of the patterns, which are in the text. -/
theorem refuseStars_ensures {fields : List FieldPattern}
    (h : ∀ field ∈ fields, Span.Fits field.span text) :
    Ensures text preview (fun _ => True) (refuseStars fields) := by
  induction fields with
  | nil => exact .pure trivial
  | cons field fields ih =>
      obtain ⟨hfield, hfields⟩ := List.forall_mem_cons.mp h
      exact .reportIf hfield (by simp [Cause.kind]) (ih hfields)

/-- A `DROP` has its verb and holds names only, refused ones among them. -/
theorem dropCommand_ensures (hV : V .drop) :
    Ensures text preview (Command.AllMeet V E) dropCommand :=
  advance_ensures.bind fun _ hverb => fieldPatterns_ensures.bind fun _ hfields =>
    (refuseStars_ensures hfields).bind fun _ _ =>
      .made hverb fun _ => allMeet_command hV (allMeet_names _ fun _ => rfl)

/-- A `RENAME` has its verb and holds names only. -/
theorem renameCommand_ensures (hV : V .rename) :
    Ensures text preview (Command.AllMeet V E) renameCommand :=
  advance_ensures.bind fun _ hverb => (separated_ensures renameClause_ensures).bind fun _ _ =>
    .made hverb fun _ => allMeet_command hV (allMeet_names _ fun _ => rfl)

/-- An `ENRICH` has its verb and holds names only. -/
theorem enrichCommand_ensures (hV : V .enrich) :
    Ensures text preview (Command.AllMeet V E) enrichCommand := by
  refine advance_ensures.bind fun verb hverb => .onLook fun _ =>
    (settings_ensures _ _).bind fun given _ => policy_ensures.bind fun name _ => ?_
  have hmade : ∀ on fields, Ensures text preview (Command.AllMeet V E)
      (do return .enrich given name on fields (← spanFrom verb.span)) := fun _ _ =>
    .made hverb fun _ => allMeet_command hV
      (allMeet_append (allMeet_names _ fun _ => rfl)
        (List.forall_mem_cons.mpr ⟨Node.allMeet_of_isNaming rfl,
          allMeet_append (allMeet_names _ fun _ => rfl) (allMeet_names _ fun _ => rfl)⟩))
  have hfields : ∀ on, Ensures text preview (Command.AllMeet V E) (do
      let fields ← if ← eat (.keyword .«with») then separated .comma enrichField else pure []
      return .enrich given name on fields (← spanFrom verb.span)) := fun on => .onEat fun _ =>
    .ite ((separated_ensures enrichField_ensures).bind fun _ _ => hmade on _) (hmade on [])
  have hon : Ensures text preview (fun _ => True) (some <$> fieldPattern) :=
    .map (fieldPattern_ensures.imp fun _ _ => trivial)
  exact .onEat fun _ => .ite (hon.bind fun on _ => hfields on) (hfields none)

/-- An `MV_EXPAND` has its verb and holds a name. -/
theorem mvExpandCommand_ensures (hV : V .mvExpand) :
    Ensures text preview (Command.AllMeet V E) mvExpandCommand :=
  advance_ensures.bind fun _ hverb => fieldName_ensures.bind fun _ _ =>
    .made hverb fun _ => allMeet_command hV (allMeet_single (Node.allMeet_of_isNaming rfl))

/-- A `LOOKUP` has its verb and holds names only. -/
theorem lookupCommand_ensures (hV : V .lookup) :
    Ensures text preview (Command.AllMeet V E) lookupCommand := by
  refine advance_ensures.bind fun verb hverb => current_ensures.bind fun _ _ =>
    .onLook fun _ => ?_
  have hrest : ∀ join, Ensures text preview (Command.AllMeet V E) (do
      let table ← indexPattern
      let _ ← expect (.keyword .on) "ON"
      let matchFields ← fieldPatterns
      return .lookup table matchFields join (← spanFrom verb.span)) := fun _ =>
    indexPattern_ensures.bind fun _ _ => .onExpect fun _ _ => fieldPatterns_ensures.bind fun _ _ =>
      .made hverb fun _ => allMeet_command hV
        (List.forall_mem_cons.mpr ⟨Node.allMeet_of_isNaming rfl, allMeet_names _ fun _ => rfl⟩)
  exact .ite (advance_ensures.bind fun _ _ => hrest _) (hrest _)

section

variable (hread : Reading text preview V E sub)

include hread

/-- A `ROW` has its verb, and the values of its assignments meet what is asked. -/
theorem rowCommand_ensures (hV : V .row) :
    Ensures text preview (Command.AllMeet V E) (rowCommand sub) :=
  advance_ensures.bind fun _ hverb => (assignments_ensures hread).bind fun _ hfields =>
    .made hverb fun _ => allMeet_command hV (allMeet_map hfields)

/-- An `EVAL` has its verb, and the values of its assignments meet what is asked. -/
theorem evalCommand_ensures (hV : V .eval) :
    Ensures text preview (Command.AllMeet V E) (evalCommand sub) :=
  advance_ensures.bind fun _ hverb => (assignments_ensures hread).bind fun _ hfields =>
    .made hverb fun _ => allMeet_command hV (allMeet_map hfields)

/-- A `METRICS` has its verb, and the values of its assignments meet what is asked. -/
theorem metricsCommand_ensures (hV : V .metrics) :
    Ensures text preview (Command.AllMeet V E) (metricsCommand sub) :=
  advance_ensures.bind fun _ hverb => indexPatterns_ensures.bind fun _ _ =>
    (statsParts_ensures hread).bind fun _ ⟨haggregations, hgroupings⟩ =>
      .made hverb fun _ => allMeet_command hV (allMeet_append (allMeet_names _ fun _ => rfl)
        (allMeet_append (allMeet_map haggregations) (allMeet_map hgroupings)))

/-- A `WHERE` has its verb, and its condition meets what is asked. -/
theorem whereCommand_ensures (hV : V .«where») :
    Ensures text preview (Command.AllMeet V E) (whereCommand sub) :=
  advance_ensures.bind fun _ hverb => (hread.expr 0).bind fun _ he =>
    .made hverb fun _ => allMeet_command hV (allMeet_single he.allMeet)

/-- A `STATS` has its verb, and the values of its assignments meet what is asked. -/
theorem statsCommand_ensures (hV : V .stats) :
    Ensures text preview (Command.AllMeet V E) (statsCommand sub) :=
  advance_ensures.bind fun _ hverb =>
    (statsParts_ensures hread).bind fun _ ⟨haggregations, hgroupings⟩ =>
      .reportIf hverb.located.fits (by simp [Cause.kind]) (.made hverb fun _ => allMeet_command hV
        (allMeet_append (allMeet_map haggregations) (allMeet_map hgroupings)))

/-- An `INLINESTATS` has its verb, and the values of its assignments meet what is asked. -/
theorem inlineStatsCommand_ensures (hV : V .inlineStats) :
    Ensures text preview (Command.AllMeet V E) (inlineStatsCommand sub) :=
  advance_ensures.bind fun _ hverb =>
    (statsParts_ensures hread).bind fun _ ⟨haggregations, hgroupings⟩ =>
      .reportIf hverb.located.fits (by simp [Cause.kind]) (.made hverb fun _ => allMeet_command hV
        (allMeet_append (allMeet_map haggregations) (allMeet_map hgroupings)))

/-- A `SORT` has its verb, and the expressions of its keys meet what is asked. -/
theorem sortCommand_ensures (hV : V .sort) :
    Ensures text preview (Command.AllMeet V E) (sortCommand sub) :=
  advance_ensures.bind fun _ hverb => (separated_ensures (sortKey_ensures hread)).bind
    fun _ hkeys => .made hverb fun _ => allMeet_command hV (allMeet_map hkeys)

/-- A `DISSECT` has its verb, and its input, its pattern and its options meet what is asked. -/
theorem dissectCommand_ensures (hV : V .dissect) :
    Ensures text preview (Command.AllMeet V E) (dissectCommand sub) :=
  advance_ensures.bind fun _ hverb => hread.primary.bind fun _ hinput =>
    (hread.string _).bind fun _ hpattern => (dissectOptions_ensures hread).bind fun _ hoptions =>
      .made hverb fun _ => allMeet_command hV (List.forall_mem_cons.mpr ⟨hinput.allMeet,
        List.forall_mem_cons.mpr ⟨hpattern.allMeet, allMeet_map hoptions⟩⟩)

/-- A `GROK` has its verb, and its input and its pattern meet what is asked. -/
theorem grokCommand_ensures (hV : V .grok) :
    Ensures text preview (Command.AllMeet V E) (grokCommand sub) :=
  advance_ensures.bind fun _ hverb => hread.primary.bind fun _ hinput =>
    (hread.string _).bind fun _ hpattern =>
      .made hverb fun _ => allMeet_command hV (allMeet_pair hinput.allMeet hpattern.allMeet)

/-- A `MATCH` has its verb, and its query meets what is asked. -/
theorem matchCommand_ensures (hV : V .«match») :
    Ensures text preview (Command.AllMeet V E) matchCommand :=
  advance_ensures.bind fun _ hverb => (hread.string _).bind fun _ hquery =>
    .made hverb fun _ => allMeet_command hV (allMeet_single hquery.allMeet)

end

/-- An `EXPLAIN` has its verb, and its commands are those that the reader between its brackets
returned. -/
theorem explainCommand_ensures {explained : Parse (List Command)}
    (hexplained : Ensures text preview (fun cs => ∀ c ∈ cs, Command.AllMeet V E c) explained)
    (hV : V .explain) :
    Ensures text preview (Command.AllMeet V E) (explainCommand explained) := by
  refine advance_ensures.bind fun verb hverb => .onExpect fun opening _ =>
    hexplained.bind fun commands hcommands => .onLook fun s => ?_
  have hclosed : Ensures text preview (Command.AllMeet V E) (do
      let _ ← expect .closeBracket "']'"
      let inner := (Command.spanOf? commands).getD (.point opening.span.stop)
      return .explain commands inner (← spanFrom verb.span)) :=
    .onExpect fun _ _ => .made hverb fun _ => allMeet_command hV
      (allMeet_single (Node.allMeet_iff.mpr ⟨trivial, allMeet_map hcommands⟩))
  exact .ite ((recordExpected_ensures _).bind fun _ _ => hclosed) hclosed

/-- The command ahead has the verb of its token. -/
theorem command_ensures (hV : ∀ verb : Verb, (verb.isPreview = true → preview = true) → V verb)
    (hread : Reading text preview V E sub) {explained : Parse (List Command)}
    (hexplained :
      Ensures text preview (fun cs => ∀ c ∈ cs, Command.AllMeet V E c) explained) :
    Ensures text preview (Command.AllMeet V E)
      (Parser.command sub explained) := by
  refine current_ensures.bind fun t ht => ?_
  -- The lexer makes a preview verb only where the gate is on, and so the reader of it runs only
  -- then.
  have hverb : ∀ {verb}, t.kind = .command verb → V verb := fun h => hV _ (ht.isKnown _ h)
  split
  · exact fromCommand_ensures (hverb ‹_›)
  · exact rowCommand_ensures hread (hverb ‹_›)
  · exact showCommand_ensures (hverb ‹_›)
  · exact explainCommand_ensures hexplained (hverb ‹_›)
  · exact metricsCommand_ensures hread (hverb ‹_›)
  · exact evalCommand_ensures hread (hverb ‹_›)
  · exact whereCommand_ensures hread (hverb ‹_›)
  · exact statsCommand_ensures hread (hverb ‹_›)
  · exact inlineStatsCommand_ensures hread (hverb ‹_›)
  · exact sortCommand_ensures hread (hverb ‹_›)
  · exact limitCommand_ensures (hverb ‹_›)
  · exact keepCommand_ensures (hverb ‹_›)
  · exact dropCommand_ensures (hverb ‹_›)
  · exact renameCommand_ensures (hverb ‹_›)
  · exact dissectCommand_ensures hread (hverb ‹_›)
  · exact grokCommand_ensures hread (hverb ‹_›)
  · exact enrichCommand_ensures (hverb ‹_›)
  · exact mvExpandCommand_ensures (hverb ‹_›)
  · exact lookupCommand_ensures (hverb ‹_›)
  · exact matchCommand_ensures hread (hverb ‹_›)
  · exact .stop (.onToken ht.located (by simp [Cause.kind]))
  · exact unexpected_ensures _

/-! ### Pipelines -/

/-- Reading goes on at one of the lexemes ahead, behind a token. -/
theorem resumption_known (inBrackets : Bool) (depth : Nat) {prevEnd : Nat} {rest : List Lexeme}
    (hrest : ∀ l ∈ rest, Known text preview l.token)
    (hprevEnd : (⟨prevEnd⟩ : String.Pos.Raw).IsValid text) :
    (∀ l ∈ (resumption inBrackets depth prevEnd rest).1, Known text preview l.token) ∧
      (⟨(resumption inBrackets depth prevEnd rest).2⟩ : String.Pos.Raw).IsValid text := by
  induction rest generalizing depth prevEnd with
  | nil => exact ⟨hrest, hprevEnd⟩
  | cons l rest ih =>
      obtain ⟨hl, hbehind⟩ := List.forall_mem_cons.mp hrest
      have hstop := hl.located.fits.stop_isValid
      unfold resumption
      split
      · exact ⟨hrest, hprevEnd⟩
      · exact ih _ hbehind hstop
      · split
        · exact ⟨hrest, hprevEnd⟩
        · exact ih _ hbehind hstop
      · exact ih _ hbehind hstop

/-- Recovery tells of nothing, it only passes lexemes over. -/
theorem recover_ensures (inBrackets : Bool) :
    Ensures text preview (fun _ => True) (recover inBrackets) := by
  intro c s hs
  obtain ⟨hahead, hprevEnd⟩ := resumption_known inBrackets 0 hs.ahead hs.prevEnd
  exact ⟨.ok trivial, hs.onward hahead hprevEnd⟩

/-- What is expected is missing, and reading goes on behind what is left of the command. -/
theorem Ensures.recovered {p : Parse α} {Q : α → Prop} (h : Ensures text preview Q p)
    (inBrackets : Bool) : Ensures text preview Q (do recover inBrackets; p) :=
  (recover_ensures inBrackets).bind fun _ _ => h

/-- What a stage has made is kept behind the pipe. -/
theorem stagePipe_ensures (inBrackets : Bool) {made : Option Command} {Q : Option Command → Prop}
    (h : Q made) : Ensures text preview Q (stagePipe inBrackets made) :=
  .onEat fun _ => .ite
    (.onLook fun _ => .ite ((recordExpected_ensures _).bind fun _ _ => .pure h) (.pure h))
    (.pure h)

/-- What a stage has made is kept when the rest up to the pipe is passed over. -/
theorem stageBehind_ensures (inBrackets : Bool) {made : Option Command}
    {Q : Option Command → Prop} (h : Q made) :
    Ensures text preview Q (stageBehind inBrackets made) :=
  .onLook fun _ => .onCheck fun _ => .ite
    ((recordExpected_ensures _).bind fun _ _ => (stagePipe_ensures inBrackets h).recovered _)
    (stagePipe_ensures inBrackets h)

/-- A command that stops leaves its diagnostic, and reading goes on behind it. -/
theorem stage_ensures {read : Parse Command} {Q : Command → Prop}
    (h : Ensures text preview Q read) (inBrackets : Bool) :
    Ensures text preview (fun made => ∀ c ∈ made, Q c) (stage read inBrackets) := by
  intro c s hs
  obtain ⟨hmakes, hs'⟩ := h hs
  rw [stage_apply]
  generalize read c s = o at hmakes hs'
  obtain ⟨r, s'⟩ := o
  cases hmakes with
  | ok hc =>
      have hbehind : Ensures text preview (fun made => ∀ c ∈ made, Q c)
          (stageBehind inBrackets (some _)) := stageBehind_ensures inBrackets (by simpa using hc)
      exact hbehind hs'
  | error hd =>
      have hbehind : Ensures text preview (fun made => ∀ c ∈ made, Q c)
          (stageBehind inBrackets none) := stageBehind_ensures inBrackets (by simp)
      exact ((record_ensures hd).bind fun _ _ => hbehind.recovered inBrackets) hs'

/-- The commands of all stages are what the reader of commands ensures. -/
theorem stages_ensures {read : Parse Command} {Q : Command → Prop}
    (h : Ensures text preview Q read) (inBrackets : Bool) (fuel : Nat) :
    Ensures text preview (fun cs => ∀ c ∈ cs, Q c) (stages read inBrackets fuel) := by
  induction fuel with
  | zero => exact .pure (by simp)
  | succ fuel ih =>
      refine .onLook fun _ => .ite (.pure (by simp)) (.onCheck fun _ => .ite ?_ ?_)
      · exact (recordExpected_ensures _).bind fun _ _ => advance_ensures.bind fun _ _ => ih
      · refine (stage_ensures h inBrackets).bind fun made hmade =>
          ih.bind fun rest hrest => .pure ?_
        exact List.forall_mem_append.mpr ⟨fun c hc => hmade c (by simpa using hc), hrest⟩

/-- The commands of a pipeline are what the reader of commands ensures. -/
theorem pipeline_ensures {read : Parse Command} {Q : Command → Prop}
    (h : Ensures text preview Q read) (inBrackets : Bool) :
    Ensures text preview (fun cs => ∀ c ∈ cs, Q c) (pipeline read inBrackets) :=
  .onLook fun _ => stages_ensures h inBrackets _

section

variable (hV : ∀ verb : Verb, (verb.isPreview = true → preview = true) → V verb)

include hV

/-- The commands of an `EXPLAIN`, with any number of levels of nesting left: the induction is on
these, since an `EXPLAIN` among the commands has one less. -/
theorem explained_ensures (headroom : Nat)
    (hread : ∀ n < headroom, Reading text preview V E (expressionAt n)) :
    Ensures text preview (fun cs => ∀ c ∈ cs, Command.AllMeet V E c)
      (explained headroom) := by
  induction headroom with
  | zero => exact tooDeep_ensures
  | succ headroom ih =>
      have hinner := ih fun n hn => hread n (Nat.lt_succ_of_lt hn)
      exact (pipeline_ensures (command_ensures hV (hread headroom (Nat.lt_succ_self _)) hinner)
        true).deeper

/-- The commands of a text. -/
theorem wholePipeline_ensures (maxDepth : Nat)
    (hread : ∀ n ≤ maxDepth, Reading text preview V E (expressionAt n)) :
    Ensures text preview (fun cs => ∀ c ∈ cs, Command.AllMeet V E c)
      (wholePipeline maxDepth) :=
  pipeline_ensures (command_ensures hV (hread maxDepth (Nat.le_refl _))
    (explained_ensures hV maxDepth fun n hn => hread n (Nat.le_of_lt hn))) false

/-- The query of a text. -/
theorem query_ensures (maxDepth : Nat) (lexicalErrors openBracket : Bool)
    (hread : ∀ n ≤ maxDepth, Reading text preview V E (expressionAt n)) :
    Ensures text preview (fun q : Query => q.node.AllMeet V E)
      (query maxDepth lexicalErrors openBracket) := by
  refine (wholePipeline_ensures hV maxDepth hread).bind fun commands hcommands => ?_
  have hmade : Ensures text preview (fun q : Query => q.node.AllMeet V E)
      (pure (.ofCommands commands)) :=
    .pure (Node.allMeet_iff.mpr ⟨trivial, allMeet_map hcommands⟩)
  -- An empty query is reported where nothing else is, and the query is the same either way.
  have hempty : Ensures text preview (fun q : Query => q.node.AllMeet V E) (do
      let s ← Parse.state
      if commands.isEmpty && s.recorded.isEmpty && !lexicalErrors then
        let token ← current
        record (Cause.emptyQuery.onToken token)
      return .ofCommands commands) :=
    .onLook fun _ => .ite
      (current_ensures.bind fun _ ht =>
        (record_ensures (.onToken ht.located (by simp [Cause.kind]))).bind fun _ _ => hmade)
      hmade
  exact .ite
    (current_ensures.bind fun _ ht =>
      (report_ensures ht.located.fits (by simp [Cause.kind])).bind fun _ _ => hempty)
    hempty

end

end

end Parser

end PipeQuery
