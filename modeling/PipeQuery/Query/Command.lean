import PipeQuery.Query.Expr

/-!
# `PipeQuery.Query.Command`: commands and queries

A query is a pipeline of commands. `EXPLAIN` holds another pipeline, which makes commands a
recursive type. `render` writes commands with their verbs in upper case and joins them by pipes.
-/

set_option autoImplicit false

namespace PipeQuery

/-- The metadata fields that `FROM` asks for, in the bracketed spelling or in the bare one. -/
structure Metadata where
  fields : List Source
  bracketed : Bool
  span : Span
deriving DecidableEq, Repr, Inhabited

/-- The clause as query text. -/
def Metadata.render (m : Metadata) : String :=
  let body := "METADATA " ++ Text.joined ", " (m.fields.map Source.render)
  if m.bracketed then "[" ++ body ++ "]" else body

/-- A value, and the field that receives it if one is given. -/
structure Assignment where
  target : Option FieldName
  value : Expr
  span : Span
deriving Inhabited

/-- The assignment as query text. -/
def Assignment.render (a : Assignment) : String :=
  match a.target with
  | some target => target.render ++ " = " ++ a.value.render
  | none => a.value.render

/-- The direction of a sort key. -/
inductive Direction where
  | asc
  | desc
deriving DecidableEq, Repr, Inhabited

/-- Where nulls are sorted. -/
inductive NullsOrder where
  | first
  | last
deriving DecidableEq, Repr, Inhabited

/-- A key of `SORT`. -/
structure SortKey where
  expr : Expr
  direction : Option Direction
  nulls : Option NullsOrder
  span : Span
deriving Inhabited

/-- The sort key as query text. -/
def SortKey.render (k : SortKey) : String :=
  k.expr.render ++
    (match k.direction with
      | some .asc => " ASC"
      | some .desc => " DESC"
      | none => "") ++
    (match k.nulls with
      | some .first => " NULLS FIRST"
      | some .last => " NULLS LAST"
      | none => "")

/-- The spellings of a renaming: `old AS new`, and `new = old`. -/
inductive RenameForm where
  | as
  | assign
deriving DecidableEq, Repr, Inhabited

/-- A renaming. -/
structure RenameClause where
  oldName : FieldPattern
  newName : FieldPattern
  form : RenameForm
  span : Span
deriving DecidableEq, Repr, Inhabited

/-- The renaming as query text. -/
def RenameClause.render (c : RenameClause) : String :=
  match c.form with
  | .as => c.oldName.render ++ " AS " ++ c.newName.render
  | .assign => c.newName.render ++ " = " ++ c.oldName.render

/-- An option of `DISSECT`. -/
structure DissectOption where
  name : Identifier
  value : Expr
  span : Span
deriving Inhabited

/-- The option as query text. -/
def DissectOption.render (o : DissectOption) : String :=
  o.name.render ++ " = " ++ o.value.render

/-- A setting of `ENRICH`. -/
structure Setting where
  name : String
  value : String
  span : Span
deriving DecidableEq, Repr, Inhabited

/-- The setting as query text. -/
def Setting.render (s : Setting) : String :=
  "[" ++ s.name ++ ":" ++ s.value ++ "]"

/-- Where a policy is resolved in a query over several clusters. -/
inductive EnrichMode where
  | any
  | coordinator
  | remote
deriving DecidableEq, Repr, Inhabited

namespace EnrichMode

/-- The mode's name. -/
def text : EnrichMode → String
  | .any => "any"
  | .coordinator => "coordinator"
  | .remote => "remote"

/-- The mode of a name, in any case of its letters. -/
def ofName? (name : String) : Option EnrichMode :=
  [any, coordinator, remote].find? fun mode => Text.sameWord mode.text name

end EnrichMode

/-- A policy, perhaps qualified by a mode. -/
structure Policy where
  mode : Option EnrichMode
  name : String
  span : Span
deriving DecidableEq, Repr, Inhabited

/-- The policy as query text. -/
def Policy.render (p : Policy) : String :=
  match p.mode with
  | some mode => "_" ++ mode.text ++ ":" ++ p.name
  | none => p.name

/-- A field that `ENRICH` adds, perhaps under a new name. -/
structure EnrichField where
  newName : Option FieldPattern
  field : FieldPattern
  span : Span
deriving DecidableEq, Repr, Inhabited

/-- The field as query text. -/
def EnrichField.render (f : EnrichField) : String :=
  match f.newName with
  | some newName => newName.render ++ " = " ++ f.field.render
  | none => f.field.render

/-- A command of a pipeline. `EXPLAIN` holds the commands between its brackets and their span. -/
inductive Command where
  | «from» (sources : List IndexPattern) (metadata : Option Metadata) (span : Span)
  | row (fields : List Assignment) (span : Span)
  | showInfo (span : Span)
  | explain (commands : List Command) (inner : Span) (span : Span)
  | metrics (sources : List IndexPattern) (aggregations groupings : List Assignment) (span : Span)
  | eval (fields : List Assignment) (span : Span)
  | «where» (condition : Expr) (span : Span)
  | stats (aggregations groupings : List Assignment) (span : Span)
  | inlineStats (aggregations groupings : List Assignment) (span : Span)
  | sort (keys : List SortKey) (span : Span)
  | limit (count : Nat) (raw : String) (span : Span)
  | keep (fields : List FieldPattern) (span : Span)
  | drop (fields : List FieldPattern) (span : Span)
  | rename (clauses : List RenameClause) (span : Span)
  | dissect (input pattern : Expr) (options : List DissectOption) (span : Span)
  | grok (input pattern : Expr) (span : Span)
  | enrich (settings : List Setting) (policy : Policy) (on : Option FieldPattern)
      (fields : List EnrichField) (span : Span)
  | mvExpand (field : FieldName) (span : Span)
  | lookup (table : IndexPattern) (matchFields : List FieldPattern) (join : Bool) (span : Span)
  | «match» (query : Expr) (span : Span)
deriving Inhabited

namespace Command

/-- The place of the command, its verb included. -/
def span : Command → Span
  | .«from» _ _ span | .row _ span | .showInfo span | .explain _ _ span | .metrics _ _ _ span
  | .eval _ span | .«where» _ span | .stats _ _ span | .inlineStats _ _ span | .sort _ span
  | .limit _ _ span | .keep _ span | .drop _ span | .rename _ span | .dissect _ _ _ span
  | .grok _ _ span | .enrich _ _ _ _ span | .mvExpand _ span | .lookup _ _ _ span
  | .«match» _ span => span

/-- The verb of the command. -/
def verb : Command → Verb
  | .«from» .. => .«from»
  | .row .. => .row
  | .showInfo .. => .«show»
  | .explain .. => .explain
  | .metrics .. => .metrics
  | .eval .. => .eval
  | .«where» .. => .«where»
  | .stats .. => .stats
  | .inlineStats .. => .inlineStats
  | .sort .. => .sort
  | .limit .. => .limit
  | .keep .. => .keep
  | .drop .. => .drop
  | .rename .. => .rename
  | .dissect .. => .dissect
  | .grok .. => .grok
  | .enrich .. => .enrich
  | .mvExpand .. => .mvExpand
  | .lookup .. => .lookup
  | .«match» .. => .«match»

/-- The command makes rows of its own, so a pipeline may begin with it. -/
def isSource (c : Command) : Bool :=
  match c.verb with
  | .«from» | .row | .«show» | .explain | .metrics => true
  | _ => false

/-- A comma list of items. -/
def commas {α : Type} (render : α → String) (items : List α) : String :=
  Text.joined ", " (items.map render)

/-- Aggregations and groupings, each with what stands in front of it; an empty list is left out. -/
def statsBody (aggregations groupings : List Assignment) : String :=
  (if aggregations.isEmpty then "" else " " ++ commas Assignment.render aggregations) ++
    if groupings.isEmpty then "" else " BY " ++ commas Assignment.render groupings

mutual

/-- The command as query text. -/
def render : Command → String
  | .«from» sources metadata _ =>
    "FROM " ++ commas IndexPattern.render sources ++
      (match metadata with
        | some m => " " ++ m.render
        | none => "")
  | .row fields _ => "ROW " ++ commas Assignment.render fields
  | .showInfo _ => "SHOW INFO"
  | .explain commands _ _ => "EXPLAIN [ " ++ Text.joined " | " (renderAll commands) ++ " ]"
  | .metrics sources aggregations groupings _ =>
    "METRICS " ++ commas IndexPattern.render sources ++ statsBody aggregations groupings
  | .eval fields _ => "EVAL " ++ commas Assignment.render fields
  | .«where» condition _ => "WHERE " ++ condition.render
  | .stats aggregations groupings _ => "STATS" ++ statsBody aggregations groupings
  | .inlineStats aggregations groupings _ => "INLINESTATS" ++ statsBody aggregations groupings
  | .sort keys _ => "SORT " ++ commas SortKey.render keys
  | .limit _ raw _ => "LIMIT " ++ raw
  | .keep fields _ => "KEEP " ++ commas FieldPattern.render fields
  | .drop fields _ => "DROP " ++ commas FieldPattern.render fields
  | .rename clauses _ => "RENAME " ++ commas RenameClause.render clauses
  | .dissect input pattern options _ =>
    "DISSECT " ++ input.renderOperand ++ " " ++ pattern.render ++
      if options.isEmpty then "" else " " ++ commas DissectOption.render options
  | .grok input pattern _ => "GROK " ++ input.renderOperand ++ " " ++ pattern.render
  | .enrich settings policy on fields _ =>
    "ENRICH" ++ String.join (settings.map fun s => " " ++ s.render) ++ " " ++ policy.render ++
      (match on with
        | some f => " ON " ++ f.render
        | none => "") ++
      if fields.isEmpty then "" else " WITH " ++ commas EnrichField.render fields
  | .mvExpand field _ => "MV_EXPAND " ++ field.render
  | .lookup table matchFields join _ =>
    "LOOKUP" ++ (if join then " JOIN" else "") ++ " " ++ table.render ++ " ON " ++
      commas FieldPattern.render matchFields
  | .«match» query _ => "MATCH " ++ query.render

/-- The commands as query text, one by one. -/
def renderAll : List Command → List String
  | [] => []
  | c :: cs => render c :: renderAll cs

end

/-- The place of a pipeline, from its first command to its last; none if it is empty. -/
def spanOf? : List Command → Option Span
  | [] => none
  | c :: cs => some (c.span.merge ((cs.getLast?.getD c).span))

end Command

/-- A pipeline of commands. -/
structure Query where
  commands : List Command
  span : Span
deriving Inhabited

namespace Query

/-- The query of some commands; without any it stands at the start of the text. -/
def ofCommands (commands : List Command) : Query :=
  ⟨commands, (Command.spanOf? commands).getD (.point 0)⟩

/-- The query as text. -/
def render (q : Query) : String :=
  Text.joined " | " (Command.renderAll q.commands)

end Query

end PipeQuery
