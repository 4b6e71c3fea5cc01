import PipeQuery.Parser.Command
import PipeQuery.Proofs.Expr.Grammar

/-!
# `PipeQuery.Proofs.Command.Grammar`: the grammar of commands

Which lexemes write a command in which nothing is wrong. Each part of a command has a relation of
its own, `IsBody` puts the parts behind a verb together, and `IsCommand` the verb in front of them.
What an `EXPLAIN` holds is written as further commands with pipes between them.

The conditions that the parser reports instead of stopping are part of the grammar here: an index
is glued to its cluster, no renamed field has a wildcard, a setting has a known name and value.
-/

set_option autoImplicit false

namespace PipeQuery

/-- The commands of the verb are made of names, patterns and sources, or of one constant: they hold
neither expressions nor other commands. -/
def Verb.isNominal : Verb → Bool
  | .«from» | .keep | .drop | .rename | .enrich | .mvExpand | .lookup | .limit | .«show» => true
  | _ => false

end PipeQuery

namespace PipeQuery.Parser

/-! ### Parts of commands -/

/-- A value, behind `target =` if a field receives it. -/
inductive IsAssignment : List Lexeme → Assignment → Prop where
  | plain {w : List Lexeme} {e : Expr} (h : Derives .disjunction w e) :
    IsAssignment w ⟨none, e, e.span⟩
  | target {l : Lexeme} {w w' : List Lexeme} {name : FieldName} {e : Expr}
    (hname : IsFieldName w name) (hl : l.token.kind = .assign) (h : Derives .disjunction w' e) :
    IsAssignment (w ++ l :: w') ⟨some name, e, name.span.merge e.span⟩

/-- Nothing, or a keyword and items with commas between them. -/
inductive IsClause {α : Type} (word : Keyword) (R : List Lexeme → α → Prop) :
    List Lexeme → List α → Prop where
  | absent : IsClause word R [] []
  | present {l : Lexeme} {w : List Lexeme} {as : List α} (hl : l.token.kind = .keyword word)
    (h : SepBy .comma R w as) : IsClause word R (l :: w) as

/-- Nothing, or items with commas between them. -/
inductive IsOptional {α : Type} (R : List Lexeme → α → Prop) : List Lexeme → List α → Prop where
  | absent : IsOptional R [] []
  | present {w : List Lexeme} {as : List α} (h : SepBy .comma R w as) : IsOptional R w as

/-- Aggregations and groupings, either of which may be missing. -/
inductive IsStatsParts : List Lexeme → List Assignment → List Assignment → Prop where
  | mk {w w' : List Lexeme} {aggregations groupings : List Assignment}
    (haggregations : IsOptional IsAssignment w aggregations)
    (hgroupings : IsClause .«by» IsAssignment w' groupings) :
    IsStatsParts (w ++ w') aggregations groupings

/-- A source as a list of one lexeme. -/
inductive IsSourceItem : List Lexeme → Source → Prop where
  | mk {l : Lexeme} {source : Source} (h : IsSource l source) : IsSourceItem [l] source

/-- The metadata clause, missing, bare or in brackets. -/
inductive IsMetadata : List Lexeme → Option Metadata → Prop where
  | absent : IsMetadata [] none
  | bare {l : Lexeme} {w : List Lexeme} {fields : List Source}
    (hl : l.token.kind = .keyword .metadata) (h : SepBy .comma IsSourceItem w fields) :
    IsMetadata (l :: w) (some ⟨fields, false, spanOver l.token.span (l :: w)⟩)
  | bracketed {opening l closing : Lexeme} {w : List Lexeme} {fields : List Source}
    (hopening : opening.token.kind = .openBracket) (hl : l.token.kind = .keyword .metadata)
    (h : SepBy .comma IsSourceItem w fields) (hclosing : closing.token.kind = .closeBracket) :
    IsMetadata (opening :: l :: (w ++ [closing]))
      (some ⟨fields, true, spanOver opening.token.span [closing]⟩)

/-- The direction of a sort key. -/
inductive IsDirection : List Lexeme → Option Direction → Prop where
  | absent : IsDirection [] none
  | asc {l : Lexeme} (h : l.token.kind = .keyword .asc) : IsDirection [l] (some .asc)
  | desc {l : Lexeme} (h : l.token.kind = .keyword .desc) : IsDirection [l] (some .desc)

/-- Where a sort key puts nulls. -/
inductive IsNullsOrder : List Lexeme → Option NullsOrder → Prop where
  | absent : IsNullsOrder [] none
  | first {l l' : Lexeme} (h : l.token.kind = .keyword .nulls)
    (h' : l'.token.kind = .keyword .first) : IsNullsOrder [l, l'] (some .first)
  | last {l l' : Lexeme} (h : l.token.kind = .keyword .nulls)
    (h' : l'.token.kind = .keyword .last) : IsNullsOrder [l, l'] (some .last)

/-- An expression, a direction and an order of nulls. -/
inductive IsSortKey : List Lexeme → SortKey → Prop where
  | mk {w w₁ w₂ : List Lexeme} {e : Expr} {direction : Option Direction}
    {nulls : Option NullsOrder} (h : Derives .disjunction w e)
    (hdirection : IsDirection w₁ direction) (hnulls : IsNullsOrder w₂ nulls) :
    IsSortKey (w ++ (w₁ ++ w₂))
      ⟨e, direction, nulls, spanOver e.span (w ++ (w₁ ++ w₂))⟩

/-- A renaming of one field, without wildcards, in either spelling. -/
inductive IsRenameClause : List Lexeme → RenameClause → Prop where
  | as {l : Lexeme} {w w' : List Lexeme} {oldName newName : FieldPattern}
    (hold : IsFieldPattern w oldName) (hl : l.token.kind = .keyword .as)
    (hnew : IsFieldPattern w' newName) (hplain : oldName.hasWildcard = false)
    (hplain' : newName.hasWildcard = false) :
    IsRenameClause (w ++ l :: w') ⟨oldName, newName, .as, oldName.span.merge newName.span⟩
  | assign {l : Lexeme} {w w' : List Lexeme} {oldName newName : FieldPattern}
    (hnew : IsFieldPattern w newName) (hl : l.token.kind = .assign)
    (hold : IsFieldPattern w' oldName) (hplain : oldName.hasWildcard = false)
    (hplain' : newName.hasWildcard = false) :
    IsRenameClause (w ++ l :: w') ⟨oldName, newName, .assign, oldName.span.merge newName.span⟩

/-- The separator of `DISSECT`, a string. -/
inductive IsDissectOption : List Lexeme → DissectOption → Prop where
  | mk {l assign : Lexeme} {w : List Lexeme} {name : Identifier} {value : Expr}
    (hname : IsIdentifier l name) (hassign : assign.token.kind = .assign)
    (hvalue : Derives .sign w value) (hknown : Text.sameWord name.name "append_separator" = true)
    (hstring : value.isString = true) :
    IsDissectOption (l :: assign :: w) ⟨name, value, name.span.merge value.span⟩

/-- A setting of `ENRICH` with a known name and a known value. -/
inductive IsSetting : List Lexeme → Setting → Prop where
  | mk {opening name colon value closing : Lexeme} (hopening : opening.token.kind = .openBracket)
    (hname : name.token.kind = .setting) (hcolon : colon.token.kind = .colon)
    (hvalue : value.token.kind = .setting) (hclosing : closing.token.kind = .closeBracket)
    (hknown : Text.sameWord name.token.text "ccq.mode" = true)
    (hmode : (EnrichMode.ofName? value.token.text).isSome = true) :
    IsSetting [opening, name, colon, value, closing]
      ⟨name.token.text, value.token.text, spanOver opening.token.span [closing]⟩

/-- The settings of `ENRICH`. Only one name is known and none comes twice, so there is at most
one. -/
inductive IsSettings : List Lexeme → List Setting → Prop where
  | absent : IsSettings [] []
  | present {w : List Lexeme} {setting : Setting} (h : IsSetting w setting) :
    IsSettings w [setting]

/-- A policy, alone or behind the qualifier of a known mode. -/
inductive IsPolicy (l : Lexeme) : Policy → Prop where
  | plain (hl : l.token.kind = .policy) (h : ':' ∉ l.token.text.toList) :
    IsPolicy l ⟨none, l.token.text, l.token.span⟩
  | qualified {qualifier name : List Char} {mode : EnrichMode} (hl : l.token.kind = .policy)
    (h : l.token.text.toList = qualifier ++ ':' :: name) (hplain : ':' ∉ qualifier)
    (hmode : qualifiedMode? qualifier = some mode) :
    IsPolicy l ⟨some mode, String.ofList name, l.token.span⟩

/-- The field that rows are matched on, if one is given. -/
inductive IsMatchField : List Lexeme → Option FieldPattern → Prop where
  | absent : IsMatchField [] none
  | present {l : Lexeme} {w : List Lexeme} {field : FieldPattern}
    (hl : l.token.kind = .keyword .on) (h : IsFieldPattern w field) :
    IsMatchField (l :: w) (some field)

/-- A field that `ENRICH` adds, without wildcards. -/
inductive IsEnrichField : List Lexeme → EnrichField → Prop where
  | plain {w : List Lexeme} {field : FieldPattern} (h : IsFieldPattern w field)
    (hplain : field.hasWildcard = false) : IsEnrichField w ⟨none, field, field.span⟩
  | renamed {l : Lexeme} {w w' : List Lexeme} {newName field : FieldPattern}
    (hnew : IsFieldPattern w newName) (hl : l.token.kind = .assign)
    (h : IsFieldPattern w' field) (hplain : newName.hasWildcard = false)
    (hplain' : field.hasWildcard = false) :
    IsEnrichField (w ++ l :: w') ⟨some newName, field, newName.span.merge field.span⟩

/-- Nothing, or the word `JOIN`. -/
inductive IsJoin : List Lexeme → Bool → Prop where
  | absent : IsJoin [] false
  | present {l : Lexeme} (hl : l.token.kind = .source)
    (hword : Text.sameWord l.token.text "join" = true) : IsJoin [l] true

/-! ### Commands -/

/-- What stands behind a verb, and the command it makes at a span. `item` is what an `EXPLAIN` may
hold. -/
inductive IsBody (item : List Lexeme → Command → Prop) :
    Verb → List Lexeme → (Span → Command) → Prop where
  | «from» {w w' : List Lexeme} {sources : List IndexPattern} {metadata : Option Metadata}
    (hsources : SepBy .comma IsIndexPattern w sources) (hmetadata : IsMetadata w' metadata) :
    IsBody item .«from» (w ++ w') (.«from» sources metadata)
  | row {w : List Lexeme} {fields : List Assignment} (h : SepBy .comma IsAssignment w fields) :
    IsBody item .row w (.row fields)
  | showInfo {l : Lexeme} (hl : l.token.kind = .keyword .info) :
    IsBody item .«show» [l] .showInfo
  | explain {opening closing : Lexeme} {w : List Lexeme} {commands : List Command} {inner : Span}
    (hopening : opening.token.kind = .openBracket) (h : SepBy .pipe item w commands)
    (hclosing : closing.token.kind = .closeBracket)
    (hinner : Command.spanOf? commands = some inner) :
    IsBody item .explain (opening :: (w ++ [closing])) (.explain commands inner)
  | metrics {w w' : List Lexeme} {sources : List IndexPattern}
    {aggregations groupings : List Assignment} (hsources : SepBy .comma IsIndexPattern w sources)
    (hparts : IsStatsParts w' aggregations groupings) :
    IsBody item .metrics (w ++ w') (.metrics sources aggregations groupings)
  | eval {w : List Lexeme} {fields : List Assignment} (h : SepBy .comma IsAssignment w fields) :
    IsBody item .eval w (.eval fields)
  | «where» {w : List Lexeme} {e : Expr} (h : Derives .disjunction w e) :
    IsBody item .«where» w (.«where» e)
  | stats {w : List Lexeme} {aggregations groupings : List Assignment}
    (hparts : IsStatsParts w aggregations groupings)
    (hne : aggregations ≠ [] ∨ groupings ≠ []) :
    IsBody item .stats w (.stats aggregations groupings)
  | inlineStats {w : List Lexeme} {aggregations groupings : List Assignment}
    (hparts : IsStatsParts w aggregations groupings) (hne : aggregations ≠ []) :
    IsBody item .inlineStats w (.inlineStats aggregations groupings)
  | sort {w : List Lexeme} {keys : List SortKey} (h : SepBy .comma IsSortKey w keys) :
    IsBody item .sort w (.sort keys)
  | limit {l : Lexeme} (hl : l.token.kind = .integer) (hfits : integerOf l.token < 2 ^ 64) :
    IsBody item .limit [l] (.limit (integerOf l.token) l.token.text)
  | keep {w : List Lexeme} {fields : List FieldPattern} (h : SepBy .comma IsFieldPattern w fields) :
    IsBody item .keep w (.keep fields)
  | drop {w : List Lexeme} {fields : List FieldPattern} (h : SepBy .comma IsFieldPattern w fields)
    (hstar : ∀ field ∈ fields, field.isStar = false) : IsBody item .drop w (.drop fields)
  | rename {w : List Lexeme} {clauses : List RenameClause}
    (h : SepBy .comma IsRenameClause w clauses) : IsBody item .rename w (.rename clauses)
  | dissect {w w' : List Lexeme} {pattern : Lexeme} {e : Expr} {options : List DissectOption}
    (h : Derives .primary w e) (hpattern : pattern.token.kind = .quotedString)
    (hoptions : IsOptional IsDissectOption w' options) :
    IsBody item .dissect (w ++ pattern :: w') (.dissect e (stringOf pattern.token) options)
  | grok {w : List Lexeme} {pattern : Lexeme} {e : Expr} (h : Derives .primary w e)
    (hpattern : pattern.token.kind = .quotedString) :
    IsBody item .grok (w ++ [pattern]) (.grok e (stringOf pattern.token))
  | enrich {w w₁ w₂ : List Lexeme} {l : Lexeme} {settings : List Setting} {policy : Policy}
    {on : Option FieldPattern} {fields : List EnrichField} (hsettings : IsSettings w settings)
    (hpolicy : IsPolicy l policy) (hon : IsMatchField w₁ on)
    (hfields : IsClause .«with» IsEnrichField w₂ fields) :
    IsBody item .enrich (w ++ l :: (w₁ ++ w₂)) (.enrich settings policy on fields)
  | mvExpand {w : List Lexeme} {field : FieldName} (h : IsFieldName w field) :
    IsBody item .mvExpand w (.mvExpand field)
  | lookup {j w w' : List Lexeme} {l : Lexeme} {table : IndexPattern}
    {fields : List FieldPattern} {join : Bool} (hjoin : IsJoin j join)
    (htable : IsIndexPattern w table) (hl : l.token.kind = .keyword .on)
    (h : SepBy .comma IsFieldPattern w' fields) :
    IsBody item .lookup (j ++ (w ++ l :: w')) (.lookup table fields join)
  | «match» {l : Lexeme} (hl : l.token.kind = .quotedString) :
    IsBody item .«match» [l] (.«match» (stringOf l.token))

/-- A verb and what stands behind it. The command takes its span from both. -/
inductive IsCommand : List Lexeme → Command → Prop where
  | mk {l : Lexeme} {verb : Verb} {w : List Lexeme} {make : Span → Command}
    {item : List Lexeme → Command → Prop} (hverb : l.token.kind = .command verb)
    (hbody : IsBody item verb w make) (hitem : ∀ w c, item w c → IsCommand w c) :
    IsCommand (l :: w) (make (spanOver l.token.span (l :: w)))

/-- Whatever the span, the body makes a command of its verb there. -/
theorem IsBody.span_eq {item : List Lexeme → Command → Prop} {verb : Verb} {w : List Lexeme}
    {make : Span → Command} (h : IsBody item verb w make) (span : Span) :
    (make span).span = span := by
  cases h <;> rfl

/-- A body makes a command of its verb. -/
theorem IsBody.verb_eq {item : List Lexeme → Command → Prop} {verb : Verb} {w : List Lexeme}
    {make : Span → Command} (h : IsBody item verb w make) (span : Span) :
    (make span).verb = verb := by
  cases h <;> rfl

end PipeQuery.Parser
