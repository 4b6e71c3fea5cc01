import PipeQuery.Decimal.Shortest
import PipeQuery.Json.Basic
import PipeQuery.Parse
import PipeQuery.Token.Label

/-!
# `PipeQuery.Json.Query`: queries as JSON

The JSON form of everything a parse produces. A value of a type with several forms begins with the
field that names the form: `command` for commands, `node` for expressions, `kind` elsewhere.
-/

set_option autoImplicit false

namespace PipeQuery

/-- A span as JSON. -/
def Span.toJson (s : Span) : Json :=
  .object [("start", .nat s.start), ("end", .nat s.stop)]

/-- A token as JSON. -/
def Token.toJson (t : Token) : Json :=
  .object
    [("kind", .string t.kind.label), ("text", .string t.text), ("span", t.span.toJson),
      ("line", .nat t.line), ("col", .nat t.col), ("channel", .string t.channel.label)]

/-- The kind of a diagnostic as it is named in JSON. -/
def Diagnostic.Kind.code : Diagnostic.Kind → String
  | .lexical => "lexical"
  | .unknownCommand => "unknown_command"
  | .grammar => "syntax"
  | .structural => "structural"

/-- A diagnostic as JSON. -/
def Diagnostic.toJson (d : Diagnostic) : Json :=
  .object
    [("kind", .string d.kind.code), ("severity", .string d.severity.label),
      ("message", .string d.message), ("span", d.span.toJson), ("line", .nat d.line),
      ("col", .nat d.col)]

/-! ### Names -/

/-- The fields of an identifier. -/
def Identifier.jsonFields (id : Identifier) : List (String × Json) :=
  [("name", .string id.name), ("quoted", .bool id.quoted), ("span", id.span.toJson)]

/-- An identifier as JSON. -/
def Identifier.toJson (id : Identifier) : Json :=
  .object id.jsonFields

/-- A parameter as JSON. -/
def Parameter.toJson : Parameter → Json
  | .anonymous => .object [("kind", .string "anonymous")]
  | .named name => .object [("kind", .string "named"), ("value", .string name)]
  | .positional index => .object [("kind", .string "positional"), ("value", .nat index)]

/-- A parameter in place of a name, as JSON. -/
def Parameter.partJson (param : Parameter) (span : Span) : Json :=
  .object [("kind", .string "parameter"), ("param", param.toJson), ("span", span.toJson)]

/-- A part of a field name as JSON. -/
def NamePart.toJson : NamePart → Json
  | .identifier id => .object (("kind", .string "identifier") :: id.jsonFields)
  | .parameter param span => param.partJson span

/-- A field name as JSON. -/
def FieldName.toJson (f : FieldName) : Json :=
  .object [("parts", .list NamePart.toJson f.parts), ("span", f.span.toJson)]

/-- A part of a field pattern as JSON. -/
def PatternPart.toJson : PatternPart → Json
  | .pattern p =>
    .object
      [("kind", .string "pattern"), ("pattern", .string p.pattern), ("raw", .string p.raw),
        ("span", p.span.toJson)]
  | .parameter param span => param.partJson span

/-- A field pattern as JSON. -/
def FieldPattern.toJson (f : FieldPattern) : Json :=
  .object [("parts", .list PatternPart.toJson f.parts), ("span", f.span.toJson)]

/-- A source as JSON. -/
def Source.toJson (s : Source) : Json :=
  .object [("name", .string s.name), ("quoted", .bool s.quoted), ("span", s.span.toJson)]

/-- An index pattern as JSON. -/
def IndexPattern.toJson (p : IndexPattern) : Json :=
  .object
    [("cluster", .option Source.toJson p.cluster), ("index", p.index.toJson),
      ("span", p.span.toJson)]

/-! ### Expressions -/

/-- A double as JSON; there is no number for infinity. -/
def Binary64.toJson (x : Binary64) : Json :=
  .option .number x.render?

/-- A literal as JSON. -/
def Literal.toJson : Literal → Json
  | .null => .object [("kind", .string "null")]
  | .boolean value => .object [("kind", .string "boolean"), ("value", .bool value)]
  | .integer raw value =>
    .object [("kind", .string "integer"), ("raw", .string raw), ("value", .nat value)]
  | .decimal raw value =>
    .object [("kind", .string "decimal"), ("raw", .string raw), ("value", value.toJson)]
  | .quantity raw value unit =>
    .object
      [("kind", .string "qualified_integer"), ("raw", .string raw), ("value", .nat value),
        ("unit", .string unit)]
  | .string raw value =>
    .object [("kind", .string "string"), ("raw", .string raw), ("value", .string value)]
  | .star => .object [("kind", .string "star")]

/-- The binary operator as it is named in JSON. -/
def BinaryOp.code : BinaryOp → String
  | .add => "add"
  | .subtract => "subtract"
  | .multiply => "multiply"
  | .divide => "divide"
  | .modulo => "modulo"
  | .eq => "eq"
  | .insensitiveEq => "insensitive_eq"
  | .ne => "ne"
  | .lt => "lt"
  | .le => "le"
  | .gt => "gt"
  | .ge => "ge"
  | .and => "and"
  | .or => "or"

/-- The unary operator as it is named in JSON. -/
def UnaryOp.code : UnaryOp → String
  | .negate => "negate"
  | .plus => "plus"
  | .not => "not"

/-- The pattern operator as it is named in JSON. -/
def LikeOp.code : LikeOp → String
  | .like => "like"
  | .rlike => "rlike"

/-- The delimiter as it is named in JSON. -/
def Delimiter.code : Delimiter → String
  | .bracket => "bracket"
  | .paren => "paren"

namespace Expr

/-- An expression of some form as JSON. -/
def node (form : String) (fields : List (String × Json)) (span : Span) : Json :=
  .object (("node", .string form) :: fields ++ [("span", span.toJson)])

mutual

/-- An expression as JSON. -/
def toJson : Expr → Json
  | .literal l span => node "literal" [("literal", l.toJson)] span
  | .field name span => node "field" [("name", name.toJson)] span
  | .parameter param span => node "parameter" [("param", param.toJson)] span
  | .call name args span =>
    node "function_call" [("name", name.toJson), ("args", .array (toJsons args))] span
  | .binary left op right span =>
    node "binary_op" [("left", toJson left), ("op", .string op.code), ("right", toJson right)] span
  | .unary op e span => node "unary_op" [("op", .string op.code), ("expr", toJson e)] span
  | .cast e type span => node "cast" [("expr", toJson e), ("data_type", type.toJson)] span
  | .list items delimiter span =>
    node "list" [("items", .array (toJsons items)), ("delimiter", .string delimiter.code)] span
  | .inList e items negated span =>
    node "in" [("expr", toJson e), ("list", .array (toJsons items)), ("not", .bool negated)] span
  | .like e pattern op negated span =>
    node "like"
      [("expr", toJson e), ("pattern", toJson pattern), ("op", .string op.code),
        ("not", .bool negated)]
      span
  | .isNull e negated span => node "is_null" [("expr", toJson e), ("not", .bool negated)] span
  | .«match» e query span => node "match" [("expr", toJson e), ("query", toJson query)] span

/-- Expressions as JSON, one by one. -/
def toJsons : List Expr → List Json
  | [] => []
  | e :: es => toJson e :: toJsons es

end

end Expr

/-! ### Commands -/

/-- An assignment as JSON. -/
def Assignment.toJson (a : Assignment) : Json :=
  .object
    [("target", .option FieldName.toJson a.target), ("value", a.value.toJson),
      ("span", a.span.toJson)]

/-- A metadata clause as JSON. -/
def Metadata.toJson (m : Metadata) : Json :=
  .object
    [("fields", .list Source.toJson m.fields), ("bracketed", .bool m.bracketed),
      ("span", m.span.toJson)]

/-- The direction as it is named in JSON. -/
def Direction.code : Direction → String
  | .asc => "asc"
  | .desc => "desc"

/-- The order of nulls as it is named in JSON. -/
def NullsOrder.code : NullsOrder → String
  | .first => "first"
  | .last => "last"

/-- A sort key as JSON. -/
def SortKey.toJson (k : SortKey) : Json :=
  .object
    [("expr", k.expr.toJson), ("direction", .option (fun d => .string d.code) k.direction),
      ("nulls", .option (fun n => .string n.code) k.nulls), ("span", k.span.toJson)]

/-- The spelling of a renaming as it is named in JSON. -/
def RenameForm.code : RenameForm → String
  | .as => "as"
  | .assign => "assign"

/-- A renaming as JSON. -/
def RenameClause.toJson (c : RenameClause) : Json :=
  .object
    [("old_name", c.oldName.toJson), ("new_name", c.newName.toJson),
      ("syntax", .string c.form.code), ("span", c.span.toJson)]

/-- An option of `DISSECT` as JSON. -/
def DissectOption.toJson (o : DissectOption) : Json :=
  .object [("name", o.name.toJson), ("value", o.value.toJson), ("span", o.span.toJson)]

/-- A setting as JSON. -/
def Setting.toJson (s : Setting) : Json :=
  .object [("name", .string s.name), ("value", .string s.value), ("span", s.span.toJson)]

/-- A policy as JSON. -/
def Policy.toJson (p : Policy) : Json :=
  .object
    [("mode", .option (fun mode => .string mode.text) p.mode), ("name", .string p.name),
      ("span", p.span.toJson)]

/-- A field of `ENRICH` as JSON. -/
def EnrichField.toJson (f : EnrichField) : Json :=
  .object
    [("new_name", .option FieldPattern.toJson f.newName), ("field", f.field.toJson),
      ("span", f.span.toJson)]

namespace Command

/-- A command of some form as JSON. -/
def node (form : String) (fields : List (String × Json)) (span : Span) : Json :=
  .object (("command", .string form) :: fields ++ [("span", span.toJson)])

/-- Aggregations and groupings as fields. -/
def statsFields (aggregations groupings : List Assignment) : List (String × Json) :=
  [("aggregations", .list Assignment.toJson aggregations),
    ("groupings", .list Assignment.toJson groupings)]

mutual

/-- A command as JSON. -/
def toJson : Command → Json
  | .«from» sources metadata span =>
    node "from"
      [("sources", .list IndexPattern.toJson sources),
        ("metadata", .option Metadata.toJson metadata)]
      span
  | .row fields span => node "row" [("fields", .list Assignment.toJson fields)] span
  | .showInfo span => node "show" [("item", .string "info")] span
  | .explain commands inner span =>
    node "explain"
      [("query", .object [("commands", .array (toJsons commands)), ("span", inner.toJson)])] span
  | .metrics sources aggregations groupings span =>
    node "metrics"
      (("sources", .list IndexPattern.toJson sources) :: statsFields aggregations groupings) span
  | .eval fields span => node "eval" [("fields", .list Assignment.toJson fields)] span
  | .«where» condition span => node "where" [("condition", condition.toJson)] span
  | .stats aggregations groupings span => node "stats" (statsFields aggregations groupings) span
  | .inlineStats aggregations groupings span =>
    node "inline_stats" (statsFields aggregations groupings) span
  | .sort keys span => node "sort" [("keys", .list SortKey.toJson keys)] span
  | .limit count raw span => node "limit" [("count", .nat count), ("raw", .string raw)] span
  | .keep fields span => node "keep" [("fields", .list FieldPattern.toJson fields)] span
  | .drop fields span => node "drop" [("fields", .list FieldPattern.toJson fields)] span
  | .rename clauses span => node "rename" [("clauses", .list RenameClause.toJson clauses)] span
  | .dissect input pattern options span =>
    node "dissect"
      [("input", input.toJson), ("pattern", pattern.toJson),
        ("options", .list DissectOption.toJson options)]
      span
  | .grok input pattern span =>
    node "grok" [("input", input.toJson), ("pattern", pattern.toJson)] span
  | .enrich settings policy on fields span =>
    node "enrich"
      [("settings", .list Setting.toJson settings), ("policy", policy.toJson),
        ("on", .option FieldPattern.toJson on), ("with", .list EnrichField.toJson fields)]
      span
  | .mvExpand field span => node "mv_expand" [("field", field.toJson)] span
  | .lookup table matchFields join span =>
    node "lookup"
      [("table", table.toJson), ("match_fields", .list FieldPattern.toJson matchFields),
        ("join", .bool join)]
      span
  | .«match» query span => node "match" [("query", query.toJson)] span

/-- Commands as JSON, one by one. -/
def toJsons : List Command → List Json
  | [] => []
  | c :: cs => toJson c :: toJsons cs

end

end Command

/-- A query as JSON. -/
def Query.toJson (q : Query) : Json :=
  .object [("commands", .array (Command.toJsons q.commands)), ("span", q.span.toJson)]

/-- All that a parse produces as JSON. -/
def Parsed.toJson (p : Parsed) : Json :=
  .object
    [("query", p.query.toJson), ("diagnostics", .list Diagnostic.toJson p.diagnostics),
      ("tokens", .list Token.toJson p.tokens),
      ("final_modes", .list (fun mode => .string mode.label) p.modes)]

end PipeQuery
