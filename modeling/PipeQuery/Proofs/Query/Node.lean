import PipeQuery.Query.Command

/-!
# `PipeQuery.Proofs.Query.Node`: a query as a tree

A query is made of eighteen kinds of things that have a place in the text. `Node` brings them
together, and `Node.children` says what each of them holds, in the order of the text. What is true
of every part of a query can then be said once, of the nodes that the root contains.
-/

set_option autoImplicit false

namespace PipeQuery

/-- A part of a query that has a place in the text. -/
inductive Node where
  | query (commands : List Command) (span : Span)
  | command (command : Command)
  | metadata (metadata : Metadata)
  | assignment (assignment : Assignment)
  | sortKey (key : SortKey)
  | renameClause (clause : RenameClause)
  | dissectOption (option : DissectOption)
  | setting (setting : Setting)
  | policy (policy : Policy)
  | enrichField (field : EnrichField)
  | indexPattern (pattern : IndexPattern)
  | source (source : Source)
  | fieldName (name : FieldName)
  | fieldPattern (pattern : FieldPattern)
  | namePattern (pattern : NamePattern)
  | identifier (id : Identifier)
  | parameter (param : Parameter) (span : Span)
  | expr (e : Expr)

/-- A part of a field name is an identifier or a parameter. -/
def NamePart.node : NamePart → Node
  | .identifier id => .identifier id
  | .parameter param span => .parameter param span

/-- A part of a field pattern is a pattern or a parameter. -/
def PatternPart.node : PatternPart → Node
  | .pattern p => .namePattern p
  | .parameter param span => .parameter param span

/-- What an expression holds. -/
def Expr.children : Expr → List Node
  | .literal .. | .parameter .. => []
  | .field name _ => [.fieldName name]
  | .call name args _ => name.node :: args.map .expr
  | .binary left _ right _ => [.expr left, .expr right]
  | .unary _ e _ | .isNull e _ _ => [.expr e]
  | .cast e type _ => [.expr e, .identifier type]
  | .list items _ _ => items.map .expr
  | .inList e items _ _ => .expr e :: items.map .expr
  | .like e pattern _ _ _ => [.expr e, .expr pattern]
  | .«match» e query _ => [.expr e, .expr query]

/-- What a command holds. -/
def Command.children : Command → List Node
  | .«from» sources metadata _ => sources.map .indexPattern ++ metadata.toList.map .metadata
  | .row fields _ | .eval fields _ => fields.map .assignment
  | .showInfo _ | .limit .. => []
  | .explain commands inner _ => [.query commands inner]
  | .metrics sources aggregations groupings _ =>
    sources.map .indexPattern ++ (aggregations.map .assignment ++ groupings.map .assignment)
  | .«where» condition _ => [.expr condition]
  | .stats aggregations groupings _ | .inlineStats aggregations groupings _ =>
    aggregations.map .assignment ++ groupings.map .assignment
  | .sort keys _ => keys.map .sortKey
  | .keep fields _ | .drop fields _ => fields.map .fieldPattern
  | .rename clauses _ => clauses.map .renameClause
  | .dissect input pattern options _ =>
    .expr input :: .expr pattern :: options.map .dissectOption
  | .grok input pattern _ => [.expr input, .expr pattern]
  | .enrich settings policy on fields _ =>
    settings.map .setting ++
      .policy policy :: (on.toList.map .fieldPattern ++ fields.map .enrichField)
  | .mvExpand field _ => [.fieldName field]
  | .lookup table matchFields _ _ => .indexPattern table :: matchFields.map .fieldPattern
  | .«match» query _ => [.expr query]

namespace Node

/-- The place of the node. -/
def span : Node → Span
  | .query _ span | .parameter _ span => span
  | .command c => c.span
  | .metadata m => m.span
  | .assignment a => a.span
  | .sortKey k => k.span
  | .renameClause c => c.span
  | .dissectOption o => o.span
  | .setting s => s.span
  | .policy p => p.span
  | .enrichField f => f.span
  | .indexPattern p => p.span
  | .source s => s.span
  | .fieldName n => n.span
  | .fieldPattern p => p.span
  | .namePattern p => p.span
  | .identifier id => id.span
  | .expr e => e.span

/-- What the node holds, in the order of the text. -/
def children : Node → List Node
  | .query commands _ => commands.map .command
  | .command c => c.children
  | .metadata m => m.fields.map .source
  | .assignment a => a.target.toList.map .fieldName ++ [.expr a.value]
  | .sortKey k => [.expr k.expr]
  | .renameClause c =>
    match c.form with
    | .as => [.fieldPattern c.oldName, .fieldPattern c.newName]
    | .assign => [.fieldPattern c.newName, .fieldPattern c.oldName]
  | .dissectOption o => [.identifier o.name, .expr o.value]
  | .enrichField f => f.newName.toList.map .fieldPattern ++ [.fieldPattern f.field]
  | .indexPattern p => p.cluster.toList.map .source ++ [.source p.index]
  | .fieldName n => n.parts.map NamePart.node
  | .fieldPattern p => p.parts.map PatternPart.node
  | .expr e => e.children
  | .setting _ | .policy _ | .source _ | .namePattern _ | .identifier _ | .parameter .. => []

/-- The node is the root, or a child of a node that the root contains. -/
inductive Contains (root : Node) : Node → Prop where
  | root : Contains root root
  | child {parent child : Node} (hparent : Contains root parent)
    (hchild : child ∈ parent.children) : Contains root child

end Node

/-- A query as the root of its tree. -/
def Query.node (q : Query) : Node :=
  .query q.commands q.span

/-- The node of a part of a name has the span of the part. -/
@[simp]
theorem NamePart.span_node (part : NamePart) : part.node.span = part.span := by
  cases part <;> rfl

/-- The node of a part of a pattern has the span of the part. -/
@[simp]
theorem PatternPart.span_node (part : PatternPart) : part.node.span = part.span := by
  cases part <;> rfl

/-! ### The shape of a tree -/

/-- The argument of `count(*)`. -/
def Expr.isStar : Expr → Bool
  | .literal .star _ => true
  | _ => false

/-- The node is the argument of `count(*)`. -/
def Node.isStar : Node → Bool
  | .expr e => e.isStar
  | _ => false

namespace Node

/-- The node holds no star, unless it is a call with the star as its only argument. -/
def KeepsStar (node : Node) : Prop :=
  ∀ e : Expr, .expr e ∈ node.children → e.isStar = true →
    ∃ name span, node = .expr (.call name [e] span)

/-- What the kind of a node promises of its parts: two items between parentheses, one behind `IN`,
strings where patterns and queries stand, and no field name that is a single parameter. -/
def HasShape : Node → Prop
  | .expr (.list items .paren _) => 2 ≤ items.length
  | .expr (.inList _ items _ _) => 1 ≤ items.length
  | .expr (.like _ p _ _ _) | .expr (.«match» _ p _) => p.isString = true
  | .expr (.field name _) => ∀ param span, name.parts ≠ [.parameter param span]
  | .command (.dissect _ p _ _) | .command (.grok _ p _) => p.isString = true
  | _ => True

/-- It is enough that no child is a star. -/
theorem keepsStar_of_forall {node : Node}
    (h : ∀ e : Expr, .expr e ∈ node.children → e.isStar = false) : node.KeepsStar := by
  intro e he hstar
  rw [h e he] at hstar
  cases hstar

end Node

end PipeQuery
