import PipeQuery.Query.Command

/-!
# `PipeQuery.Proofs.Query.Spans`: trees with other spans

`mapSpans f` puts `f span` in place of every span of a tree and keeps all else. Two trees are equal
up to their spans if a function that forgets the span makes them equal. What the parser asks of a
tree, its span apart, has the same answer whatever the spans are, and so has its text.
`mapSpans_id` says for each sort of tree that to keep every span keeps the tree.
-/

set_option autoImplicit false

namespace PipeQuery

variable (f : Span → Span)

/-! ### Names -/

/-- The identifier with its span replaced. -/
def Identifier.mapSpans (id : Identifier) : Identifier :=
  { id with span := f id.span }

/-- The part of a name with its span replaced, and that of the identifier in it. -/
def NamePart.mapSpans : NamePart → NamePart
  | .identifier id => .identifier (id.mapSpans f)
  | .parameter param span => .parameter param (f span)

/-- The name with its span and those of its parts replaced. -/
def FieldName.mapSpans (name : FieldName) : FieldName :=
  ⟨name.parts.map (NamePart.mapSpans f), f name.span⟩

/-- The pattern with its span replaced. -/
def NamePattern.mapSpans (p : NamePattern) : NamePattern :=
  { p with span := f p.span }

/-- The part of a pattern with its span replaced. -/
def PatternPart.mapSpans : PatternPart → PatternPart
  | .pattern p => .pattern (p.mapSpans f)
  | .parameter param span => .parameter param (f span)

/-- The field pattern with its span and those of its parts replaced. -/
def FieldPattern.mapSpans (pattern : FieldPattern) : FieldPattern :=
  ⟨pattern.parts.map (PatternPart.mapSpans f), f pattern.span⟩

/-- The source with its span replaced. -/
def Source.mapSpans (s : Source) : Source :=
  { s with span := f s.span }

/-- The index pattern with the spans of its cluster, of its index and of itself replaced. -/
def IndexPattern.mapSpans (p : IndexPattern) : IndexPattern :=
  ⟨p.cluster.map (Source.mapSpans f), p.index.mapSpans f, f p.span⟩

/-- The text of an identifier does not show where it was read. -/
@[simp]
theorem Identifier.render_mapSpans (id : Identifier) : (id.mapSpans f).render = id.render := rfl

/-- A part's span is the one span that was put in for it, whichever form the part has. -/
@[simp]
theorem NamePart.span_mapSpans (part : NamePart) : (part.mapSpans f).span = f part.span := by
  cases part <;> rfl

/-- The text of a part of a name does not show where it was read. -/
@[simp]
theorem NamePart.render_mapSpans (part : NamePart) : (part.mapSpans f).render = part.render := by
  cases part <;> rfl

/-- Nor does the text of a name. -/
@[simp]
theorem FieldName.render_mapSpans (name : FieldName) : (name.mapSpans f).render = name.render := by
  simp [FieldName.render, mapSpans, Function.comp_def]

/-- The span of a part of a pattern is the one put in for it. -/
@[simp]
theorem PatternPart.span_mapSpans (part : PatternPart) : (part.mapSpans f).span = f part.span := by
  cases part <;> rfl

/-- Whether a part has a wildcard is a question about its pieces, which are kept. -/
@[simp]
theorem PatternPart.hasWildcard_mapSpans (part : PatternPart) :
    (part.mapSpans f).hasWildcard = part.hasWildcard := by
  cases part <;> rfl

/-- The text of a part of a pattern does not show where it was read. -/
@[simp]
theorem PatternPart.render_mapSpans (part : PatternPart) :
    (part.mapSpans f).render = part.render := by
  cases part <;> rfl

/-- A field pattern has a wildcard in one of its parts or in none, wherever they stand. -/
@[simp]
theorem FieldPattern.hasWildcard_mapSpans (pattern : FieldPattern) :
    (pattern.mapSpans f).hasWildcard = pattern.hasWildcard := by
  simp [FieldPattern.hasWildcard, mapSpans, Function.comp_def]

/-- Nor does the text of a field pattern show where it was read. -/
@[simp]
theorem FieldPattern.render_mapSpans (pattern : FieldPattern) :
    (pattern.mapSpans f).render = pattern.render := by
  simp [FieldPattern.render, mapSpans, Function.comp_def]

/-- Being the bare `*` is a question about the text, so `DROP` and `KEEP` answer it the same. -/
@[simp]
theorem FieldPattern.isStar_mapSpans (pattern : FieldPattern) :
    (pattern.mapSpans f).isStar = pattern.isStar := by
  obtain ⟨parts, span⟩ := pattern
  match parts with
  | [] => rfl
  | [.pattern _] => rfl
  | [.parameter ..] => rfl
  | .pattern _ :: _ :: _ => rfl
  | .parameter .. :: _ :: _ => rfl

/-- Putting every span in its own place changes no identifier. -/
@[simp]
theorem Identifier.mapSpans_id : Identifier.mapSpans id = id := rfl

/-- It changes no part of a name. -/
@[simp]
theorem NamePart.mapSpans_id : NamePart.mapSpans id = id := by
  funext part
  cases part <;> rfl

/-- It changes no name. -/
@[simp]
theorem FieldName.mapSpans_id : FieldName.mapSpans id = id := by
  funext name
  simp [mapSpans]

/-- It changes no part of a pattern. -/
@[simp]
theorem PatternPart.mapSpans_id : PatternPart.mapSpans id = id := by
  funext part
  cases part <;> rfl

/-- It changes no field pattern. -/
@[simp]
theorem FieldPattern.mapSpans_id : FieldPattern.mapSpans id = id := by
  funext pattern
  simp [mapSpans]

/-- It changes no source. -/
@[simp]
theorem Source.mapSpans_id : Source.mapSpans id = id := rfl

/-- It changes no index pattern. -/
@[simp]
theorem IndexPattern.mapSpans_id : IndexPattern.mapSpans id = id := by
  funext p
  simp [mapSpans]

/-! ### Expressions -/

namespace Expr

mutual

/-- The expression with every span in it replaced, down to the names and the literals. -/
def mapSpans : Expr → Expr
  | .literal l span => .literal l (f span)
  | .field name span => .field (name.mapSpans f) (f span)
  | .parameter param span => .parameter param (f span)
  | .call name args span => .call (name.mapSpans f) (mapSpansAll args) (f span)
  | .binary left op right span => .binary (mapSpans left) op (mapSpans right) (f span)
  | .unary op e span => .unary op (mapSpans e) (f span)
  | .cast e type span => .cast (mapSpans e) (type.mapSpans f) (f span)
  | .list items delimiter span => .list (mapSpansAll items) delimiter (f span)
  | .inList e items negated span => .inList (mapSpans e) (mapSpansAll items) negated (f span)
  | .like e pattern op negated span => .like (mapSpans e) (mapSpans pattern) op negated (f span)
  | .isNull e negated span => .isNull (mapSpans e) negated (f span)
  | .«match» e query span => .«match» (mapSpans e) (mapSpans query) (f span)

/-- The expressions of a list, each with its spans replaced. -/
def mapSpansAll : List Expr → List Expr
  | [] => []
  | e :: es => mapSpans e :: mapSpansAll es

end

/-- The replacement in a list is the replacement in each of its expressions. -/
theorem mapSpansAll_eq_map (es : List Expr) : mapSpansAll f es = es.map (mapSpans f) := by
  induction es with
  | nil => rfl
  | cons e es ih => rw [mapSpansAll, ih, List.map_cons]

/-- The span of the whole expression is the one put in for it. -/
@[simp]
theorem span_mapSpans (e : Expr) : (e.mapSpans f).span = f e.span := by
  cases e <;> rfl

/-- Being a string literal does not depend on the span. -/
@[simp]
theorem isString_mapSpans (e : Expr) : (e.mapSpans f).isString = e.isString := by
  cases e with
  | literal l => cases l <;> rfl
  | _ => rfl

/-- Nor does needing parentheses in the rendered text. -/
@[simp]
theorem isCompound_mapSpans (e : Expr) : (e.mapSpans f).isCompound = e.isCompound := by
  cases e <;> rfl

mutual

/-- The rendered text has no spans in it, so it stays as it is. -/
@[simp]
theorem render_mapSpans (e : Expr) : (e.mapSpans f).render = e.render := by
  cases e with
  | literal | parameter => rfl
  | field name => simp [mapSpans, render]
  | call name args => simp [mapSpans, render, renderAll_mapSpansAll args]
  | binary left op right =>
      simp [mapSpans, render, render_mapSpans left, render_mapSpans right]
  | unary op e => simp [mapSpans, render, render_mapSpans e]
  | cast e type => simp [mapSpans, render, render_mapSpans e]
  | list items delimiter =>
      cases delimiter <;> simp [mapSpans, render, renderAll_mapSpansAll items]
  | inList e items => simp [mapSpans, render, render_mapSpans e, renderAll_mapSpansAll items]
  | like e pattern => simp [mapSpans, render, render_mapSpans e, render_mapSpans pattern]
  | isNull e => simp [mapSpans, render, render_mapSpans e]
  | «match» e query => simp [mapSpans, render, render_mapSpans e, render_mapSpans query]

/-- The same of the texts of a list. -/
theorem renderAll_mapSpansAll (es : List Expr) :
    renderAll (mapSpansAll f es) = renderAll es := by
  cases es with
  | nil => rfl
  | cons e es =>
      rw [mapSpansAll, renderAll, render_mapSpans e, renderAll_mapSpansAll es, renderAll]

end

mutual

/-- Putting every span in its own place changes no expression. -/
theorem mapSpans_id_apply (e : Expr) : e.mapSpans id = e := by
  cases e with
  | literal | parameter => rfl
  | field name => simp [mapSpans]
  | call name args => simp [mapSpans, mapSpansAll_id_apply args]
  | binary left op right => simp [mapSpans, mapSpans_id_apply left, mapSpans_id_apply right]
  | unary op e => simp [mapSpans, mapSpans_id_apply e]
  | cast e type => simp [mapSpans, mapSpans_id_apply e]
  | list items => simp [mapSpans, mapSpansAll_id_apply items]
  | inList e items => simp [mapSpans, mapSpans_id_apply e, mapSpansAll_id_apply items]
  | like e pattern => simp [mapSpans, mapSpans_id_apply e, mapSpans_id_apply pattern]
  | isNull e => simp [mapSpans, mapSpans_id_apply e]
  | «match» e query => simp [mapSpans, mapSpans_id_apply e, mapSpans_id_apply query]

/-- It changes no list of expressions. -/
theorem mapSpansAll_id_apply (es : List Expr) : mapSpansAll id es = es := by
  cases es with
  | nil => rfl
  | cons e es => rw [mapSpansAll, mapSpans_id_apply e, mapSpansAll_id_apply es]

end

/-- The two lemmas above as an equation of functions, for use under a `map`. -/
@[simp]
theorem mapSpans_id : Expr.mapSpans id = id :=
  funext mapSpans_id_apply

end Expr

/-! ### Commands -/

/-- The metadata with the spans of the fields and of the whole replaced. -/
def Metadata.mapSpans (m : Metadata) : Metadata :=
  ⟨m.fields.map (Source.mapSpans f), m.bracketed, f m.span⟩

/-- The assignment with the spans of target, value and whole replaced. -/
def Assignment.mapSpans (a : Assignment) : Assignment :=
  ⟨a.target.map (FieldName.mapSpans f), a.value.mapSpans f, f a.span⟩

/-- The sort key with the spans of its expression and of itself replaced. -/
def SortKey.mapSpans (key : SortKey) : SortKey :=
  { key with expr := key.expr.mapSpans f, span := f key.span }

/-- The clause with the spans of both names and of itself replaced. -/
def RenameClause.mapSpans (c : RenameClause) : RenameClause :=
  ⟨c.oldName.mapSpans f, c.newName.mapSpans f, c.form, f c.span⟩

/-- The option with the spans of its value and of itself replaced. -/
def DissectOption.mapSpans (o : DissectOption) : DissectOption :=
  ⟨o.name.mapSpans f, o.value.mapSpans f, f o.span⟩

/-- The setting with its span replaced. -/
def Setting.mapSpans (s : Setting) : Setting :=
  { s with span := f s.span }

/-- The policy with its span replaced. -/
def Policy.mapSpans (p : Policy) : Policy :=
  { p with span := f p.span }

/-- The added field with the spans of its names and of itself replaced. -/
def EnrichField.mapSpans (e : EnrichField) : EnrichField :=
  ⟨e.newName.map (FieldPattern.mapSpans f), e.field.mapSpans f, f e.span⟩

/-- Putting every span in its own place changes no metadata. -/
@[simp]
theorem Metadata.mapSpans_id : Metadata.mapSpans id = id := by
  funext m
  simp [mapSpans]

/-- It changes no assignment. -/
@[simp]
theorem Assignment.mapSpans_id : Assignment.mapSpans id = id := by
  funext a
  simp [mapSpans]

/-- It changes no sort key. -/
@[simp]
theorem SortKey.mapSpans_id : SortKey.mapSpans id = id := by
  funext key
  simp [mapSpans]

/-- It changes no renaming. -/
@[simp]
theorem RenameClause.mapSpans_id : RenameClause.mapSpans id = id := by
  funext c
  simp [mapSpans]

/-- It changes no option of `DISSECT`. -/
@[simp]
theorem DissectOption.mapSpans_id : DissectOption.mapSpans id = id := by
  funext o
  simp [mapSpans]

/-- It changes no setting. -/
@[simp]
theorem Setting.mapSpans_id : Setting.mapSpans id = id := rfl

/-- It changes no policy. -/
@[simp]
theorem Policy.mapSpans_id : Policy.mapSpans id = id := rfl

/-- It changes no field of `ENRICH`. -/
@[simp]
theorem EnrichField.mapSpans_id : EnrichField.mapSpans id = id := by
  funext e
  simp [mapSpans]

namespace Command

mutual

/-- The command with every span in it replaced, through the commands of an `EXPLAIN`. -/
def mapSpans : Command → Command
  | .«from» sources metadata span =>
    .«from» (sources.map (IndexPattern.mapSpans f)) (metadata.map (Metadata.mapSpans f)) (f span)
  | .row fields span => .row (fields.map (Assignment.mapSpans f)) (f span)
  | .showInfo span => .showInfo (f span)
  | .explain commands inner span => .explain (mapSpansAll commands) (f inner) (f span)
  | .metrics sources aggregations groupings span =>
    .metrics (sources.map (IndexPattern.mapSpans f)) (aggregations.map (Assignment.mapSpans f))
      (groupings.map (Assignment.mapSpans f)) (f span)
  | .eval fields span => .eval (fields.map (Assignment.mapSpans f)) (f span)
  | .«where» condition span => .«where» (condition.mapSpans f) (f span)
  | .stats aggregations groupings span =>
    .stats (aggregations.map (Assignment.mapSpans f)) (groupings.map (Assignment.mapSpans f))
      (f span)
  | .inlineStats aggregations groupings span =>
    .inlineStats (aggregations.map (Assignment.mapSpans f))
      (groupings.map (Assignment.mapSpans f)) (f span)
  | .sort keys span => .sort (keys.map (SortKey.mapSpans f)) (f span)
  | .limit count raw span => .limit count raw (f span)
  | .keep fields span => .keep (fields.map (FieldPattern.mapSpans f)) (f span)
  | .drop fields span => .drop (fields.map (FieldPattern.mapSpans f)) (f span)
  | .rename clauses span => .rename (clauses.map (RenameClause.mapSpans f)) (f span)
  | .dissect input pattern options span =>
    .dissect (input.mapSpans f) (pattern.mapSpans f) (options.map (DissectOption.mapSpans f))
      (f span)
  | .grok input pattern span => .grok (input.mapSpans f) (pattern.mapSpans f) (f span)
  | .enrich settings policy on fields span =>
    .enrich (settings.map (Setting.mapSpans f)) (policy.mapSpans f)
      (on.map (FieldPattern.mapSpans f)) (fields.map (EnrichField.mapSpans f)) (f span)
  | .mvExpand field span => .mvExpand (field.mapSpans f) (f span)
  | .lookup table matchFields join span =>
    .lookup (table.mapSpans f) (matchFields.map (FieldPattern.mapSpans f)) join (f span)
  | .«match» query span => .«match» (query.mapSpans f) (f span)

/-- The commands of a list, each with its spans replaced. -/
def mapSpansAll : List Command → List Command
  | [] => []
  | c :: cs => mapSpans c :: mapSpansAll cs

end

/-- The replacement in a list is the replacement in each of its commands. -/
theorem mapSpansAll_eq_map (cs : List Command) : mapSpansAll f cs = cs.map (mapSpans f) := by
  induction cs with
  | nil => rfl
  | cons c cs ih => rw [mapSpansAll, ih, List.map_cons]

/-- The span of the whole command is the one put in for it. -/
@[simp]
theorem span_mapSpans (c : Command) : (c.mapSpans f).span = f c.span := by
  cases c <;> rfl

/-- A pipeline's place goes with those of its commands if `f` keeps smallest covers. -/
theorem spanOf?_map_mapSpans (hmerge : ∀ a b : Span, f (a.merge b) = (f a).merge (f b))
    (cs : List Command) : spanOf? (cs.map (mapSpans f)) = (spanOf? cs).map f := by
  cases cs with
  | nil => rfl
  | cons c cs =>
      simp only [List.map_cons, spanOf?, Option.map_some, List.getLast?_map, span_mapSpans, hmerge]
      cases cs.getLast? <;> simp

mutual

/-- Putting every span in its own place changes no command. -/
theorem mapSpans_id_apply (c : Command) : c.mapSpans id = c := by
  cases c with
  | explain commands => simp [mapSpans, mapSpansAll_id_apply commands]
  | _ => simp [mapSpans]

/-- It changes no list of commands. -/
theorem mapSpansAll_id_apply (cs : List Command) : mapSpansAll id cs = cs := by
  cases cs with
  | nil => rfl
  | cons c cs => rw [mapSpansAll, mapSpans_id_apply c, mapSpansAll_id_apply cs]

end

/-- The two lemmas above as an equation of functions, for use under a `map`. -/
@[simp]
theorem mapSpans_id : Command.mapSpans id = id :=
  funext mapSpans_id_apply

end Command

/-- The query with every span in it replaced. -/
def Query.mapSpans (q : Query) : Query :=
  ⟨q.commands.map (Command.mapSpans f), f q.span⟩

end PipeQuery
