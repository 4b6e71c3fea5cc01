import PipeQuery.Query.Command

/-!
# `PipeQuery.Proofs.Render.Core`: trees without their places

Rendering does not keep where a part of a query stood, nor whether a name that must stand between
backquotes stood there before. The `core` of a tree leaves out both: every place is the start of
the text, and a name is quoted if it is rendered so. A rendered tree that is read again is held
against the first one by their cores.
-/

set_option autoImplicit false

namespace PipeQuery

/-! ### Names -/

/-- The name is rendered between backquotes. -/
def Identifier.isEncoded (id : Identifier) : Bool :=
  id.quoted || !hasBareShape id.name || isReserved id.name

/-- A name without its place, quoted if it is rendered so. -/
def Identifier.core (id : Identifier) : Identifier :=
  ⟨id.name, id.isEncoded, .point 0⟩

/-- A part of a field name without its place. -/
def NamePart.core : NamePart → NamePart
  | .identifier id => .identifier id.core
  | .parameter param _ => .parameter param (.point 0)

/-- A field name without its places. -/
def FieldName.core (f : FieldName) : FieldName :=
  ⟨f.parts.map NamePart.core, .point 0⟩

/-- A part of a field pattern without its place. -/
def PatternPart.core : PatternPart → PatternPart
  | .pattern p => .pattern ⟨p.pattern, p.raw, .point 0⟩
  | .parameter param _ => .parameter param (.point 0)

/-- A field pattern without its places. -/
def FieldPattern.core (f : FieldPattern) : FieldPattern :=
  ⟨f.parts.map PatternPart.core, .point 0⟩

/-- A source without its place. -/
def Source.core (s : Source) : Source :=
  ⟨s.name, s.quoted, .point 0⟩

/-- An index pattern without its places. -/
def IndexPattern.core (p : IndexPattern) : IndexPattern :=
  ⟨p.cluster.map Source.core, p.index.core, .point 0⟩

/-- Whether a name is between backquotes when it is rendered. -/
theorem Identifier.render_eq (id : Identifier) :
    id.render = if id.isEncoded then Text.Backquoted.encode id.name else id.name := rfl

/-- A part has its wildcards wherever it stands. -/
@[simp]
theorem PatternPart.hasWildcard_core (part : PatternPart) :
    part.core.hasWildcard = part.hasWildcard := by
  cases part <;> rfl

/-- A pattern has its wildcards wherever it stands. -/
@[simp]
theorem FieldPattern.hasWildcard_core (f : FieldPattern) : f.core.hasWildcard = f.hasWildcard := by
  simp [FieldPattern.hasWildcard, core, Function.comp_def]

/-- A pattern is the star wherever it stands. -/
@[simp]
theorem FieldPattern.isStar_core (f : FieldPattern) : f.core.isStar = f.isStar := by
  obtain ⟨parts, span⟩ := f
  match parts with
  | [] => rfl
  | [.pattern _] => rfl
  | [.parameter ..] => rfl
  | .pattern _ :: _ :: _ => rfl
  | .parameter .. :: _ :: _ => rfl

/-! ### Expressions -/

namespace Expr

mutual

/-- An expression without its places. -/
def core : Expr → Expr
  | .literal l _ => .literal l (.point 0)
  | .field name _ => .field name.core (.point 0)
  | .parameter param _ => .parameter param (.point 0)
  | .call name args _ => .call name.core (coreAll args) (.point 0)
  | .binary left op right _ => .binary (core left) op (core right) (.point 0)
  | .unary op e _ => .unary op (core e) (.point 0)
  | .cast e type _ => .cast (core e) type.core (.point 0)
  | .list items delimiter _ => .list (coreAll items) delimiter (.point 0)
  | .inList e items negated _ => .inList (core e) (coreAll items) negated (.point 0)
  | .like e pattern op negated _ => .like (core e) (core pattern) op negated (.point 0)
  | .isNull e negated _ => .isNull (core e) negated (.point 0)
  | .«match» e query _ => .«match» (core e) (core query) (.point 0)

/-- Expressions without their places. -/
def coreAll : List Expr → List Expr
  | [] => []
  | e :: es => core e :: coreAll es

end

/-- The core of some expressions is that of each. -/
theorem coreAll_eq_map (es : List Expr) : coreAll es = es.map core := by
  induction es with
  | nil => rfl
  | cons e es ih => rw [coreAll, ih, List.map_cons]

/-- Some expressions are rendered one by one. -/
theorem renderAll_eq_map (es : List Expr) : renderAll es = es.map render := by
  induction es with
  | nil => rfl
  | cons e es ih => rw [renderAll, ih, List.map_cons]

end Expr

/-! ### Commands -/

/-- A metadata clause without its places. -/
def Metadata.core (m : Metadata) : Metadata :=
  ⟨m.fields.map Source.core, m.bracketed, .point 0⟩

/-- An assignment without its places. -/
def Assignment.core (a : Assignment) : Assignment :=
  ⟨a.target.map FieldName.core, a.value.core, .point 0⟩

/-- A sort key without its places. -/
def SortKey.core (k : SortKey) : SortKey :=
  ⟨k.expr.core, k.direction, k.nulls, .point 0⟩

/-- A clause of a `RENAME` without its places. -/
def RenameClause.core (c : RenameClause) : RenameClause :=
  ⟨c.oldName.core, c.newName.core, c.form, .point 0⟩

/-- An option of a `DISSECT` without its places. -/
def DissectOption.core (o : DissectOption) : DissectOption :=
  ⟨o.name.core, o.value.core, .point 0⟩

/-- A setting without its place. -/
def Setting.core (s : Setting) : Setting :=
  ⟨s.name, s.value, .point 0⟩

/-- A policy without its place. -/
def Policy.core (p : Policy) : Policy :=
  ⟨p.mode, p.name, .point 0⟩

/-- A field of an `ENRICH` without its places. -/
def EnrichField.core (f : EnrichField) : EnrichField :=
  ⟨f.newName.map FieldPattern.core, f.field.core, .point 0⟩

namespace Command

mutual

/-- A command without its places. -/
def core : Command → Command
  | .«from» sources metadata _ =>
    .«from» (sources.map IndexPattern.core) (metadata.map Metadata.core) (.point 0)
  | .row fields _ => .row (fields.map Assignment.core) (.point 0)
  | .showInfo _ => .showInfo (.point 0)
  | .explain commands _ _ => .explain (coreAll commands) (.point 0) (.point 0)
  | .metrics sources aggregations groupings _ =>
    .metrics (sources.map IndexPattern.core) (aggregations.map Assignment.core)
      (groupings.map Assignment.core) (.point 0)
  | .eval fields _ => .eval (fields.map Assignment.core) (.point 0)
  | .«where» condition _ => .«where» condition.core (.point 0)
  | .stats aggregations groupings _ =>
    .stats (aggregations.map Assignment.core) (groupings.map Assignment.core) (.point 0)
  | .inlineStats aggregations groupings _ =>
    .inlineStats (aggregations.map Assignment.core) (groupings.map Assignment.core) (.point 0)
  | .sort keys _ => .sort (keys.map SortKey.core) (.point 0)
  | .limit count raw _ => .limit count raw (.point 0)
  | .keep fields _ => .keep (fields.map FieldPattern.core) (.point 0)
  | .drop fields _ => .drop (fields.map FieldPattern.core) (.point 0)
  | .rename clauses _ => .rename (clauses.map RenameClause.core) (.point 0)
  | .dissect input pattern options _ =>
    .dissect input.core pattern.core (options.map DissectOption.core) (.point 0)
  | .grok input pattern _ => .grok input.core pattern.core (.point 0)
  | .enrich settings policy on fields _ =>
    .enrich (settings.map Setting.core) policy.core (on.map FieldPattern.core)
      (fields.map EnrichField.core) (.point 0)
  | .mvExpand field _ => .mvExpand field.core (.point 0)
  | .lookup table matchFields join _ =>
    .lookup table.core (matchFields.map FieldPattern.core) join (.point 0)
  | .«match» query _ => .«match» query.core (.point 0)

/-- Commands without their places. -/
def coreAll : List Command → List Command
  | [] => []
  | c :: cs => core c :: coreAll cs

end

/-- The core of a command has the same verb. -/
theorem verb_core (command : Command) : command.core.verb = command.verb := by
  cases command <;> simp only [core, verb]

end Command

end PipeQuery
