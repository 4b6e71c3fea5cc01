import PipeQuery.Span
import PipeQuery.Text.Ascii
import PipeQuery.Text.Backquoted
import PipeQuery.Text.Quoted
import PipeQuery.Token.Kind
import PipeQuery.Token.Shape

/-!
# `PipeQuery.Query.Name`: names, patterns and sources

How a query names things: fields by dotted names or by dotted patterns, indices by sources. Every
part may be a parameter in place of a name. `render` writes each of them as query text.
-/

set_option autoImplicit false

namespace PipeQuery

/-- A name as it is meant, and whether it was written between backquotes. -/
structure Identifier where
  name : String
  quoted : Bool
  span : Span
deriving DecidableEq, Repr, Inhabited

namespace Identifier

/-- The keywords of expressions, the preview `MATCH` among them, are no bare names. -/
def isReserved (name : String) : Bool :=
  (Keyword.ofWord? name).isSome || Text.sameWord name Verb.«match».text

/-- The name has the shape of a bare one: a letter, or `_` or `@` and something more, and then
letters, digits and underscores. -/
def hasBareShape (name : String) : Bool :=
  match name.toList with
  | [] => false
  | c :: rest =>
    (c.isAlpha || (Token.Shape.isSigil c && !rest.isEmpty)) && rest.all Token.Shape.isNameChar

/-- A name as query text: bare if it was so and can be, between backquotes otherwise. -/
def render (id : Identifier) : String :=
  if id.quoted || !hasBareShape id.name || isReserved id.name then Text.Backquoted.encode id.name
  else id.name

end Identifier

/-- A value that is supplied with the query. -/
inductive Parameter where
  | anonymous
  | named (name : String)
  | positional (index : Nat)
deriving DecidableEq, Repr, Inhabited

/-- A parameter as query text. -/
def Parameter.render : Parameter → String
  | .anonymous => "?"
  | .named name => "?" ++ name
  | .positional index => "?" ++ toString index

/-- A part of a field name. -/
inductive NamePart where
  | identifier (id : Identifier)
  | parameter (param : Parameter) (span : Span)
deriving DecidableEq, Repr, Inhabited

namespace NamePart

/-- The place of the part. -/
def span : NamePart → Span
  | .identifier id => id.span
  | .parameter _ span => span

/-- The name of the part; a parameter has none. -/
def name? : NamePart → Option String
  | .identifier id => some id.name
  | .parameter .. => none

/-- The part as query text. -/
def render : NamePart → String
  | .identifier id => id.render
  | .parameter param _ => param.render

end NamePart

/-- A dotted field name. -/
structure FieldName where
  parts : List NamePart
  span : Span
deriving DecidableEq, Repr, Inhabited

namespace FieldName

/-- The names of the parts, parameters left out. -/
def path (f : FieldName) : List String :=
  f.parts.filterMap NamePart.name?

/-- The field name is the single name `name`. -/
def isSimple (f : FieldName) (name : String) : Bool :=
  match f.parts with
  | [.identifier id] => id.name = name
  | _ => false

/-- The field name as query text. -/
def render (f : FieldName) : String :=
  Text.joined "." (f.parts.map NamePart.render)

end FieldName

/-- A wildcard pattern for one part of a field name: as it is meant, and as it was written. -/
structure NamePattern where
  pattern : String
  raw : String
  span : Span
deriving DecidableEq, Repr, Inhabited

/-- An asterisk outside the quotes makes a wildcard. -/
def NamePattern.hasWildcard (p : NamePattern) : Bool :=
  Text.Backquoted.starOutside false p.raw.toList

/-- A part of a field pattern. -/
inductive PatternPart where
  | pattern (pattern : NamePattern)
  | parameter (param : Parameter) (span : Span)
deriving DecidableEq, Repr, Inhabited

namespace PatternPart

/-- The place of the part. -/
def span : PatternPart → Span
  | .pattern p => p.span
  | .parameter _ span => span

/-- The part has a wildcard. -/
def hasWildcard : PatternPart → Bool
  | .pattern p => p.hasWildcard
  | .parameter .. => false

/-- The part as it is meant, with `?` for a parameter. -/
def plain : PatternPart → String
  | .pattern p => p.pattern
  | .parameter .. => "?"

/-- The part as query text. -/
def render : PatternPart → String
  | .pattern p => p.raw
  | .parameter param _ => param.render

end PatternPart

/-- A dotted pattern for field names. -/
structure FieldPattern where
  parts : List PatternPart
  span : Span
deriving DecidableEq, Repr, Inhabited

namespace FieldPattern

/-- Some part has a wildcard. -/
def hasWildcard (f : FieldPattern) : Bool :=
  f.parts.any PatternPart.hasWildcard

/-- The pattern as it is meant, with `?` for parameters. -/
def dotted (f : FieldPattern) : String :=
  Text.joined "." (f.parts.map PatternPart.plain)

/-- The pattern as query text. -/
def render (f : FieldPattern) : String :=
  Text.joined "." (f.parts.map PatternPart.render)

/-- The pattern is the bare `*`, which fits every field. -/
def isStar (f : FieldPattern) : Bool :=
  match f.parts with
  | [.pattern p] => p.raw = "*"
  | _ => false

end FieldPattern

/-- The name of an index, a table or a cluster, and whether it was written as a string. -/
structure Source where
  name : String
  quoted : Bool
  span : Span
deriving DecidableEq, Repr, Inhabited

/-- The source as query text. -/
def Source.render (s : Source) : String :=
  if s.quoted then Text.Quoted.encode s.name else s.name

/-- An index, on this cluster or on another. -/
structure IndexPattern where
  cluster : Option Source
  index : Source
  span : Span
deriving DecidableEq, Repr, Inhabited

/-- The index pattern as query text. -/
def IndexPattern.render (p : IndexPattern) : String :=
  match p.cluster with
  | some cluster => cluster.render ++ ":" ++ p.index.render
  | none => p.index.render

end PipeQuery
