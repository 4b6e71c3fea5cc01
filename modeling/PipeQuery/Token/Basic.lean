import PipeQuery.Span
import PipeQuery.Text.Cursor
import PipeQuery.Token.Kind

/-!
# `PipeQuery.Token.Basic`: tokens

A token keeps its text as written and the place where it begins.
-/

set_option autoImplicit false

namespace PipeQuery

/-- Hidden tokens are kept for tools and passed over by the parser. -/
inductive Channel where
  | default
  | hidden
deriving DecidableEq, Repr, Inhabited

/-- A piece of the query text. `line` and `col` belong to the place where it starts. -/
structure Token where
  kind : Token.Kind
  text : String
  span : Span
  line : Nat
  col : Nat
  channel : Channel
deriving DecidableEq, Repr, Inhabited

namespace Token

/-- The parser passes over the token. -/
def isHidden (t : Token) : Bool :=
  t.channel = .hidden

/-- The token of some kind whose text stretches over `cs` from `position`. White space and
comments are hidden. -/
def spanning (kind : Kind) (position : Text.Position) (cs : List Char) : Token where
  kind := kind
  text := String.ofList cs
  span := ⟨position.offset, position.offset + Text.byteLength cs⟩
  line := position.line
  col := position.col
  channel := if kind.isTrivia then .hidden else .default

/-- The token with a span of 32 bits. Its line and column are those of its place in the text. -/
def truncated (t : Token) : Token :=
  { t with span := t.span.truncated }

end Token

end PipeQuery
