import PipeQuery.Text.Bytes

/-!
# `PipeQuery.Span`: ranges of the query text

A span is a pair of byte offsets. Every token, every node of a query and every diagnostic
carries one. The lexer counts bytes without bound and hands out spans with offsets of 32 bits
(`Span.truncated`), so everything behind it works on such offsets.
-/

set_option autoImplicit false

namespace PipeQuery

/-- The bytes from `start` up to, not including, `stop`. -/
structure Span where
  start : Nat
  stop : Nat
deriving DecidableEq, Repr, Inhabited

namespace Span

/-- The span with offsets of 32 bits: what is beyond them is cut off. -/
def truncated (s : Span) : Span :=
  ⟨s.start.toUInt32.toNat, s.stop.toUInt32.toNat⟩

/-- The empty span at an offset. -/
def point (offset : Nat) : Span :=
  ⟨offset, offset⟩

/-- The smallest span that covers both. -/
def merge (a b : Span) : Span :=
  ⟨min a.start b.start, max a.stop b.stop⟩

/-- Nothing lies between the ends. -/
def isEmpty (s : Span) : Bool :=
  s.start = s.stop

/-- The number of bytes, if the ends are in order. -/
def length? (s : Span) : Option Nat :=
  if s.start ≤ s.stop then some (s.stop - s.start) else none

/-- The covered text; empty when the span does not fit the text. -/
def slice (s : Span) (text : String) : String :=
  Text.slice text s.start s.stop

/-- The span as `start..stop`. -/
def render (s : Span) : String :=
  toString s.start ++ ".." ++ toString s.stop

end Span

end PipeQuery
