import PipeQuery.Text.Bytes

/-!
# `PipeQuery.Text.Cursor`: a place in a text

`Position` counts bytes, lines and columns; `Cursor` is a position with the text that is still
ahead. A move over many characters computes the new line and column from the characters passed,
without stepping through them.
-/

set_option autoImplicit false

namespace PipeQuery.Text

/-- A place in a text: bytes before it, and its line and column, both from 1. Columns count
characters, and only a line feed ends a line. -/
structure Position where
  offset : Nat
  line : Nat
  col : Nat
deriving DecidableEq, Repr, Inhabited

namespace Position

/-- The start of a text. -/
def start : Position :=
  ⟨0, 1, 1⟩

/-- The place after one more character. -/
def next (p : Position) (c : Char) : Position :=
  if c = '\n' then ⟨p.offset + c.utf8Size, p.line + 1, 1⟩
  else ⟨p.offset + c.utf8Size, p.line, p.col + 1⟩

/-- The place after some characters: the line grows by the line feeds among them, and the column
is counted from the last of these, or goes on from `p` when there is none. -/
def after (p : Position) (cs : List Char) : Position where
  offset := p.offset + byteLength cs
  line := p.line + cs.count '\n'
  col :=
    if cs.contains '\n' then 1 + (cs.reverse.takeWhile (· ≠ '\n')).length
    else p.col + cs.length

/-- Line and column of a byte offset, counted from the start of the text. An offset past the end
counts as the end, one inside a character as the start of the text. -/
def locate (cs : List Char) (offset : Nat) : Position :=
  start.after ((takeBytes (min offset (byteLength cs)) cs).getD [])

@[simp]
theorem after_nil (p : Position) : p.after [] = p := by
  simp [after]

end Position

/-- The text ahead and the place where it begins. -/
structure Cursor where
  rest : List Char
  position : Position
deriving DecidableEq, Repr, Inhabited

namespace Cursor

/-- The start of a text. -/
def ofText (text : String) : Cursor :=
  ⟨text.toList, Position.start⟩

/-- No character is left. -/
def atEnd (c : Cursor) : Bool :=
  c.rest.isEmpty

/-- The character `n` characters ahead. -/
def peek (c : Cursor) (n : Nat) : Option Char :=
  c.rest[n]?

/-- Moves over one character; at the end there is none. -/
def advance (c : Cursor) : Option Char × Cursor :=
  match c.rest with
  | [] => (none, c)
  | ch :: rest => (some ch, ⟨rest, c.position.next ch⟩)

/-- Moves over the next `n` characters, or all of them if there are fewer. -/
def skip (c : Cursor) (n : Nat) : Cursor :=
  ⟨c.rest.drop n, c.position.after (c.rest.take n)⟩

/-- Moves over the characters that satisfy `p`, up to the first that does not. -/
def skipWhile (c : Cursor) (p : Char → Bool) : Cursor :=
  c.skip (c.rest.takeWhile p).length

/-- Moves forward to a byte offset. A target inside a character stops before it, one behind the
cursor moves nothing, one past the end stops at the end. -/
def skipTo (c : Cursor) (offset : Nat) : Cursor :=
  c.skip (fitting (offset - c.position.offset) c.rest)

/-- Moves past the next line feed, or to the end if there is none. -/
def skipLine (c : Cursor) : Cursor :=
  c.skip ((c.rest.takeWhile (· ≠ '\n')).length + 1)

/-- How many bytes ahead a byte of the UTF-8 form is found next. -/
def findByte? (c : Cursor) (byte : UInt8) : Option Nat :=
  (c.rest.flatMap String.utf8EncodeChar).findIdx? (· = byte)

/-- How many characters ahead a text is found next. -/
def indexOf? (needle : List Char) : List Char → Option Nat
  | [] => if needle.isEmpty then some 0 else none
  | ch :: rest =>
    if needle.isPrefixOf (ch :: rest) then some 0 else (indexOf? needle rest).map (· + 1)

/-- How many bytes ahead a text is found next. -/
def find? (c : Cursor) (needle : String) : Option Nat :=
  (indexOf? needle.toList c.rest).map fun n => byteLength (c.rest.take n)

/-- How many bytes are left of the current line, its carriage return or line feed apart. -/
def lineEnd (c : Cursor) : Nat :=
  byteLength (c.rest.takeWhile fun ch => ch ≠ '\r' && ch ≠ '\n')

/-- The text ahead begins with `needle`. -/
def startsWith (c : Cursor) (needle : String) : Bool :=
  needle.toList.isPrefixOf c.rest

end Cursor

end PipeQuery.Text
