/-!
# `PipeQuery.Text.Backquoted`: names between backquotes

Any text can be a name between backquotes, a backquote in it written twice. Field patterns may
glue such parts to bare ones, so decoding follows the quotes wherever they open and close.
-/

set_option autoImplicit false

namespace PipeQuery.Text.Backquoted

/-- The number of characters through the closing backquote, behind the opening one; none if it is
missing. -/
def close? : List Char → Option Nat
  | [] => none
  | '\x60' :: '\x60' :: rest => (close? rest).map (· + 2)
  | '\x60' :: _ => some 1
  | _ :: rest => (close? rest).map (· + 1)

/-- The number of characters of the quoted name at the start of a text that begins with a
backquote. -/
def length? (cs : List Char) : Option Nat :=
  (close? (cs.drop 1)).map (· + 1)

/-- Removes the quotes, and one of two backquotes in a row inside them. `quoted` says that a quote
is open. -/
def strip : Bool → List Char → List Char
  | _, [] => []
  | true, '\x60' :: '\x60' :: rest => '\x60' :: strip true rest
  | quoted, '\x60' :: rest => strip (!quoted) rest
  | quoted, c :: rest => c :: strip quoted rest

/-- The name or pattern that a text stands for. -/
def decode (text : String) : String :=
  String.ofList (strip false text.toList)

/-- The characters of a quoted name, with backquotes doubled. -/
def doubled (cs : List Char) : List Char :=
  cs.flatMap fun c => if c = '\x60' then ['\x60', '\x60'] else [c]

/-- A name between backquotes. -/
def encode (name : String) : String :=
  String.ofList ('\x60' :: doubled name.toList ++ ['\x60'])

/-- An asterisk stands outside the quotes. -/
def starOutside (quoted : Bool) : List Char → Bool
  | [] => false
  | c :: rest =>
    if c = '\x60' then starOutside (!quoted) rest
    else if c = '*' && !quoted then true
    else starOutside quoted rest

end PipeQuery.Text.Backquoted
