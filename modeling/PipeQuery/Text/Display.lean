import PipeQuery.Text.Invisible

/-!
# `PipeQuery.Text.Display`: text in listings

A text between quotes on one line, in which every character shows: quotes, backslashes and the
common controls as escapes, other characters without a shape of their own by their code point.
-/

set_option autoImplicit false

namespace PipeQuery.Text

/-- A number in hexadecimal digits of lower case, without zeros in front. -/
def hex (n : Nat) : List Char :=
  Nat.toDigits 16 n

/-- A character as it is shown between quotes. -/
def displayChar (c : Char) : List Char :=
  if c = '\x22' then ['\\', '\x22']
  else if c = '\\' then ['\\', '\\']
  else if c = '\n' then ['\\', 'n']
  else if c = '\r' then ['\\', 'r']
  else if c = '\t' then ['\\', 't']
  else if c = '\x00' then ['\\', '0']
  else if isInvisible c then '\\' :: 'u' :: '\x7b' :: hex c.toNat ++ ['\x7d']
  else [c]

/-- A text as it is shown in listings. -/
def display (text : String) : String :=
  String.ofList ('\x22' :: text.toList.flatMap displayChar ++ ['\x22'])

end PipeQuery.Text
