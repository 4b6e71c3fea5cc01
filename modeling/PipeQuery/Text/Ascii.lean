/-!
# `PipeQuery.Text.Ascii`: characters and words of the query language

The language's own words and separators are ASCII. Letters outside ASCII are never folded, never
blank and never part of a bare name, so `Char.isAlpha`, `Char.isDigit` and `Char.toUpper` are
the right classes here.
-/

set_option autoImplicit false

namespace PipeQuery.Text

/-- Space, tab, carriage return and line feed separate tokens; no other character does. -/
def isBlank (c : Char) : Bool :=
  c = ' ' || c = '\t' || c = '\r' || c = '\n'

/-- The text with its ASCII letters in upper case. -/
def upper (text : String) : String :=
  String.ofList (text.toList.map Char.toUpper)

/-- Two words are the same up to the case of ASCII letters. -/
def sameWord (a b : String) : Bool :=
  upper a = upper b

/-- The number that a run of decimal digits writes. -/
def decimalValue (digits : List Char) : Nat :=
  digits.foldl (fun n c => 10 * n + (c.toNat - '0'.toNat)) 0

/-- The pieces with a separator between neighbours. -/
def joined (separator : String) : List String → String
  | [] => ""
  | [piece] => piece
  | piece :: pieces => piece ++ separator ++ joined separator pieces

end PipeQuery.Text
