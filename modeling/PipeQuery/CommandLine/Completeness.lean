/-!
# `PipeQuery.CommandLine.Completeness`: whether a query is finished

While a query is typed, the shell waits for more lines as long as a quote, a comment or a bracket
is open or the last word asks for more. The scan is coarser than the lexer: it knows no modes,
and block comments do not nest.
-/

set_option autoImplicit false

namespace PipeQuery

namespace Completeness

/-- What the characters ahead are part of. -/
inductive Inside where
  | plain
  | quoted
  | tripleQuoted
  | backquoted
  | lineComment
  | blockComment
deriving DecidableEq, Repr

/-- A construct that has to be closed. -/
def Inside.isOpen : Inside → Bool
  | .quoted | .tripleQuoted | .backquoted | .blockComment => true
  | .plain | .lineComment => false

/-- Where a scan stands: inside what, behind which last character that counts, and how many brackets
are open, negative if more were closed. -/
structure Scan where
  inside : Inside
  last : Option Char
  depth : Int
deriving DecidableEq, Repr

/-- A scan that has seen nothing. -/
def Scan.start : Scan :=
  ⟨.plain, none, 0⟩

/-- The blanks of the scan, a form feed among them. -/
def isBlank (c : Char) : Bool :=
  c = ' ' || c = '\t' || c = '\n' || c = '\x0c' || c = '\r'

/-- The scan behind a plain character that counts. -/
def Scan.seePlain (s : Scan) (c : Char) : Scan where
  inside := if c = '\x22' then .quoted else if c = '\x60' then .backquoted else .plain
  last := some c
  depth :=
    if c = '(' || c = '[' then s.depth + 1
    else if c = ')' || c = ']' then s.depth - 1
    else s.depth

/-- The scan behind a text. -/
def Scan.over (s : Scan) : List Char → Scan
  | [] => s
  | c :: rest =>
    match s.inside with
    | .plain =>
      if isBlank c then s.over rest
      else
        match c, rest with
        | '/', '/' :: rest => Scan.over { s with inside := .lineComment } rest
        | '/', '*' :: rest => Scan.over { s with inside := .blockComment } rest
        | '\x22', '\x22' :: '\x22' :: rest =>
          Scan.over { s with inside := .tripleQuoted, last := some '\x22' } rest
        | c, rest => (s.seePlain c).over rest
    | .quoted =>
      match c, rest with
      | '\\', [] => s
      | '\\', _ :: rest => s.over rest
      | '\x22', rest => Scan.over { s with inside := .plain } rest
      | _, rest => s.over rest
    | .tripleQuoted =>
      match c, rest with
      | '\x22', '\x22' :: '\x22' :: rest => Scan.over { s with inside := .plain } rest
      | _, rest => s.over rest
    | .backquoted =>
      match c, rest with
      | '\x60', '\x60' :: rest => s.over rest
      | '\x60', rest => Scan.over { s with inside := .plain } rest
      | _, rest => s.over rest
    | .lineComment =>
      if c = '\n' then Scan.over { s with inside := .plain } rest else s.over rest
    | .blockComment =>
      match c, rest with
      | '*', '/' :: rest => Scan.over { s with inside := .plain } rest
      | _, rest => s.over rest

/-- The scan ended with nothing open, behind a character that does not ask for more. -/
def Scan.isComplete (s : Scan) : Bool :=
  !s.inside.isOpen && s.depth ≤ 0 &&
    match s.last with
    | none => false
    | some c => c ≠ '|' && c ≠ ','

end Completeness

/-- The text reads as a finished query. -/
def isComplete (text : String) : Bool :=
  (Completeness.Scan.start.over text.toList).isComplete

end PipeQuery
