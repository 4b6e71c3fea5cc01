/-!
# `PipeQuery.Text.Quoted`: string literals

A string stands between quotes on one line, with `\t`, `\n`, `\r`, `\"` and `\\` as its escapes,
or verbatim between triple quotes, also on one line. `extent` finds where a literal ends,
`decode` gives the text it stands for and `encode` writes a text as a literal.
-/

set_option autoImplicit false

namespace PipeQuery.Text.Quoted

/-- How a literal ends. -/
inductive Verdict where
  | closed
  | badEscape
  | unterminated
deriving DecidableEq, Repr

/-- The number of characters that belong to a literal, and how it ends. -/
structure Extent where
  length : Nat
  verdict : Verdict
deriving DecidableEq, Repr

/-- The extent with `n` more characters in front. -/
def Extent.grow (n : Nat) (e : Extent) : Extent :=
  { e with length := e.length + n }

/-- The character forms an escape with a backslash in front. -/
def isEscape (c : Char) : Bool :=
  c = 't' || c = 'n' || c = 'r' || c = '\x22' || c = '\\'

/-- A line ends here, in front of which a literal must be closed. -/
def endsLine (c : Char) : Bool :=
  c = '\n' || c = '\r'

/-- The rest of a literal behind its opening quote. `pending` says that a backslash came just
before, `bad` that some backslash escaped nothing. A backslash that escapes nothing leaves the
next character its meaning. -/
def body (pending bad : Bool) : List Char → Extent
  | [] => ⟨0, .unterminated⟩
  | c :: rest =>
    if pending && isEscape c then (body false bad rest).grow 1
    else if endsLine c then ⟨0, .unterminated⟩
    else if c = '\x22' then ⟨1, if bad then .badEscape else .closed⟩
    else (body (c = '\\') (bad || pending) rest).grow 1

/-- The number of quotes, two at most, at the start of the text. -/
def extraQuotes : List Char → Nat
  | '\x22' :: '\x22' :: _ => 2
  | '\x22' :: _ => 1
  | _ => 0

/-- The rest of a verbatim literal behind its opening quotes: it ends with the first three quotes
of the line, and up to two quotes right behind them belong to it. -/
def verbatim : List Char → Extent
  | [] => ⟨0, .unterminated⟩
  | '\x22' :: '\x22' :: '\x22' :: rest => ⟨3 + extraQuotes rest, .closed⟩
  | c :: rest => if endsLine c then ⟨0, .unterminated⟩ else (verbatim rest).grow 1

/-- The text begins with three quotes. -/
def isTriple : List Char → Bool
  | '\x22' :: '\x22' :: '\x22' :: _ => true
  | _ => false

/-- The literal at the start of a text that begins with a quote. -/
def extent (cs : List Char) : Extent :=
  if isTriple cs then (verbatim (cs.drop 3)).grow 3 else (body false false (cs.drop 1)).grow 1

/-- Resolves the escapes. A backslash in front of any other character is dropped. -/
def unescape : List Char → List Char
  | [] => []
  | ['\\'] => ['\\']
  | '\\' :: 't' :: rest => '\t' :: unescape rest
  | '\\' :: 'n' :: rest => '\n' :: unescape rest
  | '\\' :: 'r' :: rest => '\r' :: unescape rest
  | '\\' :: c :: rest => c :: unescape rest
  | c :: rest => c :: unescape rest

/-- The list without `tail` at its end, if it ends so. -/
def dropTail (tail cs : List Char) : List Char :=
  if tail.isSuffixOf cs then cs.take (cs.length - tail.length) else cs

/-- The characters that a literal stands for. -/
def decodeChars (cs : List Char) : List Char :=
  if isTriple cs then dropTail ['\x22', '\x22', '\x22'] (cs.drop 3)
  else
    let inner := if ['\x22'].isPrefixOf cs then cs.drop 1 else cs
    unescape (dropTail ['\x22'] inner)

/-- The text that a literal stands for. -/
def decode (literal : String) : String :=
  String.ofList (decodeChars literal.toList)

/-- A character as it is written between quotes. -/
def encodeChar : Char → List Char
  | '\x22' => ['\\', '\x22']
  | '\\' => ['\\', '\\']
  | '\n' => ['\\', 'n']
  | '\r' => ['\\', 'r']
  | '\t' => ['\\', 't']
  | c => [c]

/-- A text as a literal. -/
def encode (text : String) : String :=
  String.ofList ('\x22' :: text.toList.flatMap encodeChar ++ ['\x22'])

end PipeQuery.Text.Quoted
