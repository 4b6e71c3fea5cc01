import PipeQuery.Text.Ascii
import PipeQuery.Text.Backquoted

/-!
# `PipeQuery.Token.Shape`: the words of the query language

How many characters at the start of a text form a name, a pattern, a source, a number and so on.
Each function looks at the characters only; which of them is asked is the lexer's decision.
A length of zero means that the text does not begin with such a word.
-/

set_option autoImplicit false

namespace PipeQuery.Token.Shape

/-- The length of the longest run of characters that satisfy `p`. -/
def run (p : Char → Bool) (cs : List Char) : Nat :=
  (cs.takeWhile p).length

/-- Letters, digits and the underscore continue a name. -/
def isNameChar (c : Char) : Bool :=
  c.isAlphanum || c = '_'

/-- A name may begin with a run of these. -/
def isSigil (c : Char) : Bool :=
  c = '_' || c = '@'

/-- The characters that continue a name pattern. -/
def isPatternChar (c : Char) : Bool :=
  isNameChar c || c = '*'

/-- The characters of a setting's name or value. -/
def isSettingChar (c : Char) : Bool :=
  c.isAlphanum || c = '@' || c = '.' || c = '_'

/-- The characters that end a policy name, blanks apart. -/
def policyDelimiters : List Char :=
  ['\\', '/', '?', '\x22', '<', '>', '|', ',', '#', ':', '[', ']']

/-- The characters of a policy name. -/
def isPolicyChar (c : Char) : Bool :=
  !(Text.isBlank c || policyDelimiters.contains c)

/-- The characters that end an unquoted source, blanks and comments apart. -/
def sourceDelimiters : List Char :=
  [':', '\x22', '=', '|', ',', '[', ']']

/-- The character ends an unquoted source. -/
def endsSource (c : Char) : Bool :=
  Text.isBlank c || sourceDelimiters.contains c

/-- The characters that end a word in command position, blanks apart. -/
def commandDelimiters : List Char :=
  ['[', ']', '/', '|']

/-- The characters of a word in command position. -/
def isCommandChar (c : Char) : Bool :=
  !(Text.isBlank c || commandDelimiters.contains c)

/-- The text goes on with a character that satisfies `p`. -/
def startsWith (p : Char → Bool) : List Char → Bool
  | [] => false
  | c :: _ => p c

/-- A run of sigils followed by at least one character of the body. An underscore at the end of a
longer run counts as that character. -/
def sigilWord (body : Char → Bool) (cs : List Char) : Nat :=
  let sigils := cs.takeWhile isSigil
  let rest := cs.drop sigils.length
  if (sigils.getLast? = some '_' && 2 ≤ sigils.length) || (sigils ≠ [] && startsWith body rest) then
    sigils.length + run body rest
  else 0

/-- A bare name: a letter and what continues it, or sigils and a body. -/
def identifier : List Char → Nat
  | [] => 0
  | c :: rest => if c.isAlpha then run isNameChar rest + 1 else sigilWord isNameChar (c :: rest)

/-- A field pattern, or the end of the text in an open quote. -/
inductive Pattern where
  | whole (length : Nat)
  | unterminated
deriving DecidableEq, Repr

/-- A bare part of a field pattern. -/
def barePart : List Char → Nat
  | [] => 0
  | c :: rest =>
    if c.isAlpha || c = '*' then run isPatternChar rest + 1 else sigilWord isPatternChar (c :: rest)

/-- The next part of a field pattern; none when a quote is left open. -/
def patternPart? (cs : List Char) : Option Nat :=
  if startsWith (· = '\x60') cs then Text.Backquoted.length? cs else some (barePart cs)

/-- A field pattern: bare and quoted parts, glued together. -/
def pattern (cs : List Char) : Pattern :=
  match patternPart? cs with
  | none => .unterminated
  | some 0 => .whole 0
  | some (n + 1) =>
    match cs with
    | [] => .whole 0
    | _ :: rest =>
      match pattern (rest.drop n) with
      | .unterminated => .unterminated
      | .whole more => .whole (n + 1 + more)
termination_by cs.length
decreasing_by simp only [List.length_cons, List.length_drop]; omega

/-- An unquoted source. A slash takes the next character with it, whatever it is, unless a comment
begins there. -/
def source : List Char → Nat
  | [] => 0
  | ['/'] => 0
  | '/' :: c :: rest => if c = '*' || c = '/' then 0 else source rest + 2
  | c :: rest => if endsSource c then 0 else source rest + 1

/-- A policy name, with one colon in it at most. -/
def policy (cs : List Char) : Nat :=
  let first := run isPolicyChar cs
  match cs.drop first with
  | ':' :: rest =>
    if first ≠ 0 && startsWith isPolicyChar rest then first + 1 + run isPolicyChar rest else first
  | _ => first

/-- What follows the question mark of a parameter: a name or digits, or nothing. -/
def parameter (cs : List Char) : Nat :=
  if startsWith (fun c => c.isAlpha || c = '_') cs then run isNameChar cs
  else run Char.isDigit cs

/-- A point and the digits behind it. Without digits on either side there is no point. -/
def fraction (integerDigits : Nat) : List Char → Nat
  | '.' :: rest =>
    if 0 < integerDigits || startsWith Char.isDigit rest then run Char.isDigit rest + 1 else 0
  | _ => 0

/-- An exponent, which needs a digit. -/
def exponent : List Char → Nat
  | e :: sign :: rest =>
    if e = 'e' || e = 'E' then
      if sign = '+' || sign = '-' then
        if startsWith Char.isDigit rest then run Char.isDigit rest + 2 else 0
      else if sign.isDigit then run Char.isDigit rest + 2
      else 0
    else 0
  | _ => 0

/-- The parts of a number: integer digits, fraction and exponent. -/
structure Number where
  integerDigits : Nat
  fraction : Nat
  exponent : Nat
deriving DecidableEq, Repr

/-- The number of characters of all parts. -/
def Number.length (n : Number) : Nat :=
  n.integerDigits + n.fraction + n.exponent

/-- A point or an exponent makes a decimal. -/
def Number.isDecimal (n : Number) : Bool :=
  n.fraction ≠ 0 || n.exponent ≠ 0

/-- The number at the start of a text. -/
def number (cs : List Char) : Number :=
  let integerDigits := run Char.isDigit cs
  let fractionLength := fraction integerDigits (cs.drop integerDigits)
  ⟨integerDigits, fractionLength, exponent (cs.drop (integerDigits + fractionLength))⟩

end PipeQuery.Token.Shape
