import PipeQuery.Options.Basic
import PipeQuery.Text.Bytes
import PipeQuery.Text.Ascii

/-!
# `PipeQuery.Options.Reader`: options as JSON text

Options are an object with some of three fields, or an array of at most three values in the order
of the fields; what is absent keeps its default. The reader is strict: no field twice, no other
field, no fraction or sign in a number, no comma too many, and nothing but blanks around.

A problem carries the characters that were still ahead, from which its line and column follow.
-/

set_option autoImplicit false

namespace PipeQuery.Options

/-- The fields of the options. -/
inductive Field where
  | devFeatures
  | maxDepth
  | maxInputBytes
deriving DecidableEq, Repr

namespace Field

/-- The fields in order. -/
def all : List Field :=
  [.devFeatures, .maxDepth, .maxInputBytes]

/-- The name of the field. -/
def name : Field → String
  | .devFeatures => "dev_features"
  | .maxDepth => "max_depth"
  | .maxInputBytes => "max_input_bytes"

/-- The field of a name. -/
def ofName? (text : String) : Option Field :=
  all.find? fun field => field.name = text

end Field

/-- What is wrong with a text as options. -/
inductive Malformed where
  | endOfInput (inside : String)
  | expectedValue
  | expectedToken (what : String)
  | badString
  | badNumber
  | wrongType (expected : String)
  | unknownField (name : String)
  | repeatedField (field : Field)
  | trailingCharacters
deriving DecidableEq, Repr

/-- The problem in words. -/
def Malformed.message : Malformed → String
  | .endOfInput inside => "EOF while parsing " ++ inside
  | .expectedValue => "expected value"
  | .expectedToken what => "expected " ++ what
  | .badString => "invalid string"
  | .badNumber => "invalid number"
  | .wrongType what => "invalid type, expected " ++ what
  | .unknownField name =>
    "unknown field \x60" ++ name ++ "\x60, expected one of " ++
      Text.joined ", " (Field.all.map fun field => "\x60" ++ field.name ++ "\x60")
  | .repeatedField field => "duplicate field \x60" ++ field.name ++ "\x60"
  | .trailingCharacters => "trailing characters"

/-- A problem, and the characters that were still ahead. -/
structure Problem where
  cause : Malformed
  rest : List Char
deriving DecidableEq, Repr

/-- The problem in words, with its line and the bytes before it on that line. -/
def Problem.message (p : Problem) (text : String) : String :=
  let cs := text.toList
  let before := cs.take (cs.length - p.rest.length)
  let line := 1 + before.count '\n'
  let column := Text.byteLength (before.reverse.takeWhile (· ≠ '\n'))
  p.cause.message ++ " at line " ++ toString line ++ " column " ++ toString column

/-- A reader takes characters from the front. -/
abbrev Reader (α : Type) : Type :=
  List Char → Except Problem (α × List Char)

namespace Reader

variable {α : Type}

/-- The reader stops. -/
def stop (cause : Malformed) : Reader α :=
  fun cs => .error ⟨cause, cs⟩

/-- The characters behind the blanks ahead. -/
def skipBlanks (cs : List Char) : List Char :=
  cs.dropWhile Text.isBlank

/-- The value of a hexadecimal digit. -/
def hexValue? (c : Char) : Option Nat :=
  if c.isDigit then some (c.toNat - '0'.toNat)
  else if 'a' ≤ c && c ≤ 'f' then some (c.toNat - 'a'.toNat + 10)
  else if 'A' ≤ c && c ≤ 'F' then some (c.toNat - 'A'.toNat + 10)
  else none

/-- The value of four hexadecimal digits. -/
def hexUnit? (a b c d : Char) : Option Nat := do
  let a ← hexValue? a
  let b ← hexValue? b
  let c ← hexValue? c
  let d ← hexValue? d
  return ((a * 16 + b) * 16 + c) * 16 + d

/-- The character that a letter behind a backslash stands for. -/
def escape? : Char → Option Char
  | '\x22' => some '\x22'
  | '\\' => some '\\'
  | '/' => some '/'
  | 'b' => some '\x08'
  | 'f' => some '\x0c'
  | 'n' => some '\n'
  | 'r' => some '\r'
  | 't' => some '\t'
  | _ => none

/-- One character put in front of what a reader returns. -/
def prepend (c : Char) : Except Problem (List Char × List Char) →
    Except Problem (List Char × List Char)
  | .ok (text, rest) => .ok (c :: text, rest)
  | .error problem => .error problem

/-- The rest of a string behind its opening quote. `high` is the first half of a surrogate pair,
behind which only the second half may come. -/
def stringBody : Option Nat → Reader (List Char)
  | high, '\\' :: 'u' :: a :: b :: c :: d :: rest =>
    match hexUnit? a b c d, high with
    | none, _ => .error ⟨.badString, rest⟩
    | some unit, some high =>
      if 0xDC00 ≤ unit && unit < 0xE000 then
        prepend (Char.ofNat (0x10000 + (high - 0xD800) * 0x400 + (unit - 0xDC00)))
          (stringBody none rest)
      else .error ⟨.badString, rest⟩
    | some unit, none =>
      if 0xD800 ≤ unit && unit < 0xDC00 then stringBody (some unit) rest
      else if 0xDC00 ≤ unit && unit < 0xE000 then .error ⟨.badString, rest⟩
      else prepend (Char.ofNat unit) (stringBody none rest)
  | some _, rest => .error ⟨.badString, rest⟩
  | none, [] => .error ⟨.endOfInput "a string", []⟩
  | none, '\x22' :: rest => .ok ([], rest)
  | none, '\\' :: c :: rest =>
    match escape? c with
    | some e => prepend e (stringBody none rest)
    | none => .error ⟨.badString, rest⟩
  | none, c :: rest =>
    if c.toNat < 0x20 then .error ⟨.badString, rest⟩ else prepend c (stringBody none rest)

/-- The characters of `word`, or else the cause. -/
def literal (word : List Char) (value : α) (cause : Malformed) : Reader α :=
  fun cs =>
    if word.isPrefixOf cs then .ok (value, cs.drop word.length) else .error ⟨cause, cs⟩

/-- A truth value. -/
def bool : Reader Bool
  | [] => .error ⟨.endOfInput "a value", []⟩
  | 't' :: rest => literal "rue".toList true .expectedValue rest
  | 'f' :: rest => literal "alse".toList false .expectedValue rest
  | rest => .error ⟨.wrongType "a boolean", rest⟩

/-- A whole number below 2^64, in digits without a zero in front. A point or an exponent would make
it another type. -/
def number : Reader Nat
  | [] => .error ⟨.endOfInput "a value", []⟩
  | c :: rest =>
    let digits := (c :: rest).takeWhile Char.isDigit
    let behind := (c :: rest).drop digits.length
    let value := Text.decimalValue digits
    if digits.isEmpty then .error ⟨.wrongType "usize", c :: rest⟩
    else if c = '0' && 1 < digits.length then .error ⟨.badNumber, rest⟩
    else if behind.head?.any (['.', 'e', 'E'].contains ·) then .error ⟨.wrongType "usize", behind⟩
    else if value < Nat.pow 2 64 then .ok (value, behind)
    else .error ⟨.wrongType "usize", behind⟩

/-- The options with a value read into a field. -/
def value (field : Field) (o : Options) : Reader Options :=
  fun cs =>
    match field with
    | .devFeatures => do
      let (b, rest) ← bool cs
      return ({ o with devFeatures := b }, rest)
    | .maxDepth => do
      let (n, rest) ← number cs
      return ({ o with maxDepth := n }, rest)
    | .maxInputBytes => do
      let (n, rest) ← number cs
      return ({ o with maxInputBytes := n }, rest)

/-- A name between quotes. -/
def name : Reader String
  | [] => .error ⟨.endOfInput "an object", []⟩
  | '\x22' :: rest => do
    let (text, rest) ← stringBody none rest
    return (String.ofList text, rest)
  | rest => .error ⟨.expectedToken "a name", rest⟩

/-- A field that was not read before. -/
def freshField (seen : List Field) : Reader Field :=
  fun cs => do
    let (text, rest) ← name cs
    match Field.ofName? text with
    | none => .error ⟨.unknownField text, rest⟩
    | some field =>
      if seen.contains field then .error ⟨.repeatedField field, rest⟩ else return (field, rest)

/-- A colon. -/
def colon : Reader Unit
  | [] => .error ⟨.endOfInput "an object", []⟩
  | ':' :: rest => .ok ((), rest)
  | rest => .error ⟨.expectedToken "\x60:\x60", rest⟩

/-- The fields of an object and its end, when `seen` were read before. No more fields can follow
than are not yet seen, which bounds the recursion. -/
def fields : Nat → List Field → Options → Reader Options
  | fuel, seen, o, cs => do
    let (field, rest) ← freshField seen (skipBlanks cs)
    let ((), rest) ← colon (skipBlanks rest)
    let (o, rest) ← value field o (skipBlanks rest)
    match skipBlanks rest, fuel with
    | '\x7d' :: rest, _ => return (o, rest)
    | ',' :: rest, fuel + 1 => fields fuel (field :: seen) o rest
    | [], _ => .error ⟨.endOfInput "an object", []⟩
    | rest, _ => .error ⟨.expectedToken "\x60,\x60 or \x60\x7d\x60", rest⟩

/-- The values of an array and its end, for these fields in turn. -/
def elements : List Field → Options → Reader Options
  | [], _, cs => .error ⟨.trailingCharacters, cs⟩
  | field :: others, o, cs => do
    let (o, rest) ← value field o (skipBlanks cs)
    match skipBlanks rest with
    | ']' :: rest => return (o, rest)
    | ',' :: rest => elements others o rest
    | [] => .error ⟨.endOfInput "a list", []⟩
    | rest => .error ⟨.expectedToken "\x60,\x60 or \x60]\x60", rest⟩

/-- The options, without what may follow. -/
def options : Reader Options
  | [] => .error ⟨.endOfInput "a value", []⟩
  | '\x7b' :: rest =>
    match skipBlanks rest with
    | '\x7d' :: rest => .ok (default, rest)
    | rest => fields Field.all.length [] default rest
  | '[' :: rest =>
    match skipBlanks rest with
    | ']' :: rest => .ok (default, rest)
    | rest => elements Field.all default rest
  | rest => .error ⟨.expectedValue, rest⟩

end Reader

/-- Reads options from a text. -/
def read (text : String) : Except Problem Options := do
  let (o, rest) ← Reader.options (Reader.skipBlanks text.toList)
  match Reader.skipBlanks rest with
  | [] => return o
  | rest => .error ⟨.trailingCharacters, rest⟩

end PipeQuery.Options
