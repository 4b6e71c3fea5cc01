/-!
# `PipeQuery.Json.Basic`: JSON values and their text

Objects keep the order of their fields. A number is kept as it is written, so that whoever makes
it decides on its digits.
-/

set_option autoImplicit false

namespace PipeQuery

/-- A JSON value. -/
inductive Json where
  | null
  | bool (value : Bool)
  | number (text : String)
  | string (value : String)
  | array (items : List Json)
  | object (fields : List (String × Json))
deriving Inhabited

namespace Json

/-- A whole number. -/
def nat (n : Nat) : Json :=
  .number (toString n)

/-- A value that may be missing. -/
def option {α : Type} (f : α → Json) : Option α → Json
  | some a => f a
  | none => .null

/-- An array of values of one type. -/
def list {α : Type} (f : α → Json) (items : List α) : Json :=
  .array (items.map f)

/-- A hexadecimal digit in lower case. -/
def hexDigit (n : Nat) : Char :=
  if n < 10 then Char.ofNat ('0'.toNat + n) else Char.ofNat ('a'.toNat + (n - 10))

/-- A character inside a string. Control characters are escaped, the common ones by a letter. -/
def escapeChar (c : Char) : List Char :=
  if c = '\x22' then ['\\', '\x22']
  else if c = '\\' then ['\\', '\\']
  else if c = '\n' then ['\\', 'n']
  else if c = '\r' then ['\\', 'r']
  else if c = '\t' then ['\\', 't']
  else if c = '\x08' then ['\\', 'b']
  else if c = '\x0c' then ['\\', 'f']
  else if c.toNat < 0x20 then
    ['\\', 'u', '0', '0', hexDigit (c.toNat / 16), hexDigit (c.toNat % 16)]
  else [c]

/-- A string between quotes. -/
def quote (text : String) : String :=
  String.ofList ('\x22' :: text.toList.flatMap escapeChar ++ ['\x22'])

/-- A line feed and the blanks of a nesting level. -/
def newLine (level : Nat) : String :=
  String.ofList ('\n' :: List.replicate (2 * level) ' ')

/-! ### Text

Both forms are written behind what is already there, so that a deep value costs no more than a flat
one of its size. -/

mutual

/-- `before` and the value over several lines, two blanks for each level. `level` is that of the
value. -/
def prettyAfter (level : Nat) (before : String) : Json → String
  | .null => before ++ "null"
  | .bool value => before ++ if value then "true" else "false"
  | .number text => before ++ text
  | .string value => before ++ quote value
  | .array [] => before ++ "[]"
  | .array (item :: items) =>
    prettyItems (level + 1) (prettyAfter (level + 1) (before ++ "[" ++ newLine (level + 1)) item)
        items ++
      newLine level ++ "]"
  | .object [] => before ++ "\x7b\x7d"
  | .object ((name, value) :: fields) =>
    prettyFields (level + 1)
        (prettyAfter (level + 1)
          (before ++ "\x7b" ++ newLine (level + 1) ++ quote name ++ ": ") value)
        fields ++
      newLine level ++ "\x7d"

/-- `before` and the items behind the first one. -/
def prettyItems (level : Nat) (before : String) : List Json → String
  | [] => before
  | item :: items =>
    prettyItems level (prettyAfter level (before ++ "," ++ newLine level) item) items

/-- `before` and the fields behind the first one. -/
def prettyFields (level : Nat) (before : String) : List (String × Json) → String
  | [] => before
  | (name, value) :: fields =>
    prettyFields level
      (prettyAfter level (before ++ "," ++ newLine level ++ quote name ++ ": ") value) fields

end

/-- The value over several lines. -/
def pretty (value : Json) : String :=
  prettyAfter 0 "" value

mutual

/-- `before` and the value on one line, without blanks. -/
def compactAfter (before : String) : Json → String
  | .null => before ++ "null"
  | .bool value => before ++ if value then "true" else "false"
  | .number text => before ++ text
  | .string value => before ++ quote value
  | .array [] => before ++ "[]"
  | .array (item :: items) => compactItems (compactAfter (before ++ "[") item) items ++ "]"
  | .object [] => before ++ "\x7b\x7d"
  | .object ((name, value) :: fields) =>
    compactFields (compactAfter (before ++ "\x7b" ++ quote name ++ ":") value) fields ++ "\x7d"

/-- `before` and the items behind the first one. -/
def compactItems (before : String) : List Json → String
  | [] => before
  | item :: items => compactItems (compactAfter (before ++ ",") item) items

/-- `before` and the fields behind the first one. -/
def compactFields (before : String) : List (String × Json) → String
  | [] => before
  | (name, value) :: fields =>
    compactFields (compactAfter (before ++ "," ++ quote name ++ ":") value) fields

end

/-- The value on one line, without blanks. -/
def compact (value : Json) : String :=
  compactAfter "" value

end Json

end PipeQuery
