/-!
# `PipeQuery.Text.Bytes`: byte offsets on lists of characters

Places in a query text are byte offsets of its UTF-8 form, while everything that looks at the
text looks at characters. This module is the bridge: how many bytes some characters take, and
the characters between two byte offsets, when both fall between characters.
-/

set_option autoImplicit false

namespace PipeQuery.Text

/-- The number of bytes that the characters take in UTF-8. -/
def byteLength (cs : List Char) : Nat :=
  cs.foldr (fun c n => c.utf8Size + n) 0

@[simp]
theorem byteLength_nil : byteLength [] = 0 := rfl

@[simp]
theorem byteLength_cons (c : Char) (cs : List Char) :
    byteLength (c :: cs) = c.utf8Size + byteLength cs := rfl

@[simp]
theorem byteLength_append (cs ds : List Char) :
    byteLength (cs ++ ds) = byteLength cs + byteLength ds := by
  induction cs with
  | nil => exact (Nat.zero_add _).symm
  | cons c cs ih => rw [List.cons_append, byteLength_cons, byteLength_cons, ih, Nat.add_assoc]

/-- The characters that lie after the first `n` bytes; none when `n` falls inside a character
or past the end. -/
def dropBytes : Nat → List Char → Option (List Char)
  | n, [] => if n = 0 then some [] else none
  | n, c :: cs =>
    if n = 0 then some (c :: cs)
    else if c.utf8Size ≤ n then dropBytes (n - c.utf8Size) cs
    else none

/-- The characters that fill exactly the first `n` bytes; none when `n` falls inside a character
or past the end. -/
def takeBytes : Nat → List Char → Option (List Char)
  | n, [] => if n = 0 then some [] else none
  | n, c :: cs =>
    if n = 0 then some []
    else if c.utf8Size ≤ n then (takeBytes (n - c.utf8Size) cs).map (c :: ·)
    else none

/-- The characters between two byte offsets; none when the range is reversed, leaves the text or
cuts a character. -/
def slice? (cs : List Char) (start stop : Nat) : Option (List Char) :=
  if start ≤ stop then (dropBytes start cs).bind (takeBytes (stop - start)) else none

/-- The text between two byte offsets, empty where `slice?` has no answer. -/
def slice (text : String) (start stop : Nat) : String :=
  String.ofList ((slice? text.toList start stop).getD [])

/-- The number of leading characters that end at or before byte `n`. -/
def fitting : Nat → List Char → Nat
  | _, [] => 0
  | n, c :: cs => if c.utf8Size ≤ n then fitting (n - c.utf8Size) cs + 1 else 0

end PipeQuery.Text
