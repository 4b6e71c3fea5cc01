/-!
# `PipeQuery.Text.Blank`: Unicode white space

The interactive shell ignores white space around what is typed. White space there is the Unicode
property `White_Space`, twenty-five characters, a wider class than the separators of the query
language itself.
-/

set_option autoImplicit false

namespace PipeQuery.Text

/-- The characters with the property `White_Space`. -/
def isWhiteSpace (c : Char) : Bool :=
  let n := c.toNat
  (0x9 ≤ n && n ≤ 0xD) || n = 0x20 || n = 0x85 || n = 0xA0 || n = 0x1680 ||
    (0x2000 ≤ n && n ≤ 0x200A) || n = 0x2028 || n = 0x2029 || n = 0x202F || n = 0x205F ||
    n = 0x3000

/-- The list without the elements at its end that satisfy `p`. -/
def dropEndWhile {α : Type} (p : α → Bool) (cs : List α) : List α :=
  (cs.reverse.dropWhile p).reverse

/-- The text without white space at either end. -/
def trim (text : String) : String :=
  String.ofList (dropEndWhile isWhiteSpace (text.toList.dropWhile isWhiteSpace))

/-- The text without the carriage returns and line feeds at its end. -/
def trimLineEnd (text : String) : String :=
  String.ofList (dropEndWhile (fun c => c = '\n' || c = '\r') text.toList)

end PipeQuery.Text
