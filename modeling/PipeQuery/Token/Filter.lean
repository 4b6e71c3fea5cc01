import PipeQuery.Token.Basic

/-!
# `PipeQuery.Token.Filter`: the channels of a token list

The parser looks at the tokens of the default channel only, but one rule of the grammar asks
whether hidden tokens stand between two of them. A filter answers by number among the default
tokens; `Lexeme` is a default token that knows whether hidden ones stand before it.
-/

set_option autoImplicit false

namespace PipeQuery

/-- A token list with its default tokens numbered from 0. -/
structure TokenFilter where
  all : List Token
deriving DecidableEq, Repr

namespace TokenFilter

/-- The places in the list of the default tokens. -/
def places (f : TokenFilter) : List Nat :=
  (f.all.zipIdx.filter fun (t, _) => !t.isHidden).map Prod.snd

/-- The default tokens with their places in the list. -/
def significant (f : TokenFilter) : List (Nat × Token) :=
  f.places.filterMap fun i => f.all[i]?.map (i, ·)

/-- The number of default tokens. -/
def length (f : TokenFilter) : Nat :=
  f.places.length

/-- No token is on the default channel. -/
def isEmpty (f : TokenFilter) : Bool :=
  f.places.isEmpty

/-- The place in the list of the `i`-th default token. -/
def place? (f : TokenFilter) (i : Nat) : Option Nat :=
  f.places[i]?

/-- The `i`-th default token. -/
def get? (f : TokenFilter) (i : Nat) : Option Token :=
  (f.place? i).bind (f.all[·]?)

/-- The tokens strictly between the `i`-th and the `j`-th default token; none unless `i < j`. -/
def hiddenBetween (f : TokenFilter) (i j : Nat) : List Token :=
  match f.place? i, f.place? j with
  | some a, some b => if a < b then (f.all.take b).drop (a + 1) else []
  | _, _ => []

end TokenFilter

/-- A default token, and whether hidden tokens stand right before it. -/
structure Lexeme where
  token : Token
  spaced : Bool
deriving DecidableEq, Repr

namespace Lexeme

/-- The default tokens of a list. `spaced` says whether hidden tokens stand before the list. -/
def ofTokens (spaced : Bool) : List Token → List Lexeme
  | [] => []
  | t :: rest =>
    if t.isHidden then ofTokens true rest else ⟨t, spaced⟩ :: ofTokens false rest

end Lexeme

end PipeQuery
