import PipeQuery.Diagnostic.Cause
import PipeQuery.Token.Filter

/-!
# `PipeQuery.Parser.Basic`: steps of a parse

A step of a parse looks at the lexemes ahead and either returns a value or stops with a
diagnostic; in both cases it leaves a state behind. What does not change during a parse, the text
and the places of lexical errors, is the context.

A stopped step is not the end: a caller may record its diagnostic and go on from the state left.
-/

set_option autoImplicit false

namespace PipeQuery

namespace Parser

/-- What a parse knows from the start. -/
structure Context where
  /-- The text, in which the places of structural errors are counted. -/
  source : List Char
  /-- The token behind the last lexeme. -/
  endToken : Token
  /-- The starts of the error tokens, as their spans have them. -/
  errorStarts : List Nat
deriving DecidableEq, Repr

/-- What changes during a parse. -/
structure State where
  /-- The lexemes ahead, the token at the end of the text apart. -/
  rest : List Lexeme
  /-- Where the last token taken ended, as its span has it. -/
  prevEnd : Nat
  /-- How many levels of nesting are entered. -/
  depth : Nat
  /-- The diagnostics so far, the latest first. -/
  recorded : List Diagnostic
deriving DecidableEq, Repr

/-- The state in front of some lexemes. -/
def State.initial (rest : List Lexeme) : State :=
  ⟨rest, 0, 0, []⟩

end Parser

/-- A step of a parse. -/
def Parse (α : Type) : Type :=
  Parser.Context → Parser.State → Except Diagnostic α × Parser.State

namespace Parse

variable {α β : Type}

/-- A step that takes nothing. -/
protected def pure (a : α) : Parse α :=
  fun _ s => (.ok a, s)

/-- A step and then another, unless the first one stops. -/
protected def bind (p : Parse α) (f : α → Parse β) : Parse β :=
  fun c s =>
    match p c s with
    | (.ok a, s') => f a c s'
    | (.error d, s') => (.error d, s')

instance : Monad Parse where
  pure := Parse.pure
  bind := Parse.bind

@[simp]
theorem pure_apply (a : α) (c : Parser.Context) (s : Parser.State) :
    (pure a : Parse α) c s = (.ok a, s) := rfl

theorem bind_apply (p : Parse α) (f : α → Parse β) (c : Parser.Context) (s : Parser.State) :
    (p >>= f) c s =
      match p c s with
      | (.ok a, s') => f a c s'
      | (.error d, s') => (.error d, s') := rfl

/-- Stops with a diagnostic. -/
def stop (d : Diagnostic) : Parse α :=
  fun _ s => (.error d, s)

/-- The state. -/
def state : Parse Parser.State :=
  fun _ s => (.ok s, s)

/-- A look at the state and the context. -/
def look (f : Parser.Context → Parser.State → α) : Parse α :=
  fun c s => (.ok (f c s), s)

end Parse

namespace Parser

variable {α : Type}

/-- The token ahead. -/
def State.current (c : Context) (s : State) : Token :=
  match s.rest with
  | [] => c.endToken
  | l :: _ => l.token

/-- The kind of the token `n` tokens ahead. -/
def State.kindAt (s : State) (n : Nat) : Token.Kind :=
  match s.rest[n]? with
  | some l => l.token.kind
  | none => .eof

/-- The token ahead. -/
def current : Parse Token :=
  .look fun c s => s.current c

/-- The kind of the token ahead. -/
def peek : Parse Token.Kind :=
  .look fun _ s => s.kindAt 0

/-- The kind of the token behind the one ahead. -/
def peekSecond : Parse Token.Kind :=
  .look fun _ s => s.kindAt 1

/-- Hidden tokens stand right before the token ahead. -/
def isSpaced : Parse Bool :=
  .look fun _ s => s.rest.head?.any Lexeme.spaced

/-- How many lexemes are ahead. -/
def remaining : Parse Nat :=
  .look fun _ s => s.rest.length

/-- Takes the token ahead; the token at the end of the text stays. -/
def advance : Parse Token :=
  fun c s =>
    match s.rest with
    | [] => (.ok c.endToken, s)
    | l :: rest => (.ok l.token, { s with rest := rest, prevEnd := l.token.span.stop })

/-- The token ahead is of this kind. -/
def check (kind : Token.Kind) : Parse Bool :=
  .look fun _ s => s.kindAt 0 = kind

/-- Takes the token ahead if it is of this kind, and says whether it was. -/
def eat (kind : Token.Kind) : Parse Bool := do
  if ← check kind then
    let _ ← advance
    return true
  else
    return false

/-- The cause that `what` was expected at the token ahead. -/
def expectedCause (what : String) (token : Token) : Diagnostic.Cause :=
  .expected what (if token.kind = .eof then none else some token.text)

/-- The diagnostic that `what` was expected at the token ahead. -/
def expected (what : String) : Parse Diagnostic := do
  let token ← current
  return (expectedCause what token).onToken token

/-- Stops because `what` was expected. -/
def unexpected (what : String) : Parse α := do
  .stop (← expected what)

/-- Takes a token of this kind, or stops because `what` was expected. -/
def expect (kind : Token.Kind) (what : String) : Parse Token := do
  if ← check kind then advance else unexpected what

/-- A diagnostic at a span, its line and column counted in the text. -/
def located (cause : Diagnostic.Cause) (span : Span) : Parse Diagnostic :=
  .look fun c _ =>
    let position := Text.Position.locate c.source span.start
    cause.located span position.line position.col

/-- Keeps a diagnostic, unless the lexer found an error at its start, or one of the same kind that
starts there was kept before. -/
def record (d : Diagnostic) : Parse Unit :=
  fun c s =>
    if c.errorStarts.contains d.span.start ||
        s.recorded.any (fun e => e.span.start = d.span.start && e.kind = d.kind) then (.ok (), s)
    else (.ok (), { s with recorded := d :: s.recorded })

/-- Keeps a diagnostic at a span. -/
def report (cause : Diagnostic.Cause) (span : Span) : Parse Unit := do
  record (← located cause span)

/-- The span from the start of `first` to the end of the last token taken. -/
def spanFrom (first : Span) : Parse Span :=
  .look fun _ s => ⟨first.start, max s.prevEnd first.stop⟩

/-- Stops because the next level of nesting is beyond the limit, which is the level entered. -/
def tooDeep : Parse α := do
  let s ← Parse.state
  let token ← current
  .stop (Diagnostic.Cause.onToken (.tooDeep s.depth) token)

/-- A step one level of nesting deeper. -/
def deeper (p : Parse α) : Parse α :=
  fun c s =>
    match p c { s with depth := s.depth + 1 } with
    | (result, s') => (result, { s' with depth := s'.depth - 1 })

/-- A step as an attempt: if it stops or has no answer, the place in the text is as before. -/
def attempt (p : Parse (Option α)) : Parse (Option α) :=
  fun c s =>
    match p c s with
    | (.ok (some a), s') => (.ok (some a), s')
    | (_, s') => (.ok none, { s' with rest := s.rest, prevEnd := s.prevEnd })

/-- Further items, each behind a separator. The first argument is the number of lexemes ahead,
which bounds the number of separators. -/
def moreItems (separator : Token.Kind) (item : Parse α) : Nat → Parse (List α)
  | 0 => return []
  | fuel + 1 => do
    if ← eat separator then
      let first ← item
      let others ← moreItems separator item fuel
      return first :: others
    else
      return []

/-- Further items, each behind a separator. -/
def others (separator : Token.Kind) (item : Parse α) : Parse (List α) := do
  moreItems separator item (← remaining)

/-- One item or more with separators between them. -/
def separated (separator : Token.Kind) (item : Parse α) : Parse (List α) := do
  let first ← item
  let rest ← others separator item
  return first :: rest

end Parser

end PipeQuery
