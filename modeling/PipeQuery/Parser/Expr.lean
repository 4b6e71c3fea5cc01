import PipeQuery.Parser.Name
import PipeQuery.Query.Expr

/-!
# `PipeQuery.Parser.Expr`: expressions

Operators bind by power. An expression of some power takes every operator that binds at least as
tightly, so one function reads all levels of precedence:

    OR, AND, NOT, predicates, comparisons, + -, * / %, signs, casts

Predicates, `NOT`, `AND` and `OR` make conditions, which only `AND` and `OR` may combine; a
comparison is no operand of another one. Parentheses lift both rules.

Every function here is given `sub`, which reads an expression of a power one level of nesting
deeper. `expressionAt` ties the knot by recursion on the levels that are left.
-/

set_option autoImplicit false

namespace PipeQuery.Parser

open Diagnostic (Cause)

/-- What an expression may still be an operand of. -/
inductive Operand where
  /-- Of any operator. -/
  | value
  /-- Of a predicate, `AND` or `OR`. -/
  | comparison
  /-- Of `AND` or `OR` only. -/
  | condition
deriving DecidableEq, Repr

namespace Operand

/-- The operand in the words of a diagnostic. -/
def describe : Operand → String
  | .value => "a value"
  | .comparison => "a comparison"
  | .condition => "a condition"

/-- What an operation makes. -/
def ofBinary (op : BinaryOp) : Operand :=
  if op.isLogical then .condition else if op.isComparison then .comparison else .value

/-- The expression may stand on the left of the operator. -/
def allows (operand : Operand) (op : BinaryOp) : Bool :=
  op.isLogical || operand = .value

end Operand

/-! ### Binding powers -/

/-- The power of a binary operator. Its right operand binds one tighter, which makes chains lean to
the left. -/
def power : BinaryOp → Nat
  | .or => 1
  | .and => 3
  | .eq | .insensitiveEq | .ne | .lt | .le | .gt | .ge => 9
  | .add | .subtract => 11
  | .multiply | .divide | .modulo => 13

/-- The power of `NOT` in front of a condition. -/
def notPower : Nat :=
  5

/-- The power of `IN`, `LIKE`, `RLIKE`, `IS NULL` and `MATCH` behind a value. -/
def predicatePower : Nat :=
  7

/-- The power of a comparison, which is also that of the items of an `IN` list. -/
def comparisonPower : Nat :=
  9

/-- The power of a sign. -/
def signPower : Nat :=
  15

/-- The operator that a kind stands for between two operands. -/
def binaryOp? : Token.Kind → Option BinaryOp
  | .keyword .or => some .or
  | .keyword .and => some .and
  | .eq => some .eq
  | .ciEq => some .insensitiveEq
  | .ne => some .ne
  | .lt => some .lt
  | .le => some .le
  | .gt => some .gt
  | .ge => some .ge
  | .plus => some .add
  | .minus => some .subtract
  | .asterisk => some .multiply
  | .slash => some .divide
  | .percent => some .modulo
  | _ => none

/-- A token of this kind, followed by `second`, begins a predicate. -/
def beginsPredicate (first second : Token.Kind) : Bool :=
  match first with
  | .keyword .«in» | .keyword .like | .keyword .rlike | .keyword .is | .command .«match» => true
  | .keyword .not =>
    match second with
    | .keyword .«in» | .keyword .like | .keyword .rlike => true
    | _ => false
  | _ => false

/-! ### Literals -/

/-- A literal without parts. -/
def literalOf (literal : Literal) (token : Token) : Expr :=
  .literal literal token.span

/-- The string literal of a token. -/
def stringOf (token : Token) : Expr :=
  literalOf (.string token.text (Text.Quoted.decode token.text)) token

/-- The decimal literal of a token. -/
def decimalOf (token : Token) : Expr :=
  literalOf (.decimal token.text (.ofLiteral token.text)) token

/-- The value of an integer token, if it fits in 64 bits. -/
def integerValue (token : Token) : Option Nat :=
  bounded (Nat.pow 2 64) token.text.toList

/-- What an integer token begins: with a unit behind it a quantity, whose value must fit in 64 bits,
else an integer, or a decimal when it does not fit. -/
def integerLiteral (token : Token) : Parse Expr := do
  if ← check .identifier then
    let unit ← advance
    match integerValue token with
    | some value =>
      return .literal (.quantity token.text value unit.text) (token.span.merge unit.span)
    | none => .stop (← located (.numberOutOfRange token.text) token.span)
  else
    match integerValue token with
    | some value => return literalOf (.integer token.text value) token
    | none => return decimalOf token

/-- A string token. -/
def stringLiteral (what : String) : Parse Expr := do
  return stringOf (← expect .quotedString what)

/-! ### Primary expressions -/

/-- Expressions with commas between them. -/
def expressions (sub : Nat → Parse Expr) : Parse (List Expr) :=
  separated .comma (sub 0)

/-- The arguments of a call, behind its opening parenthesis: none, a star, or expressions. -/
def arguments (sub : Nat → Parse Expr) : Parse (List Expr) := do
  if ← check .rightParen then return []
  else
    let token ← current
    if ← eat .asterisk then return [literalOf .star token]
    else expressions sub

/-- A field, a parameter or a call. -/
def nameExpr (sub : Nat → Parse Expr) : Parse Expr := do
  let name ← fieldName
  match name.parts with
  | [part] =>
    if ← eat .leftParen then
      let args ← arguments sub
      let _ ← expect .rightParen "')'"
      return .call part args (← spanFrom name.span)
    else
      match part with
      | .parameter param span => return .parameter param span
      | .identifier _ => return .field name name.span
  | _ => return .field name name.span

/-- What stands behind an opening parenthesis: one expression, or the items of a list. -/
def parenthesized (sub : Nat → Parse Expr) (opening : Span) : Parse Expr := do
  let first ← sub 0
  if ← check .comma then
    let rest ← others .comma (sub 0)
    let _ ← expect .rightParen "')'"
    return .list (first :: rest) .paren (← spanFrom opening)
  else
    let _ ← expect .rightParen "')'"
    return first

/-- What stands behind an opening bracket: the items of a list. -/
def bracketed (sub : Nat → Parse Expr) (opening : Span) : Parse Expr := do
  let items ← if ← check .closeBracket then pure [] else expressions sub
  let _ ← expect .closeBracket "']'"
  return .list items .bracket (← spanFrom opening)

/-- An operand without casts. -/
def atom (sub : Nat → Parse Expr) : Parse Expr := do
  let token ← current
  match token.kind with
  | .integer =>
    let _ ← advance
    integerLiteral token
  | .decimal =>
    let _ ← advance
    return decimalOf token
  | .quotedString =>
    let _ ← advance
    return stringOf token
  | .keyword .null =>
    let _ ← advance
    return literalOf .null token
  | .keyword .«true» =>
    let _ ← advance
    return literalOf (.boolean true) token
  | .keyword .«false» =>
    let _ ← advance
    return literalOf (.boolean false) token
  | .identifier | .quotedIdentifier | .anonymousParam | .param => nameExpr sub
  | .leftParen =>
    let _ ← advance
    parenthesized sub token.span
  | .openBracket =>
    let _ ← advance
    bracketed sub token.span
  | _ => unexpected "an expression"

/-- The casts behind an operand. The first argument bounds their number. -/
def casts : Nat → Expr → Parse Expr
  | 0, e => return e
  | fuel + 1, e => do
    if ← eat .cast then
      let type ← identifier "a data type"
      casts fuel (.cast e type (e.span.merge type.span))
    else
      return e

/-- An operand with its casts. -/
def primary (sub : Nat → Parse Expr) : Parse Expr := do
  let e ← atom sub
  casts (← remaining) e

/-! ### Operations -/

/-- The beginning of an expression: an operator in front of an operand, or an operand. `NOT` stands
only where a condition may. -/
def leading (sub : Nat → Parse Expr) (minPower : Nat) : Parse (Expr × Operand) := do
  let token ← current
  match token.kind with
  | .keyword .not =>
    if notPower < minPower then unexpected "a value"
    else
      let _ ← advance
      let e ← sub notPower
      return (.unary .not e (token.span.merge e.span), .condition)
  | .minus =>
    let _ ← advance
    let e ← sub signPower
    return (.unary .negate e (token.span.merge e.span), .value)
  | .plus =>
    let _ ← advance
    let e ← sub signPower
    return (.unary .plus e (token.span.merge e.span), .value)
  | _ => return (← primary sub, .value)

/-- The predicate behind an operand. -/
def predicate (sub : Nat → Parse Expr) (operand : Expr) : Parse Expr := do
  let negated ← eat (.keyword .not)
  let token ← advance
  match token.kind with
  | .keyword .«in» =>
    let _ ← expect .leftParen "'('"
    let items ← separated .comma (sub comparisonPower)
    let _ ← expect .rightParen "')'"
    return .inList operand items negated (← spanFrom operand.span)
  | .keyword .like =>
    let pattern ← stringLiteral "a pattern string"
    return .like operand pattern .like negated (operand.span.merge pattern.span)
  | .keyword .rlike =>
    let pattern ← stringLiteral "a pattern string"
    return .like operand pattern .rlike negated (operand.span.merge pattern.span)
  | .keyword .is =>
    let notNull ← eat (.keyword .not)
    let null ← expect (.keyword .null) "NULL"
    return .isNull operand notNull (operand.span.merge null.span)
  | .command .«match» =>
    let query ← stringLiteral "a query string"
    return .«match» operand query (operand.span.merge query.span)
  | _ => .stop (← located (.strayPredicate token.text) token.span)

/-- Stops because the operator ahead cannot have such an operand on its left. -/
def misplaced {α : Type} (operand : Operand) : Parse α := do
  let token ← current
  .stop (Cause.onToken (.misplaced token.text operand.describe) token)

/-- The operators behind an operand, as far as they bind tightly enough. The first argument bounds
their number. -/
def operators (sub : Nat → Parse Expr) (minPower : Nat) : Nat → Expr → Operand → Parse Expr
  | 0, e, _ => return e
  | fuel + 1, e, operand => do
    let first ← peek
    if beginsPredicate first (← peekSecond) then
      if predicatePower < minPower then return e
      else if operand = .condition then misplaced operand
      else operators sub minPower fuel (← predicate sub e) .condition
    else
      match binaryOp? first with
      | none => return e
      | some op =>
        if power op < minPower then return e
        else if operand.allows op then
          let _ ← advance
          let right ← sub (power op + 1)
          operators sub minPower fuel (.binary e op right (e.span.merge right.span))
            (.ofBinary op)
        else misplaced operand

/-- An expression whose operators have at least this power. -/
def operation (sub : Nat → Parse Expr) (minPower : Nat) : Parse Expr := do
  let (e, operand) ← leading sub minPower
  operators sub minPower (← remaining) e operand

/-- An expression of at least this power, with so many levels of nesting left. -/
def expressionAt : Nat → Nat → Parse Expr
  | 0, _ => tooDeep
  | headroom + 1, minPower => deeper (operation (expressionAt headroom) minPower)

/-! ### Constants -/

/-- A number token. -/
def isNumber : Token.Kind → Bool
  | .integer | .decimal => true
  | _ => false

/-- A token that begins a constant. -/
def beginsConstant : Token.Kind → Bool
  | .keyword .null | .keyword .«true» | .keyword .«false» | .integer | .decimal | .quotedString
  | .anonymousParam | .param | .openBracket => true
  | _ => false

/-- A literal, a number with a sign, a parameter or a list in brackets. -/
def constant (sub : Nat → Parse Expr) : Parse Expr := do
  let first ← peek
  if (first = .minus || first = .plus) && isNumber (← peekSecond) then
    return (← leading sub signPower).1
  else if beginsConstant first then primary sub
  else unexpected "a constant"

end PipeQuery.Parser
