import PipeQuery.Decimal.Binary64
import PipeQuery.Query.Name

/-!
# `PipeQuery.Query.Expr`: expressions

Every node keeps its place in the text. Numbers and strings keep the text as written beside the
value it stands for. `render` puts every operand that is itself an operation in parentheses, so
what it writes does not rest on the precedence of operators.
-/

set_option autoImplicit false

namespace PipeQuery

/-- A constant. -/
inductive Literal where
  | null
  | boolean (value : Bool)
  | integer (raw : String) (value : Nat)
  | decimal (raw : String) (value : Binary64)
  /-- An integer with a unit, such as `1 day`. -/
  | quantity (raw : String) (value : Nat) (unit : String)
  | string (raw : String) (value : String)
  /-- The argument of `count(*)`. -/
  | star
deriving DecidableEq, Repr, Inhabited

/-- The constant as query text. -/
def Literal.render : Literal → String
  | .null => "null"
  | .boolean value => if value then "true" else "false"
  | .integer raw _ | .decimal raw _ | .string raw _ => raw
  | .quantity raw _ unit => raw ++ " " ++ unit
  | .star => "*"

/-- Operators between two operands. -/
inductive BinaryOp where
  | add
  | subtract
  | multiply
  | divide
  | modulo
  | eq
  | insensitiveEq
  | ne
  | lt
  | le
  | gt
  | ge
  | and
  | or
deriving DecidableEq, Repr, Inhabited

namespace BinaryOp

/-- The operator compares two values. -/
def isComparison : BinaryOp → Bool
  | .eq | .insensitiveEq | .ne | .lt | .le | .gt | .ge => true
  | _ => false

/-- The operator combines two conditions. -/
def isLogical : BinaryOp → Bool
  | .and | .or => true
  | _ => false

/-- The operator as query text. -/
def text : BinaryOp → String
  | .add => "+"
  | .subtract => "-"
  | .multiply => "*"
  | .divide => "/"
  | .modulo => "%"
  | .eq => "=="
  | .insensitiveEq => "=~"
  | .ne => "!="
  | .lt => "<"
  | .le => "<="
  | .gt => ">"
  | .ge => ">="
  | .and => "AND"
  | .or => "OR"

end BinaryOp

/-- Operators in front of one operand. -/
inductive UnaryOp where
  | negate
  | plus
  | not
deriving DecidableEq, Repr, Inhabited

/-- The operator as query text, with the blank that a word needs behind it. -/
def UnaryOp.text : UnaryOp → String
  | .negate => "-"
  | .plus => "+"
  | .not => "NOT "

/-- The operators that compare with a string pattern. -/
inductive LikeOp where
  | like
  | rlike
deriving DecidableEq, Repr, Inhabited

/-- The operator as query text. -/
def LikeOp.text : LikeOp → String
  | .like => "LIKE"
  | .rlike => "RLIKE"

/-- What a list stands between. -/
inductive Delimiter where
  | bracket
  | paren
deriving DecidableEq, Repr, Inhabited

/-- An expression. -/
inductive Expr where
  | literal (literal : Literal) (span : Span)
  | field (name : FieldName) (span : Span)
  | parameter (param : Parameter) (span : Span)
  | call (name : NamePart) (args : List Expr) (span : Span)
  | binary (left : Expr) (op : BinaryOp) (right : Expr) (span : Span)
  | unary (op : UnaryOp) (operand : Expr) (span : Span)
  | cast (operand : Expr) (type : Identifier) (span : Span)
  | list (items : List Expr) (delimiter : Delimiter) (span : Span)
  | inList (operand : Expr) (items : List Expr) (negated : Bool) (span : Span)
  | like (operand : Expr) (pattern : Expr) (op : LikeOp) (negated : Bool) (span : Span)
  | isNull (operand : Expr) (negated : Bool) (span : Span)
  | «match» (operand : Expr) (query : Expr) (span : Span)
deriving Inhabited

namespace Expr

/-- The place of the expression. -/
def span : Expr → Span
  | .literal _ span | .field _ span | .parameter _ span | .call _ _ span | .binary _ _ _ span
  | .unary _ _ span | .cast _ _ span | .list _ _ span | .inList _ _ _ span | .like _ _ _ _ span
  | .isNull _ _ span | .«match» _ _ span => span

/-- The expression is a string literal. -/
def isString : Expr → Bool
  | .literal (.string ..) _ => true
  | _ => false

/-- The expression is an operation, which needs parentheses as an operand. -/
def isCompound : Expr → Bool
  | .binary .. | .unary .. | .inList .. | .like .. | .isNull .. | .«match» .. => true
  | _ => false

/-- The text of an operand, in parentheses if it is an operation. -/
def operand (compound : Bool) (text : String) : String :=
  if compound then "(" ++ text ++ ")" else text

mutual

/-- The expression as query text. -/
def render : Expr → String
  | .literal l _ => l.render
  | .field name _ => name.render
  | .parameter param _ => param.render
  | .call name args _ => name.render ++ "(" ++ Text.joined ", " (renderAll args) ++ ")"
  | .binary left op right _ =>
    operand left.isCompound (render left) ++ " " ++ op.text ++ " " ++
      operand right.isCompound (render right)
  | .unary op e _ => op.text ++ operand e.isCompound (render e)
  | .cast e type _ => operand e.isCompound (render e) ++ "::" ++ type.render
  | .list items .bracket _ => "[" ++ Text.joined ", " (renderAll items) ++ "]"
  | .list items .paren _ => "(" ++ Text.joined ", " (renderAll items) ++ ")"
  | .inList e items negated _ =>
    operand e.isCompound (render e) ++ (if negated then " NOT" else "") ++ " IN (" ++
      Text.joined ", " (renderAll items) ++ ")"
  | .like e pattern op negated _ =>
    operand e.isCompound (render e) ++ (if negated then " NOT " else " ") ++ op.text ++ " " ++
      render pattern
  | .isNull e negated _ =>
    operand e.isCompound (render e) ++ if negated then " IS NOT NULL" else " IS NULL"
  | .«match» e query _ => operand e.isCompound (render e) ++ " MATCH " ++ render query

/-- The expressions as query text, one by one. -/
def renderAll : List Expr → List String
  | [] => []
  | e :: es => render e :: renderAll es

end

/-- The expression as an operand. -/
def renderOperand (e : Expr) : String :=
  operand e.isCompound e.render

end Expr

end PipeQuery
