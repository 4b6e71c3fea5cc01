import PipeQuery.Parser.Expr
import PipeQuery.Proofs.Parser.Name

/-!
# `PipeQuery.Proofs.Expr.Grammar`: the grammar of expressions

The parser of expressions reads all levels of precedence in one loop. The grammar here has them one
by one:

    disjunction := conjunction (OR conjunction)*
    conjunction := negation (AND negation)*
    negation    := NOT negation | predicate
    predicate   := comparison [ [NOT] IN '(' comparison (',' comparison)* ')'
                              | [NOT] LIKE string | [NOT] RLIKE string
                              | IS [NOT] NULL | MATCH string ]
    comparison  := sum [ ('==' | '=~' | '!=' | '<' | '<=' | '>' | '>=') sum ]
    sum         := product (('+' | '-') product)*
    product     := sign (('*' | '/' | '%') sign)*
    sign        := ('-' | '+') sign | primary
    primary     := atom ('::' identifier)*

`Derives level w e` says that the lexemes `w` are derivable at a level, and that `e` is the tree of
the derivation. Chains lean to the left. Atoms are literals, names, parameters, calls, parentheses
and lists, and what stands inside these is again a disjunction.
-/

set_option autoImplicit false

namespace PipeQuery.Parser

/-- The levels of the grammar, the loosest first. -/
inductive Level where
  | disjunction
  | conjunction
  | negation
  | predicate
  | comparison
  | sum
  | product
  | sign
  | primary
  | atom
deriving DecidableEq, Repr

namespace Level

/-- The level that binds one step tighter. -/
def next? : Level → Option Level
  | .disjunction => some .conjunction
  | .conjunction => some .negation
  | .negation => some .predicate
  | .predicate => some .comparison
  | .comparison => some .sum
  | .sum => some .product
  | .product => some .sign
  | .sign => some .primary
  | .primary => some .atom
  | .atom => none

/-- The level of a binary operator. -/
def ofOp : BinaryOp → Level
  | .or => .disjunction
  | .and => .conjunction
  | .eq | .insensitiveEq | .ne | .lt | .le | .gt | .ge => .comparison
  | .add | .subtract => .sum
  | .multiply | .divide | .modulo => .product

end Level

/-- The operator of a sign in front of an operand. -/
def signOp? : Token.Kind → Option UnaryOp
  | .minus => some .negate
  | .plus => some .plus
  | _ => none

/-- The keyword of an operator that compares with a string pattern. -/
def likeKeyword : LikeOp → Keyword
  | .like => .like
  | .rlike => .rlike

/-- Nothing, or the word `NOT`. -/
inductive IsNegation : List Lexeme → Bool → Prop where
  | absent : IsNegation [] false
  | present {l : Lexeme} (h : l.token.kind = .keyword .not) : IsNegation [l] true

/-- The value of an integer token. -/
def integerOf (t : Token) : Nat :=
  Text.decimalValue t.text.toList

/-- The lexemes are derivable at the level, and the expression is the tree of the derivation. The
items of a list are of some sort `item` of texts that are derivable. -/
inductive Derives : Level → List Lexeme → Expr → Prop where
  /-- What is derivable at a tighter level. -/
  | up {level next : Level} {w : List Lexeme} {e : Expr} (hnext : level.next? = some next)
    (h : Derives next w e) : Derives level w e
  /-- A chain of operators of one level, comparisons apart. -/
  | chain {op : BinaryOp} {next : Level} {l : Lexeme} {w w' : List Lexeme} {e e' : Expr}
    (hop : binaryOp? l.token.kind = some op) (hchain : op.isComparison = false)
    (hnext : (Level.ofOp op).next? = some next) (left : Derives (.ofOp op) w e)
    (right : Derives next w' e') :
    Derives (.ofOp op) (w ++ l :: w') (.binary e op e' (e.span.merge e'.span))
  | compare {op : BinaryOp} {l : Lexeme} {w w' : List Lexeme} {e e' : Expr}
    (hop : binaryOp? l.token.kind = some op) (hcompare : op.isComparison = true)
    (left : Derives .sum w e) (right : Derives .sum w' e') :
    Derives .comparison (w ++ l :: w') (.binary e op e' (e.span.merge e'.span))
  | not {l : Lexeme} {w : List Lexeme} {e : Expr} (hl : l.token.kind = .keyword .not)
    (h : Derives .negation w e) :
    Derives .negation (l :: w) (.unary .not e (l.token.span.merge e.span))
  | inList {l opening closing : Lexeme} {w n w' : List Lexeme} {e : Expr} {es : List Expr}
    {negated : Bool} {item : List Lexeme → Expr → Prop} (h : Derives .comparison w e)
    (hn : IsNegation n negated) (hl : l.token.kind = .keyword .«in»)
    (hopening : opening.token.kind = .leftParen) (hitems : SepBy .comma item w' es)
    (hitem : ∀ w e, item w e → Derives .comparison w e)
    (hclosing : closing.token.kind = .rightParen) :
    Derives .predicate (w ++ (n ++ l :: opening :: (w' ++ [closing])))
      (.inList e es negated (spanOver e.span [closing]))
  | like {op : LikeOp} {l pattern : Lexeme} {w n : List Lexeme} {e : Expr} {negated : Bool}
    (h : Derives .comparison w e) (hn : IsNegation n negated)
    (hl : l.token.kind = .keyword (likeKeyword op)) (hpattern : pattern.token.kind = .quotedString) :
    Derives .predicate (w ++ (n ++ [l, pattern]))
      (.like e (stringOf pattern.token) op negated (e.span.merge pattern.token.span))
  | isNull {l null : Lexeme} {w n : List Lexeme} {e : Expr} {negated : Bool}
    (h : Derives .comparison w e) (hl : l.token.kind = .keyword .is) (hn : IsNegation n negated)
    (hnull : null.token.kind = .keyword .null) :
    Derives .predicate (w ++ l :: (n ++ [null]))
      (.isNull e negated (e.span.merge null.token.span))
  | «match» {l query : Lexeme} {w : List Lexeme} {e : Expr} (h : Derives .comparison w e)
    (hl : l.token.kind = .command .«match») (hquery : query.token.kind = .quotedString) :
    Derives .predicate (w ++ [l, query])
      (.«match» e (stringOf query.token) (e.span.merge query.token.span))
  | sign {op : UnaryOp} {l : Lexeme} {w : List Lexeme} {e : Expr}
    (hop : signOp? l.token.kind = some op) (h : Derives .sign w e) :
    Derives .sign (l :: w) (.unary op e (l.token.span.merge e.span))
  | cast {l type : Lexeme} {w : List Lexeme} {e : Expr} {id : Identifier}
    (h : Derives .primary w e) (hl : l.token.kind = .cast) (hid : IsIdentifier type id) :
    Derives .primary (w ++ [l, type]) (.cast e id (e.span.merge id.span))
  | nullWord {l : Lexeme} (hl : l.token.kind = .keyword .null) :
    Derives .atom [l] (literalOf .null l.token)
  | trueWord {l : Lexeme} (hl : l.token.kind = .keyword .«true») :
    Derives .atom [l] (literalOf (.boolean true) l.token)
  | falseWord {l : Lexeme} (hl : l.token.kind = .keyword .«false») :
    Derives .atom [l] (literalOf (.boolean false) l.token)
  | string {l : Lexeme} (hl : l.token.kind = .quotedString) : Derives .atom [l] (stringOf l.token)
  | decimal {l : Lexeme} (hl : l.token.kind = .decimal) : Derives .atom [l] (decimalOf l.token)
  /-- An integer that fits in 64 bits. -/
  | integer {l : Lexeme} (hl : l.token.kind = .integer) (hfits : integerOf l.token < 2 ^ 64) :
    Derives .atom [l] (literalOf (.integer l.token.text (integerOf l.token)) l.token)
  /-- An integer that does not fit is a decimal. -/
  | wideInteger {l : Lexeme} (hl : l.token.kind = .integer) (hwide : 2 ^ 64 ≤ integerOf l.token) :
    Derives .atom [l] (decimalOf l.token)
  /-- An integer with a unit, which must fit in 64 bits. -/
  | quantity {l unit : Lexeme} (hl : l.token.kind = .integer) (hfits : integerOf l.token < 2 ^ 64)
    (hunit : unit.token.kind = .identifier) :
    Derives .atom [l, unit] (.literal (.quantity l.token.text (integerOf l.token) unit.token.text)
      (l.token.span.merge unit.token.span))
  | parameter {l : Lexeme} {param : Parameter} (h : IsParameter l param) :
    Derives .atom [l] (.parameter param l.token.span)
  /-- A dotted name. A single parameter is none. -/
  | field {w : List Lexeme} {name : FieldName} (h : IsFieldName w name)
    (hname : ∀ param span, name.parts ≠ [.parameter param span]) :
    Derives .atom w (.field name name.span)
  | call {l opening closing : Lexeme} {part : NamePart} (h : IsNamePart [l] part)
    (hopening : opening.token.kind = .leftParen) (hclosing : closing.token.kind = .rightParen) :
    Derives .atom [l, opening, closing] (.call part [] (spanOver (spanOver part.span [l]) [closing]))
  | callStar {l opening star closing : Lexeme} {part : NamePart} (h : IsNamePart [l] part)
    (hopening : opening.token.kind = .leftParen) (hstar : star.token.kind = .asterisk)
    (hclosing : closing.token.kind = .rightParen) :
    Derives .atom [l, opening, star, closing]
      (.call part [literalOf .star star.token] (spanOver (spanOver part.span [l]) [closing]))
  | callWith {l opening closing : Lexeme} {w : List Lexeme} {part : NamePart} {es : List Expr}
    {item : List Lexeme → Expr → Prop} (h : IsNamePart [l] part)
    (hopening : opening.token.kind = .leftParen) (hitems : SepBy .comma item w es)
    (hitem : ∀ w e, item w e → Derives .disjunction w e)
    (hclosing : closing.token.kind = .rightParen) :
    Derives .atom (l :: opening :: (w ++ [closing]))
      (.call part es (spanOver (spanOver part.span [l]) [closing]))
  | paren {opening closing : Lexeme} {w : List Lexeme} {e : Expr}
    (hopening : opening.token.kind = .leftParen) (h : Derives .disjunction w e)
    (hclosing : closing.token.kind = .rightParen) : Derives .atom (opening :: (w ++ [closing])) e
  /-- Two items or more between parentheses. -/
  | parenList {opening closing : Lexeme} {w : List Lexeme} {e e' : Expr} {es : List Expr}
    {item : List Lexeme → Expr → Prop} (hopening : opening.token.kind = .leftParen)
    (hitems : SepBy .comma item w (e :: e' :: es))
    (hitem : ∀ w e, item w e → Derives .disjunction w e)
    (hclosing : closing.token.kind = .rightParen) :
    Derives .atom (opening :: (w ++ [closing]))
      (.list (e :: e' :: es) .paren (spanOver opening.token.span [closing]))
  | emptyList {opening closing : Lexeme} (hopening : opening.token.kind = .openBracket)
    (hclosing : closing.token.kind = .closeBracket) :
    Derives .atom [opening, closing] (.list [] .bracket (spanOver opening.token.span [closing]))
  | bracketList {opening closing : Lexeme} {w : List Lexeme} {es : List Expr}
    {item : List Lexeme → Expr → Prop} (hopening : opening.token.kind = .openBracket)
    (hitems : SepBy .comma item w es) (hitem : ∀ w e, item w e → Derives .disjunction w e)
    (hclosing : closing.token.kind = .closeBracket) :
    Derives .atom (opening :: (w ++ [closing]))
      (.list es .bracket (spanOver opening.token.span [closing]))

/-! ### Levels and binding powers -/

namespace Level

/-- The binding power that a level stands for. -/
def power : Level → Nat
  | .disjunction => 1
  | .conjunction => 3
  | .negation => 5
  | .predicate => 7
  | .comparison => 9
  | .sum => 11
  | .product => 13
  | .sign => 15
  | .primary => 17
  | .atom => 19

/-- The level of an operator has its power. -/
theorem power_ofOp (op : BinaryOp) : (ofOp op).power = Parser.power op := by
  cases op <;> rfl

/-- The next level has the next power, two more. -/
theorem power_next {level next : Level} (h : level.next? = some next) :
    next.power = level.power + 2 := by
  cases level <;> cases h <;> rfl

end Level

/-- What is derivable at a level is so at all looser ones. -/
theorem Derives.widen {level level' : Level} {w : List Lexeme} {e : Expr} (h : Derives level w e)
    (hle : level'.power ≤ level.power) : Derives level' w e := by
  induction hk : level.power - level'.power using Nat.strongRecOn generalizing level' with
  | _ k ih =>
      by_cases heq : level' = level
      · exact heq ▸ h
      · have hlt : level'.power < level.power := by
          refine Nat.lt_of_le_of_ne hle fun hpower => heq ?_
          cases level' <;> cases level <;> first | rfl | (exact absurd hpower (by decide))
        cases hnext : level'.next? with
        | none => cases level' <;> cases hnext; cases level <;> exact absurd hlt (by decide)
        | some next =>
            have hpower := Level.power_next hnext
            -- Powers are odd, so the next level is not beyond `level`.
            have hnextle : next.power ≤ level.power := by
              cases level' <;> cases hnext <;> cases level <;> first
                | decide
                | exact absurd hlt (by decide)
            exact .up hnext (ih (level.power - next.power) (by omega) hnextle rfl)

/-- Nothing is derived from no lexemes. -/
theorem Derives.ne_nil {level : Level} {w : List Lexeme} {e : Expr} (h : Derives level w e) :
    w ≠ [] := by
  induction h with
  | up _ _ ih => exact ih
  | field h => exact h.ne_nil
  | inList _ _ _ _ _ _ _ ih _ => simp [ih]
  | like _ _ _ _ ih | isNull _ _ _ _ ih | «match» _ _ _ ih => simp [ih]
  | _ => simp

end PipeQuery.Parser
