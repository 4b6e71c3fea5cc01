import PipeQuery.Proofs.Expr.Carried
import PipeQuery.Proofs.Parser.Lockstep

/-!
# `PipeQuery.Proofs.Expr.Lockstep`: readers of expressions in lockstep

If two readers of the expressions one level deeper are in lockstep, then so are the readers of
expressions made of them, down to `operation`.
-/

set_option autoImplicit false

namespace PipeQuery.Parser.Lockstep

open Diagnostic (Cause)
open PipeQuery.Parser.Embedding (predicateBehind predicate_eq)

variable (L : Lockstep)

/-! ### Literals -/

/-- A literal on the image of a token is the image of the literal. -/
theorem literalOf_token (literal : Literal) (t : Token) :
    literalOf literal (L.token t) = (literalOf literal t).mapSpans L.place := by
  rw [literalOf, literalOf, Expr.mapSpans, L.token_span]

/-- So is a string. -/
theorem stringOf_token (t : Token) : stringOf (L.token t) = (stringOf t).mapSpans L.place := by
  rw [stringOf, stringOf, L.token_text, literalOf_token]

/-- So is a decimal. -/
theorem decimalOf_token (t : Token) : decimalOf (L.token t) = (decimalOf t).mapSpans L.place := by
  rw [decimalOf, decimalOf, L.token_text, literalOf_token]

/-- The value of a token is that of its text, which the image has as well. -/
theorem integerValue_token (t : Token) : integerValue (L.token t) = integerValue t := by
  rw [integerValue, integerValue, L.token_text]

/-- An integer is read in both, with the unit behind it or without. -/
theorem relates_integerLiteral (t : Token) :
    L.relates (Expr.mapSpans L.place) (integerLiteral t) (integerLiteral (L.token t)) := by
  refine L.relates_bind (L.relates_check _) fun _ => ?_
  simp only [integerValue_token, literalOf_token, decimalOf_token, token_text, token_span]
  refine relates_ite (L.relates_bind L.relates_advance fun unit => ?_) ?_
  · cases integerValue t with
    | some value =>
        refine relates_of_eq ?_
        rw [Expr.mapSpans, L.place_merge, L.token_text, L.token_span]
    | none => exact L.relates_stopAt _ _
  · cases integerValue t with
    | some value => exact L.relates_pure _
    | none => exact L.relates_pure _

/-- A string literal is read in both. -/
theorem relates_stringLiteral (what : String) :
    L.relates (Expr.mapSpans L.place) (stringLiteral what) (stringLiteral what) :=
  L.relates_bind (L.relates_expect _ what) fun t => relates_of_eq (L.stringOf_token t)

/-! ### Primary expressions -/

/-- The readers of expressions are in lockstep, whatever the power. -/
def RelatesAll (sub sub' : Nat → Parse Expr) : Prop :=
  ∀ power, L.relates (Expr.mapSpans L.place) (sub power) (sub' power)

section

variable {L} {sub sub' : Nat → Parse Expr} (hsub : L.RelatesAll sub sub')

include hsub

/-- Lists of expressions are read in both. -/
theorem relates_expressions :
    L.relates (List.map (Expr.mapSpans L.place)) (expressions sub) (expressions sub') :=
  relates_separated (hsub 0)

/-- The arguments of a call are read in both. -/
theorem relates_arguments :
    L.relates (List.map (Expr.mapSpans L.place)) (arguments sub) (arguments sub') := by
  refine L.relates_bind (L.relates_check _) fun _ => relates_ite (L.relates_pure _) ?_
  refine L.relates_bind L.relates_current fun t => L.relates_bind (L.relates_eat _) fun _ => ?_
  refine relates_ite (relates_of_eq ?_) (relates_expressions hsub)
  rw [literalOf_token, List.map_singleton]

/-- A name or a call is read in both. -/
theorem relates_nameExpr : L.relates (Expr.mapSpans L.place) (nameExpr sub) (nameExpr sub') := by
  refine L.relates_bind L.relates_fieldName fun name => ?_
  obtain ⟨parts, span⟩ := name
  -- Only a name of one part can be called.
  match parts with
  | [] => exact L.relates_pure _
  | _ :: _ :: _ => exact L.relates_pure _
  | [part] =>
      refine L.relates_bind (L.relates_eat _) fun _ => relates_ite ?_ ?_
      · refine L.relates_bind (relates_arguments hsub) fun args =>
          L.relates_bind (L.relates_expect _ _) fun _ =>
            L.relates_bind (L.relates_spanFrom _) fun _ => relates_of_eq ?_
        rw [Expr.mapSpans, Expr.mapSpansAll_eq_map]
      · cases part with
        | identifier | parameter => exact L.relates_pure _

/-- What begins with `(` is read in both. -/
theorem relates_parenthesized (opening : Span) :
    L.relates (Expr.mapSpans L.place) (parenthesized sub opening)
      (parenthesized sub' (L.place opening)) := by
  refine L.relates_bind (hsub 0) fun first => L.relates_bind (L.relates_check _) fun _ =>
    relates_ite ?_ (L.relates_bind (L.relates_expect _ _) fun _ => L.relates_pure _)
  refine L.relates_bind (relates_others (hsub 0)) fun rest =>
    L.relates_bind (L.relates_expect _ _) fun _ =>
      L.relates_bind (L.relates_spanFrom _) fun _ => relates_of_eq ?_
  rw [Expr.mapSpans, Expr.mapSpansAll_eq_map, List.map_cons]

/-- What begins with `[` is read in both. -/
theorem relates_bracketed (opening : Span) :
    L.relates (Expr.mapSpans L.place) (bracketed sub opening)
      (bracketed sub' (L.place opening)) := by
  have hbehind : ∀ items : List Expr,
      L.relates (Expr.mapSpans L.place)
        (do
          let _ ← expect .closeBracket "']'"
          return Expr.list items .bracket (← spanFrom opening))
        (do
          let _ ← expect .closeBracket "']'"
          return Expr.list (items.map (Expr.mapSpans L.place)) .bracket
            (← spanFrom (L.place opening))) := by
    intro items
    refine L.relates_bind (L.relates_expect _ _) fun _ =>
      L.relates_bind (L.relates_spanFrom _) fun _ => relates_of_eq ?_
    rw [Expr.mapSpans, Expr.mapSpansAll_eq_map]
  refine L.relates_bind (L.relates_check _) fun none => ?_
  cases none with
  | true => exact hbehind []
  | false => exact L.relates_bind (relates_expressions hsub) hbehind

/-- An atom is read in both. -/
theorem relates_atom : L.relates (Expr.mapSpans L.place) (atom sub) (atom sub') := by
  refine L.relates_bind L.relates_current fun t => ?_
  simp only [token_kind, token_span, stringOf_token, decimalOf_token, literalOf_token]
  -- Most kinds are taken; a name is read as a whole and all else is no operand.
  cases t.kind with
  | integer => exact L.relates_bind L.relates_advance fun _ => L.relates_integerLiteral t
  | decimal => exact L.relates_bind L.relates_advance fun _ => L.relates_pure _
  | quotedString => exact L.relates_bind L.relates_advance fun _ => L.relates_pure _
  | keyword word =>
      cases word with
      | null | «true» | «false» =>
          exact L.relates_bind L.relates_advance fun _ => L.relates_pure _
      | _ => exact L.relates_unexpected _
  | identifier | quotedIdentifier | anonymousParam | param => exact relates_nameExpr hsub
  | leftParen =>
      exact L.relates_bind L.relates_advance fun _ => relates_parenthesized hsub t.span
  | openBracket =>
      exact L.relates_bind L.relates_advance fun _ => relates_bracketed hsub t.span
  | _ => exact L.relates_unexpected _

omit hsub in
/-- Casts are read in both, one by one. -/
theorem relates_casts (fuel : Nat) (e : Expr) :
    L.relates (Expr.mapSpans L.place) (casts fuel e) (casts fuel (e.mapSpans L.place)) := by
  induction fuel generalizing e with
  | zero => exact L.relates_pure _
  | succ fuel ih =>
      refine L.relates_bind (L.relates_eat _) fun _ => relates_ite ?_ (L.relates_pure _)
      refine L.relates_bind (L.relates_identifier _) fun type => ?_
      have hcast : Expr.cast (e.mapSpans L.place) (type.mapSpans L.place)
          ((e.mapSpans L.place).span.merge (type.mapSpans L.place).span) =
          (Expr.cast e type (e.span.merge type.span)).mapSpans L.place := by
        rw [Expr.mapSpans, L.place_merge, Expr.span_mapSpans, Identifier.mapSpans]
      rw [hcast]
      exact ih _

/-- A primary expression is read in both. -/
theorem relates_primary : L.relates (Expr.mapSpans L.place) (primary sub) (primary sub') :=
  L.relates_bind (relates_atom hsub) fun e =>
    L.relates_bind L.relates_remaining fun fuel => relates_casts fuel e

/-! ### Operations -/

/-- What stands in front of the first operator is read in both. -/
theorem relates_leading (minPower : Nat) :
    L.relates (Prod.map (Expr.mapSpans L.place) id) (leading sub minPower)
      (leading sub' minPower) := by
  refine L.relates_bind L.relates_current fun t => ?_
  simp only [token_kind, token_span]
  -- An operator in front of an operand stretches over both.
  have hsign : ∀ (power : Nat) (op : UnaryOp) (operand : Operand),
      L.relates (Prod.map (Expr.mapSpans L.place) id)
        (do
          let _ ← advance
          let e ← sub power
          return (Expr.unary op e (t.span.merge e.span), operand))
        (do
          let _ ← advance
          let e ← sub' power
          return (Expr.unary op e ((L.place t.span).merge e.span), operand)) := by
    intro power op operand
    refine L.relates_bind L.relates_advance fun _ => L.relates_bind (hsub power) fun e =>
      relates_of_eq ?_
    simp only [Prod.map, Expr.mapSpans, L.place_merge, Expr.span_mapSpans, id]
  have hprimary : L.relates (Prod.map (Expr.mapSpans L.place) id)
      (do return (← primary sub, Operand.value)) (do return (← primary sub', Operand.value)) :=
    L.relates_bind (relates_primary hsub) fun _ => L.relates_pure _
  cases t.kind with
  | keyword word =>
      cases word with
      | not => exact relates_ite (L.relates_unexpected _) (hsign _ _ _)
      | _ => exact hprimary
  | minus => exact hsign _ _ _
  | plus => exact hsign _ _ _
  | _ => exact hprimary

/-- What stands behind a `NOT` of a predicate is read in both. -/
theorem relates_predicateBehind (operand : Expr) (negated : Bool) (t : Token) :
    L.relates (Expr.mapSpans L.place) (predicateBehind sub operand negated t)
      (predicateBehind sub' (operand.mapSpans L.place) negated (L.token t)) := by
  simp only [predicateBehind, token_kind, token_text, token_span, Expr.span_mapSpans]
  -- Both patterns are read alike, and only the operator that is made tells them apart.
  have hlike : ∀ op : LikeOp, L.relates (Expr.mapSpans L.place)
      (do
        let pattern ← stringLiteral "a pattern string"
        return Expr.like operand pattern op negated (operand.span.merge pattern.span))
      (do
        let pattern ← stringLiteral "a pattern string"
        return Expr.like (operand.mapSpans L.place) pattern op negated
          ((L.place operand.span).merge pattern.span)) := by
    intro op
    refine L.relates_bind (L.relates_stringLiteral _) fun pattern => relates_of_eq ?_
    rw [Expr.mapSpans, L.place_merge, Expr.span_mapSpans]
  cases t.kind with
  | keyword word =>
      cases word with
      | «in» =>
          refine L.relates_bind (L.relates_expect _ _) fun _ =>
            L.relates_bind (relates_separated (hsub _)) fun items =>
              L.relates_bind (L.relates_expect _ _) fun _ =>
                L.relates_bind (L.relates_spanFrom _) fun _ => relates_of_eq ?_
          rw [Expr.mapSpans, Expr.mapSpansAll_eq_map]
      | like => exact hlike .like
      | rlike => exact hlike .rlike
      | is =>
          refine L.relates_bind (L.relates_eat _) fun notNull =>
            L.relates_bind (L.relates_expect _ _) fun null => relates_of_eq ?_
          rw [Expr.mapSpans, L.place_merge, L.token_span]
          rfl
      -- No other keyword begins a predicate, and both runs stop at it.
      | _ => exact L.relates_stopAt _ _
  | command verb =>
      cases verb with
      | «match» =>
          refine L.relates_bind (L.relates_stringLiteral _) fun query => relates_of_eq ?_
          rw [Expr.mapSpans, L.place_merge, Expr.span_mapSpans]
      | _ => exact L.relates_stopAt _ _
  | _ => exact L.relates_stopAt _ _

/-- A predicate is read in both. -/
theorem relates_predicate (operand : Expr) :
    L.relates (Expr.mapSpans L.place) (predicate sub operand)
      (predicate sub' (operand.mapSpans L.place)) := by
  rw [predicate_eq, predicate_eq]
  exact L.relates_bind (L.relates_eat _) fun negated =>
    L.relates_bind L.relates_advance fun t => relates_predicateBehind hsub operand negated t

omit hsub in
/-- An operator where none may stand is refused in both. -/
theorem relates_misplaced {α : Type} {f : α → α} (operand : Operand) :
    L.relates f (misplaced operand) (misplaced operand) := by
  refine L.relates_bind L.relates_current fun t => ?_
  rw [L.token_text]
  exact L.relates_stopOn _ _

/-- The loop over operators is read in both, round by round. -/
theorem relates_operators (minPower fuel : Nat) (e : Expr) (operand : Operand) :
    L.relates (Expr.mapSpans L.place) (operators sub minPower fuel e operand)
      (operators sub' minPower fuel (e.mapSpans L.place) operand) := by
  induction fuel generalizing e operand with
  | zero => exact L.relates_pure _
  | succ fuel ih =>
      refine L.relates_bind L.relates_peek fun first =>
        L.relates_bind L.relates_peekSecond fun second => relates_ite ?_ ?_
      · exact relates_ite (L.relates_pure _) (relates_ite (relates_misplaced operand)
          (L.relates_bind (relates_predicate hsub e) fun _ => ih _ _))
      · simp only [id]
        cases binaryOp? first with
        | none => exact L.relates_pure _
        | some op =>
            refine relates_ite (L.relates_pure _) (relates_ite ?_ (relates_misplaced operand))
            refine L.relates_bind L.relates_advance fun _ =>
              L.relates_bind (hsub _) fun right => ?_
            -- The placed operands make the placed expression, as the span is merged from theirs.
            have hbinary : Expr.binary (e.mapSpans L.place) op (right.mapSpans L.place)
                ((e.mapSpans L.place).span.merge (right.mapSpans L.place).span) =
                (Expr.binary e op right (e.span.merge right.span)).mapSpans L.place := by
              rw [Expr.mapSpans, L.place_merge, Expr.span_mapSpans, Expr.span_mapSpans]
            rw [hbinary]
            exact ih _ _

/-- An operation is read in both. -/
theorem relates_operation (minPower : Nat) :
    L.relates (Expr.mapSpans L.place) (operation sub minPower) (operation sub' minPower) :=
  L.relates_bind (relates_leading hsub minPower) fun ⟨e, operand⟩ =>
    L.relates_bind L.relates_remaining fun fuel => relates_operators hsub minPower fuel e operand

/-! ### Constants -/

/-- A constant is read in both. -/
theorem relates_constant : L.relates (Expr.mapSpans L.place) (constant sub) (constant sub') :=
  L.relates_bind L.relates_peek fun _ => L.relates_bind L.relates_peekSecond fun _ =>
    relates_ite (L.relates_bind (relates_leading hsub _) fun _ => L.relates_pure _)
      (relates_ite (relates_primary hsub) (L.relates_unexpected _))

end

end PipeQuery.Parser.Lockstep
