import PipeQuery.Parser.Expr
import PipeQuery.Proofs.Parser.Report
import PipeQuery.Proofs.Query.Meets

/-!
# `PipeQuery.Proofs.Expr.Report`: what the readers of expressions tell and return

What the readers of expressions find wrong has its place in the text, and so has every expression
that they return. `Fit` is what is said of the latter, together with a property of all expressions
in it. That property may exclude the operator `MATCH` unless previews are switched on, since its
token is a preview verb; that it may depend on the expression in no other way is the assumption
`hE`, under which all rules of this module stand.
-/

set_option autoImplicit false

namespace PipeQuery

/-- The expression asks for a match with a query. -/
def Expr.isMatch : Expr → Bool
  | .«match» .. => true
  | _ => false

namespace Parser

open Diagnostic (Cause)

/-- The expression has its place in the text, and what is asked of expressions is met in it. -/
structure Fit (text : String) (V : Verb → Prop) (E : Expr → Prop) (e : Expr) : Prop where
  fits : e.span.Fits text
  allMeet : (Node.expr e).AllMeet V E

section

variable {text : String} {preview : Bool} {V : Verb → Prop} {E : Expr → Prop}
  {sub : Nat → Parse Expr} {e : Expr} {t : Token} {minPower : Nat}

/-- An expression fits if its span does, if it has the property and if all in its children have
theirs. -/
theorem Fit.of (hspan : e.span.Fits text) (he : E e)
    (hchildren : ∀ child ∈ e.children, child.AllMeet V E) : Fit text V E e :=
  ⟨hspan, Node.allMeet_iff.mpr ⟨he, hchildren⟩⟩

/-- Each of some expressions fits, and so they do as parts. -/
theorem allMeet_exprs {es : List Expr} (h : ∀ e ∈ es, Fit text V E e) :
    ∀ child ∈ es.map Node.expr, child.AllMeet V E :=
  List.forall_mem_map.mpr fun e he => (h e he).allMeet

variable (hE : ∀ e : Expr, (e.isMatch = true → preview = true) → E e)
  (hsub : ∀ p, Ensures text preview (Fit text V E) (sub p))

include hE

/-! ### Literals -/

/-- A literal made on a token in the text fits. -/
theorem literalOf_fit (literal : Literal) (ht : t.Located text) :
    Fit text V E (literalOf literal t) :=
  .of ht.fits (hE _ nofun) nofun

/-- An integer fits, with the unit behind it or without. -/
theorem integerLiteral_ensures (ht : t.Located text) :
    Ensures text preview (Fit text V E) (integerLiteral t) := by
  refine .onCheck fun b => ?_
  split
  · refine advance_ensures.bind fun unit hunit => ?_
    split
    · exact .pure (.of (ht.fits.merge hunit.located.fits) (hE _ nofun) nofun)
    · exact stopLocated_ensures ht.fits (by simp [Cause.kind])
  · split
    · exact .pure (literalOf_fit hE _ ht)
    · exact .pure (literalOf_fit hE _ ht)

/-- A string literal fits. -/
theorem stringLiteral_ensures (what : String) :
    Ensures text preview (Fit text V E) (stringLiteral what) :=
  .onExpect fun _ ht => .pure (literalOf_fit hE _ ht.located)

include hsub

/-! ### Primary expressions -/

/-- Arguments fit. -/
theorem arguments_ensures :
    Ensures text preview (fun es => ∀ e ∈ es, Fit text V E e) (arguments sub) := by
  refine .onCheck fun _ => .ite (.pure (by simp)) ?_
  refine current_ensures.bind fun t ht => .onEat fun _ => .ite ?_ (separated_ensures (hsub 0))
  exact .pure (List.forall_mem_singleton.mpr (literalOf_fit hE _ ht.located))

/-- A name or a call fits. -/
theorem nameExpr_ensures : Ensures text preview (Fit text V E) (nameExpr sub) := by
  refine fieldName_ensures.bind fun name ⟨hname, hparts⟩ => ?_
  have hfield : Fit text V E (.field name name.span) :=
    .of hname (hE _ nofun) (List.forall_mem_singleton.mpr (Node.allMeet_of_isNaming rfl))
  split
  · rename_i part hpart
    refine .onEat fun _ => .ite ?_ ?_
    · refine (arguments_ensures hE hsub).bind fun args hargs => .onExpect fun _ _ =>
        (spanFrom_ensures hname).bind fun span hspan => .pure (.of hspan (hE _ nofun) ?_)
      exact List.forall_mem_cons.mpr
        ⟨Node.allMeet_of_isNaming (Node.isNaming_namePart part), allMeet_exprs hargs⟩
    · split
      · have hspan := hparts _ (hpart ▸ List.mem_singleton_self _)
        exact .pure (.of hspan (hE _ nofun) nofun)
      · exact .pure hfield
  · exact .pure hfield

/-- What begins with `(` fits. -/
theorem parenthesized_ensures {opening : Span} (hopening : opening.Fits text) :
    Ensures text preview (Fit text V E) (parenthesized sub opening) := by
  refine (hsub 0).bind fun first hfirst => .onCheck fun _ => .ite ?_ ?_
  · refine (others_ensures (hsub 0)).bind fun rest hrest => .onExpect fun _ _ =>
      (spanFrom_ensures hopening).bind fun span hspan => .pure (.of hspan (hE _ nofun) ?_)
    exact allMeet_exprs (List.forall_mem_cons.mpr ⟨hfirst, hrest⟩)
  · exact .onExpect fun _ _ => .pure hfirst

/-- What begins with `[` fits. -/
theorem bracketed_ensures {opening : Span} (hopening : opening.Fits text) :
    Ensures text preview (Fit text V E) (bracketed sub opening) := by
  have hclosed : ∀ items, (∀ e ∈ items, Fit text V E e) → Ensures text preview (Fit text V E) (do
      let _ ← expect .closeBracket "']'"
      pure (.list items .bracket (← spanFrom opening))) := fun items hitems =>
    .onExpect fun _ _ => (spanFrom_ensures hopening).bind fun span hspan =>
      .pure (.of hspan (hE _ nofun) (allMeet_exprs hitems))
  exact .onCheck fun _ =>
    .ite ((Ensures.pure (by simp)).bind hclosed) ((separated_ensures (hsub 0)).bind hclosed)

/-- An atom fits. -/
theorem atom_ensures : Ensures text preview (Fit text V E) (atom sub) := by
  refine current_ensures.bind fun t ht => ?_
  -- A token that is a literal by itself is taken, and that is all.
  have hliteral : ∀ literal,
      Ensures text preview (Fit text V E) (do let _ ← advance; pure (literalOf literal t)) :=
    fun literal => advance_ensures.bind fun _ _ => .pure (literalOf_fit hE literal ht.located)
  split
  · exact advance_ensures.bind fun _ _ => integerLiteral_ensures hE ht.located
  · exact hliteral _
  · exact hliteral _
  · exact hliteral _
  · exact hliteral _
  · exact hliteral _
  · exact nameExpr_ensures hE hsub
  · exact nameExpr_ensures hE hsub
  · exact nameExpr_ensures hE hsub
  · exact nameExpr_ensures hE hsub
  · exact advance_ensures.bind fun _ _ => parenthesized_ensures hE hsub ht.located.fits
  · exact advance_ensures.bind fun _ _ => bracketed_ensures hE hsub ht.located.fits
  · exact unexpected_ensures _

omit hsub in
/-- Casts fit, one around the other. -/
theorem casts_ensures (he : Fit text V E e) (fuel : Nat) :
    Ensures text preview (Fit text V E) (casts fuel e) := by
  induction fuel generalizing e with
  | zero => exact .pure he
  | succ fuel ih =>
      refine .onEat fun _ =>
        .ite ((identifier_ensures _).bind fun type htype => ih ?_) (.pure he)
      refine .of (he.fits.merge htype) (hE _ nofun) (List.forall_mem_cons.mpr ⟨he.allMeet, ?_⟩)
      exact List.forall_mem_singleton.mpr (Node.allMeet_of_isNaming rfl)

/-- A primary expression fits. -/
theorem primary_ensures : Ensures text preview (Fit text V E) (primary sub) :=
  (atom_ensures hE hsub).bind fun _ he => .onLook fun _ => casts_ensures hE he _

/-! ### Operations -/

/-- What stands in front of the first operator fits. -/
theorem leading_ensures :
    Ensures text preview (fun r => Fit text V E r.1) (leading sub minPower) := by
  refine current_ensures.bind fun t ht => ?_
  have hunary : ∀ op p operand, Ensures text preview (fun r => Fit text V E r.1) (do
      let _ ← advance
      let e ← sub p
      pure ((.unary op e (t.span.merge e.span), operand) : Expr × Operand)) := by
    refine fun op p operand => advance_ensures.bind fun _ _ => (hsub p).bind fun e he => .pure ?_
    exact .of (ht.located.fits.merge he.fits) (hE _ nofun)
      (List.forall_mem_singleton.mpr he.allMeet)
  split
  · exact .ite (unexpected_ensures _) (hunary _ _ _)
  · exact hunary _ _ _
  · exact hunary _ _ _
  · exact (primary_ensures hE hsub).bind fun _ he => .pure he

/-- A predicate fits. -/
theorem predicate_ensures (he : Fit text V E e) :
    Ensures text preview (Fit text V E) (predicate sub e) := by
  refine .onEat fun negated => advance_ensures.bind fun t ht => ?_
  -- With a pattern or a query behind it, the operand has one more expression beside it.
  have hpair : ∀ {what} {make : Expr → Expr}, (∀ pattern, Fit text V E pattern →
      Fit text V E (make pattern)) → Ensures text preview (Fit text V E) (do
        let pattern ← stringLiteral what
        pure (make pattern)) := fun hmake =>
    (stringLiteral_ensures hE _).bind fun pattern hpattern => .pure (hmake pattern hpattern)
  split
  · refine .onExpect fun _ _ => (separated_ensures (hsub _)).bind fun items hitems =>
      .onExpect fun _ _ => (spanFrom_ensures he.fits).bind fun span hspan => .pure ?_
    exact .of hspan (hE _ nofun) (List.forall_mem_cons.mpr ⟨he.allMeet, allMeet_exprs hitems⟩)
  · exact hpair fun pattern hpattern => .of (he.fits.merge hpattern.fits) (hE _ nofun)
      (List.forall_mem_cons.mpr ⟨he.allMeet, List.forall_mem_singleton.mpr hpattern.allMeet⟩)
  · exact hpair fun pattern hpattern => .of (he.fits.merge hpattern.fits) (hE _ nofun)
      (List.forall_mem_cons.mpr ⟨he.allMeet, List.forall_mem_singleton.mpr hpattern.allMeet⟩)
  · refine .onEat fun notNull => .onExpect fun null hnull => .pure ?_
    exact .of (he.fits.merge hnull.located.fits) (hE _ nofun)
      (List.forall_mem_singleton.mpr he.allMeet)
  · rename_i hkind
    exact hpair fun query hquery => .of (he.fits.merge hquery.fits)
      (hE _ fun _ => ht.isKnown _ hkind rfl)
      (List.forall_mem_cons.mpr ⟨he.allMeet, List.forall_mem_singleton.mpr hquery.allMeet⟩)
  · exact stopLocated_ensures ht.located.fits (by simp [Cause.kind])

omit hE hsub in
/-- An operator where none may stand is told of on the token ahead. -/
theorem misplaced_ensures {α : Type} {Q : α → Prop} (operand : Operand) :
    Ensures text preview Q (misplaced operand) :=
  current_ensures.bind fun _ ht => .stop (.onToken ht.located (by simp [Cause.kind]))

/-- The loop over operators makes what fits of what fits. -/
theorem operators_ensures (he : Fit text V E e) (operand : Operand) (fuel : Nat) :
    Ensures text preview (Fit text V E) (operators sub minPower fuel e operand) := by
  induction fuel generalizing e operand with
  | zero => exact .pure he
  | succ fuel ih =>
      refine .onLook fun first => .onLook fun second => .ite ?_ ?_
      · exact .ite (.pure he) (.ite (misplaced_ensures operand)
          ((predicate_ensures hE hsub he).bind fun _ he => ih he _))
      · split
        · exact .pure he
        · refine .ite (.pure he) (.ite ?_ (misplaced_ensures operand))
          refine advance_ensures.bind fun _ _ => (hsub _).bind fun right hright => ih ?_ _
          exact .of (he.fits.merge hright.fits) (hE _ nofun)
            (List.forall_mem_cons.mpr ⟨he.allMeet, List.forall_mem_singleton.mpr hright.allMeet⟩)

/-- An operation fits. -/
theorem operation_ensures : Ensures text preview (Fit text V E) (operation sub minPower) :=
  (leading_ensures hE hsub).bind fun _ he => .onLook fun _ => operators_ensures hE hsub he _ _

/-- A constant fits. -/
theorem constant_ensures : Ensures text preview (Fit text V E) (constant sub) := by
  refine .onLook fun first => .onLook fun second => .ite ?_ ?_
  · exact (leading_ensures hE hsub).bind fun _ he => .pure he
  · exact .ite (primary_ensures hE hsub) (unexpected_ensures _)

omit hsub in
/-- Every expression that is returned fits, however many levels of nesting are left. -/
theorem expressionAt_ensures (headroom minPower : Nat) :
    Ensures text preview (Fit text V E) (expressionAt headroom minPower) := by
  induction headroom generalizing minPower with
  | zero => exact tooDeep_ensures
  | succ headroom ih => exact (operation_ensures hE fun p => ih p).deeper

end

end Parser

end PipeQuery
