import PipeQuery.Proofs.Expr.Sound
import PipeQuery.Proofs.Query.Tiers

/-!
# `PipeQuery.Proofs.Expr.Tiers`: a level of nesting adds eight tiers

Where `sub` returns expressions of `B` tiers at most, an operation over them has no more than
`B + 8`: one tier for an atom, one for its casts, and one for each level of the grammar that makes
nodes (`Level.tiers`). The loop over operators may run as long as the text goes on. It is bounded
since the operators in it come in descending order of power: `sub` has read on to an operator that
binds no tighter than the one before (`Leaning`), so that each either goes on with a chain or
begins one on a level that has room for it.
-/

set_option autoImplicit false

namespace PipeQuery.Parser

/-- What the step returns, if it succeeds, has the property. -/
def Returns {α : Type} (c : Context) (Q : α → Prop) (p : Parse α) : Prop :=
  ∀ ⦃s a s'⦄, p c s = (.ok a, s') → Q a

section

variable {α β : Type} {c : Context} {Q : α → Prop} {R : β → Prop} {p : Parse α}

namespace Returns

/-- A constant is returned with the property it has. -/
theorem pure {a : α} (h : Q a) : Returns c Q (pure a) := by
  intro s a' s' heq
  obtain ⟨rfl, -⟩ := pure_ok.mp heq
  exact h

/-- What the second of two steps returns has the property if it has it for every result of the
first. -/
theorem bind {f : α → Parse β} (h : Returns c Q p) (hf : ∀ a, Q a → Returns c R (f a)) :
    Returns c R (p >>= f) := by
  intro s b s' heq
  obtain ⟨a, s₁, hp, hb⟩ := bind_ok.mp heq
  exact hf a (h hp) hb

/-- Whatever the first step is, it is enough that the second returns what it should. -/
theorem after {f : α → Parse β} (hf : ∀ a, Returns c R (f a)) : Returns c R (p >>= f) := by
  intro s b s' heq
  obtain ⟨a, s₁, -, hb⟩ := bind_ok.mp heq
  exact hf a hb

/-- Either branch of a choice returns what has the property. -/
theorem ite {b : Prop} [Decidable b] {q : Parse α} (h : Returns c Q p) (h' : Returns c Q q) :
    Returns c Q (if b then p else q) := by
  split
  · exact h
  · exact h'

/-- A stop returns nothing. -/
theorem stop {d : Diagnostic} : Returns c Q (.stop d) :=
  fun _ _ _ heq => (stop_ok.mp heq).elim

/-- A report of what was expected returns nothing. -/
theorem unexpected {what : String} : Returns c Q (unexpected what) :=
  fun _ _ _ heq => (unexpected_ok.mp heq).elim

end Returns

/-- The items of a list are returned with the property of an item, round by round. -/
theorem moreItems_returns {separator : Token.Kind} (h : Returns c Q p) (fuel : Nat) :
    Returns c (fun as => ∀ a ∈ as, Q a) (moreItems separator p fuel) := by
  induction fuel with
  | zero => exact .pure (by simp)
  | succ fuel ih =>
      refine .after fun _ => .ite ?_ (.pure (by simp))
      exact h.bind fun _ ha => ih.bind fun _ has => .pure (List.forall_mem_cons.mpr ⟨ha, has⟩)

/-- So are the items behind a first one. -/
theorem others_returns {separator : Token.Kind} (h : Returns c Q p) :
    Returns c (fun as => ∀ a ∈ as, Q a) (others separator p) :=
  .after fun _ => moreItems_returns h _

/-- So are the items of a whole list. -/
theorem separated_returns {separator : Token.Kind} (h : Returns c Q p) :
    Returns c (fun as => ∀ a ∈ as, Q a) (separated separator p) :=
  h.bind fun _ ha => (others_returns h).bind fun _ has => .pure (List.forall_mem_cons.mpr ⟨ha, has⟩)

end

section

variable {c : Context} {s s' : State} {sub : Nat → Parse Expr} {B : Nat} {e e' : Expr}

/-! ### Operands -/

/-- A number has one tier. -/
theorem integerLiteral_tiers (t : Token) :
    Returns c (fun e => e.tiers ≤ 1) (integerLiteral t) := by
  refine .after fun _ => .ite (.after fun unit => ?_) ?_
  · split
    · exact .pure (Nat.le_refl 1)
    · exact .after fun _ => .stop
  · split <;> exact .pure (Nat.le_refl 1)

/-- A string has one tier. -/
theorem stringLiteral_tiers (what : String) :
    Returns c (fun e => e.tiers ≤ 1) (stringLiteral what) :=
  .after fun _ => .pure (Nat.le_refl 1)

section

variable (hB : 1 ≤ B) (hsub : ∀ p, Returns c (fun e => e.tiers ≤ B) (sub p))

include hsub

/-- The expressions of a list have the tiers of one of them. -/
theorem separated_tiers (p : Nat) :
    Returns c (fun es => Expr.tiersAll es ≤ B) (separated .comma (sub p)) :=
  fun _ _ _ h => Expr.tiersAll_le (separated_returns (hsub p) h)

include hB

/-- Arguments have the tiers of one of them, and a lone star has one. -/
theorem arguments_tiers : Returns c (fun es => Expr.tiersAll es ≤ B) (arguments sub) := by
  refine .after fun _ => .ite (.pure (Nat.zero_le _)) (.after fun t => .after fun _ => .ite ?_ ?_)
  · exact .pure (Expr.tiersAll_le (List.forall_mem_singleton.mpr hB))
  · exact separated_tiers hsub 0

/-- A name has one tier, and a call one more than its arguments. -/
theorem nameExpr_tiers : Returns c (fun e => e.tiers ≤ B + 1) (nameExpr sub) := by
  have hleaf : 1 ≤ B + 1 := Nat.le_add_left 1 B
  refine .after fun name => ?_
  split
  · refine .after fun _ => .ite ((arguments_tiers hB hsub).bind fun args hargs => ?_) ?_
    · exact .after fun _ => .after fun _ => .pure (Nat.succ_le_succ hargs)
    · split <;> exact .pure hleaf
  · exact .pure hleaf

omit hB in
/-- An expression in parentheses has its own tiers, and a list one more than its items. -/
theorem parenthesized_tiers (opening : Span) :
    Returns c (fun e => e.tiers ≤ B + 1) (parenthesized sub opening) := by
  refine (hsub 0).bind fun first hfirst => .after fun _ => .ite ?_ ?_
  · refine (others_returns (hsub 0)).bind fun rest hrest => .after fun _ => .after fun _ => .pure ?_
    exact Nat.succ_le_succ (Expr.tiersAll_le (List.forall_mem_cons.mpr ⟨hfirst, hrest⟩))
  · exact .after fun _ => .pure (Nat.le_succ_of_le hfirst)

omit hB in
/-- A list in brackets has one tier more than its items. -/
theorem bracketed_tiers (opening : Span) :
    Returns c (fun e => e.tiers ≤ B + 1) (bracketed sub opening) := by
  have hclosed : ∀ items, Expr.tiersAll items ≤ B → Returns c (fun e : Expr => e.tiers ≤ B + 1) (do
      let _ ← expect .closeBracket "']'"
      pure (.list items .bracket (← spanFrom opening))) := fun items hitems =>
    .after fun _ => .after fun _ => .pure (Nat.succ_le_succ hitems)
  refine .after fun _ => .ite ?_ ((separated_tiers hsub 0).bind hclosed)
  exact hclosed [] (Nat.zero_le B)

/-- An atom has one tier more than the expressions in it. -/
theorem atom_tiers : Returns c (fun e => e.tiers ≤ B + 1) (atom sub) := by
  have hleaf : 1 ≤ B + 1 := Nat.le_add_left 1 B
  refine .after fun t => ?_
  split
  · exact .after fun _ => fun _ _ _ h => Nat.le_trans (integerLiteral_tiers t h) hleaf
  · exact .after fun _ => .pure hleaf
  · exact .after fun _ => .pure hleaf
  · exact .after fun _ => .pure hleaf
  · exact .after fun _ => .pure hleaf
  · exact .after fun _ => .pure hleaf
  · exact nameExpr_tiers hB hsub
  · exact nameExpr_tiers hB hsub
  · exact nameExpr_tiers hB hsub
  · exact nameExpr_tiers hB hsub
  · exact .after fun _ => parenthesized_tiers hsub _
  · exact .after fun _ => bracketed_tiers hsub _
  · exact .unexpected

omit hsub hB in
/-- All casts behind an operand make one tier. -/
theorem casts_tiers (he : e.tiers + e.rise .casts ≤ B) (fuel : Nat) :
    Returns c (fun e => e.tiers ≤ B) (casts fuel e) := by
  have hle : e.tiers ≤ B := Nat.le_trans (Nat.le_add_right _ _) he
  induction fuel generalizing e with
  | zero => exact .pure hle
  | succ fuel ih => exact .after fun _ => .ite (.after fun type => ih he he) (.pure hle)

/-- A chain of casts is one tier above its atom, however long it is. -/
theorem primary_tiers : Returns c (fun e => e.tiers ≤ B + 2) (primary sub) := by
  refine (atom_tiers hB hsub).bind fun e he => .after fun _ => casts_tiers ?_ _
  have hrise := e.rise_le_one .casts
  omega

/-- The operand before the first operator has two tiers more than the expressions in it. -/
theorem leading_tiers (p : Nat) : Returns c (fun r => r.1.tiers ≤ B + 2) (leading sub p) := by
  have hunary : ∀ op q operand (span : Expr → Span), Returns c (fun r => r.1.tiers ≤ B + 2) (do
      let _ ← advance
      let e ← sub q
      pure ((.unary op e (span e), operand) : Expr × Operand)) := fun op q operand span =>
    .after fun _ => (hsub q).bind fun e he => .pure (Nat.le_succ_of_le (Nat.succ_le_succ he))
  refine .after fun t => ?_
  split
  · exact .ite .unexpected (hunary _ _ _ _)
  · exact hunary _ _ _ _
  · exact hunary _ _ _ _
  · exact (primary_tiers hB hsub).bind fun _ he => .pure he

/-- A constant has as many. -/
theorem constant_tiers : Returns c (fun e => e.tiers ≤ B + 2) (constant sub) := by
  refine .after fun _ => .after fun _ => .ite ?_ (.ite (primary_tiers hB hsub) .unexpected)
  exact (leading_tiers hB hsub _).bind fun _ he => .pure he

omit hB in
/-- A predicate stands one tier above its operand. -/
theorem predicate_tiers {n : Nat} (hn : B ≤ n) (hone : 1 ≤ n) (he : e.tiers ≤ n) :
    Returns c (fun e => e.tiers ≤ n + 1) (predicate sub e) := by
  have hpair : ∀ pattern : Expr, pattern.tiers ≤ 1 → max e.tiers pattern.tiers + 1 ≤ n + 1 :=
    fun pattern h => Nat.succ_le_succ (Nat.max_le.mpr ⟨he, Nat.le_trans h hone⟩)
  refine .after fun negated => .after fun t => ?_
  split
  · refine .after fun _ => (separated_tiers hsub _).bind fun items hitems => ?_
    refine .after fun _ => .after fun _ => .pure (Nat.succ_le_succ (Nat.max_le.mpr ⟨he, ?_⟩))
    exact Nat.le_trans hitems hn
  · exact (stringLiteral_tiers _).bind fun _ h => .pure (hpair _ h)
  · exact (stringLiteral_tiers _).bind fun _ h => .pure (hpair _ h)
  · exact .after fun _ => .after fun _ => .pure (Nat.succ_le_succ he)
  · exact (stringLiteral_tiers _).bind fun _ h => .pure (hpair _ h)
  · exact .after fun _ => .stop

end

/-! ### The loop over operators -/

/-- The number of tiers that an expression of this level has above what is nested in it. -/
def Level.tiers : Level → Nat
  | .disjunction => 8
  | .conjunction => 7
  | .negation | .predicate => 6
  | .comparison => 5
  | .sum => 4
  | .product => 3
  | .sign | .primary => 2
  | .atom => 1

/-- An operator that binds no tighter has its tier, or one of a level above. -/
theorem Level.tiers_ofOp {op op' : BinaryOp} (h : Parser.power op' ≤ Parser.power op) :
    (ofOp op).tiers + (if Parser.power op = Parser.power op' then 0 else 1) ≤
      (ofOp op').tiers := by
  cases op <;> cases op' <;> first | decide | exact absurd h (by decide)

/-- The expression so far leaves room for the operators that may follow: none that is ahead binds
tighter than its level, and for each that does not the tiers below are not yet used up. -/
structure Leaning (B : Nat) (s : State) (e : Expr) (operand : Operand) (level : Level) : Prop where
  tiers : ∀ op, power op ≤ level.power →
    e.tiers + e.rise (.operators (power op)) ≤ B + (Level.ofOp op).tiers
  floor_le : operand.floor ≤ level.power
  ahead : ∀ op, binaryOp? (s.kindAt 0) = some op → operand.allows op = true →
    power op ≤ level.power

namespace Leaning

variable {operand : Operand} {level : Level} {op : BinaryOp}

/-- A condition that is not combined yet. -/
theorem condition (he : e.tiers ≤ B + Level.predicate.tiers) :
    Leaning B s e .condition .predicate where
  tiers op hpower := by
    have hrise := e.rise_le_one (.operators (power op))
    have htiers : Level.predicate.tiers < (Level.ofOp op).tiers := by
      cases op <;> first | decide | exact absurd hpower (by decide)
    omega
  floor_le := by decide
  ahead op _ hallows := by
    have hlogical : op.isLogical = true := by simpa [Operand.allows] using hallows
    exact Nat.le_trans (power_le_of_isLogical hlogical) (by decide)

/-- What stands first, before any operator. -/
theorem first (he : e.tiers ≤ B + Level.sign.tiers) (operand : Operand) :
    ∃ level, Leaning B s e operand level := by
  by_cases hoperand : operand = .condition
  · subst hoperand
    exact ⟨_, .condition (Nat.le_trans he (Nat.add_le_add_left (by decide) B))⟩
  · refine ⟨.sign, fun op _ => ?_, ?_, fun op _ _ => Nat.le_of_lt (power_lt_signPower op)⟩
    · have hrise := e.rise_le_one (.operators (power op))
      have htiers : Level.sign.tiers < (Level.ofOp op).tiers := by cases op <;> decide
      omega
    · cases operand <;> decide

/-- An expression in front of further operators has no more tiers than the loosest operator allows.
-/
theorem tiers_le (h : Leaning B s e operand level) : e.tiers ≤ B + 8 := by
  have hor := h.tiers .or (by cases level <;> decide)
  exact Nat.le_trans (Nat.le_add_right _ _) hor

/-- What may still be compared is no taller than a comparison. -/
theorem tiers_le_comparison (h : Leaning B s e operand level) (hoperand : operand ≠ .condition) :
    e.tiers ≤ B + Level.comparison.tiers := by
  have hfloor : Level.comparison.power ≤ operand.floor := by
    cases operand <;> first | decide | exact absurd rfl hoperand
  exact Nat.le_trans (Nat.le_add_right _ _) (h.tiers .eq (Nat.le_trans hfloor h.floor_le))

/-- An operator goes on with a chain or begins one, and what is ahead then binds no tighter. -/
theorem binary (h : Leaning B s e operand level) (hop : binaryOp? (s.kindAt 0) = some op)
    (hallows : operand.allows op = true) (hright : e'.tiers ≤ B) {span : Span}
    (hahead : ∀ op', binaryOp? (s'.kindAt 0) = some op' → power op' < power op + 1) :
    Leaning B s' (.binary e op e' span) (.ofBinary op) (.ofOp op) where
  tiers op' hpower := by
    rw [Level.power_ofOp] at hpower
    -- The operation has the tier of its operator, since the operand on the left leaves room for it.
    have hleft := h.tiers op (h.ahead op hop hallows)
    have hlevel := Level.tiers_ofOp hpower
    have hrise : (Expr.binary e op e' span).rise (.operators (power op')) =
        if power op = power op' then 0 else 1 := by
      simp [Expr.rise, Expr.chain?]
    have hone : 1 ≤ (Level.ofOp op).tiers := by cases op <;> decide
    rw [hrise, Expr.tiers]
    omega
  floor_le := by cases op <;> decide
  ahead op' hop' _ := by
    rw [Level.power_ofOp]
    exact Nat.le_of_lt_succ (hahead op' hop')

end Leaning

section

variable (hreads : ReadsAll c sub) (hsub : ∀ p, Returns c (fun e => e.tiers ≤ B) (sub p))

include hreads hsub

/-- A run of the loop over operators keeps the room that is left, so it ends within eight tiers. -/
theorem operators_tiers {p fuel : Nat} {operand : Operand} {level : Level}
    (hleaning : Leaning B s e operand level)
    (h : operators sub p fuel e operand c s = (.ok e', s')) : e'.tiers ≤ B + 8 := by
  have hstop : ∀ {s : State} {e : Expr} {operand : Operand} {level : Level},
      Leaning B s e operand level →
      (.ok e, s) = ((.ok e', s') : Except Diagnostic Expr × State) → e'.tiers ≤ B + 8 := by
    rintro s e operand level hleaning ⟨⟩
    exact hleaning.tiers_le
  -- Along the steps of the loop it is `Leaning` that is kept, at the level of the last operator.
  induction fuel generalizing s e operand level with
  | zero => exact hstop hleaning h
  | succ fuel ih =>
      simp only [operators, bind_ok] at h
      obtain ⟨_, _, hpeek, _, _, hpeek', h⟩ := h
      obtain ⟨rfl, rfl⟩ := look_ok.mp hpeek
      obtain ⟨rfl, rfl⟩ := look_ok.mp hpeek'
      split at h
      · split at h
        · exact hstop hleaning h
        · split at h
          case isTrue => simp only [misplaced, bind_ok, stop_ok, and_false, exists_false] at h
          case isFalse hcondition =>
            obtain ⟨e₁, s₁, hpredicate, h⟩ := bind_ok.mp h
            have he := hleaning.tiers_le_comparison hcondition
            exact ih (.condition (predicate_tiers hsub (Nat.le_add_right B _)
              (Nat.le_add_left 1 (B + 4)) he hpredicate)) h
      · cases hop : binaryOp? (s.kindAt 0) with
        | none =>
            rw [hop] at h
            exact hstop hleaning h
        | some op =>
            rw [hop] at h
            dsimp only at h
            split at h
            · exact hstop hleaning h
            · split at h
              case isFalse => simp only [misplaced, bind_ok, stop_ok, and_false, exists_false] at h
              case isTrue hallows =>
                simp only [bind_ok] at h
                obtain ⟨t, s₁, -, e₂, s₂, hright, h⟩ := h
                -- The right operand took every operator that binds tighter than this one.
                obtain ⟨_, _, _, _, _, hahead⟩ :=
                  hreads (Nat.succ_le_of_lt (power_lt_signPower op)) hright
                exact ih (hleaning.binary hop hallows (hsub _ hright) hahead) h

/-- An operation adds eight tiers at most to the expressions one level deeper. -/
theorem operation_tiers (hB : 1 ≤ B) (p : Nat) :
    Returns c (fun e => e.tiers ≤ B + 8) (operation sub p) := by
  refine (leading_tiers hB hsub p).bind fun r hr => .after fun _ => ?_
  intro s e s' h
  obtain ⟨level, hleaning⟩ := Leaning.first hr r.2
  exact operators_tiers hreads hsub hleaning h

end

/-- There are eight tiers for each level of nesting that is left. With none left nothing is nested
in a call but its star, which is the one tier more. -/
theorem expressionAt_tiers (hend : c.endToken.kind = .eof) (headroom p : Nat) :
    Returns c (fun e => e.tiers ≤ 8 * headroom + 1) (expressionAt headroom p) := by
  induction headroom generalizing p with
  | zero => exact .after fun _ => .after fun _ => .stop
  | succ headroom ih =>
      intro s e s' h
      obtain ⟨s₁, hoperation, rfl⟩ := deeper_ok h
      have hle := operation_tiers (expressionAt_readsAll hend headroom) ih (Nat.le_add_left 1 _) p
        hoperation
      omega

end

end PipeQuery.Parser
