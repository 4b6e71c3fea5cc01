import PipeQuery.Proofs.Expr.Grammar

/-!
# `PipeQuery.Proofs.Expr.Sound`: what the parser returns is derivable

The functions of `PipeQuery.Parser.Expr` are read one by one, each under the assumption that `sub`
reads what is derivable (`ReadsAll`). The loop over operators keeps, beside the expression so far,
the tightest level at which that is derivable; `Operand.fits` ties the level to the operand class,
and the power of the operator ahead is no more than that of the level. `expressionAt_readsAll` ties
the knot by induction on the levels of nesting that are left.
-/

set_option autoImplicit false

namespace PipeQuery.Parser

variable {c : Context} {s s' : State} {sub : Nat → Parse Expr}

/-- From `s` to `s'` an expression was read that is derivable at a level of power `p` or tighter,
and no operator of such a power is ahead. -/
def ReadsExpr (p : Nat) (s : State) (e : Expr) (s' : State) : Prop :=
  ∃ w level, Moves s w s' ∧ Derives level w e ∧ p ≤ level.power ∧
    ∀ op, binaryOp? (s'.kindAt 0) = some op → power op < p

/-- Whatever `sub` reads is derivable. -/
def ReadsAll (c : Context) (sub : Nat → Parse Expr) : Prop :=
  ∀ {p s e s'}, p ≤ signPower → sub p c s = (.ok e, s') → ReadsExpr p s e s'

/-- An expression that was read at some power is derivable at every level from there on. -/
theorem ReadsExpr.derives {p : Nat} {e : Expr} (h : ReadsExpr p s e s') (level : Level)
    (hlevel : level.power ≤ p + 1) : ∃ w, Moves s w s' ∧ Derives level w e := by
  obtain ⟨w, level', hmoves, hderives, hp, -⟩ := h
  refine ⟨w, hmoves, hderives.widen ?_⟩
  -- Powers of levels are odd, so `p + 1` is not between two of them.
  rcases Nat.lt_or_ge p level'.power with hlt | hge
  · omega
  · have heq : level'.power = p := Nat.le_antisymm hge hp
    have hodd : ∀ l : Level, l.power % 2 = 1 := fun l => by cases l <;> rfl
    have h₁ := hodd level
    have h₂ := hodd level'
    omega

/-! ### Atoms -/

/-- A string literal was read off its token. -/
theorem stringLiteral_ok {what : String} {e : Expr}
    (h : stringLiteral what c s = (.ok e, s')) :
    ∃ l, l.token.kind = .quotedString ∧ e = stringOf l.token ∧ Moves s [l] s' := by
  simp only [stringLiteral, bind_ok, pure_ok] at h
  obtain ⟨t, s₁, hexpect, rfl, rfl⟩ := h
  obtain ⟨l, hl, rfl, hmoves⟩ := expect_ok (by simp) hexpect
  exact ⟨l, hl, rfl, hmoves⟩

/-- An integer was read off its token, and off the unit behind it if there is one. -/
theorem integerLiteral_ok {l : Lexeme} (hl : l.token.kind = .integer) {e : Expr}
    (h : integerLiteral l.token c s = (.ok e, s')) :
    ∃ w, Moves s w s' ∧ Derives .atom (l :: w) e := by
  rw [integerLiteral, bind_ok] at h
  obtain ⟨b, s₁, hcheck, h⟩ := h
  obtain ⟨rfl, rfl⟩ := check_ok.mp hcheck
  -- A unit behind the number makes a quantity, which must fit; alone a wide number is a decimal.
  by_cases hahead : s.kindAt 0 = .identifier
  · simp only [hahead, decide_true, if_true, bind_ok] at h
    obtain ⟨t, s₂, hadvance, h⟩ := h
    obtain ⟨unit, rest, hrest, hunit⟩ := exists_lexeme hahead (by simp)
    obtain ⟨rfl, hmoves⟩ := advance_ok hrest hadvance
    cases hvalue : integerValue l.token with
    | some value =>
        obtain ⟨rfl, hfits⟩ := bounded_eq_some.mp hvalue
        rw [hvalue] at h
        obtain ⟨rfl, rfl⟩ := pure_ok.mp h
        exact ⟨[unit], hmoves, .quantity hl hfits hunit⟩
    | none =>
        rw [hvalue] at h
        simp only [bind_ok, stop_ok, and_false, exists_false] at h
  · simp only [hahead, decide_false, Bool.false_eq_true, if_false] at h
    cases hvalue : integerValue l.token with
    | some value =>
        obtain ⟨rfl, hfits⟩ := bounded_eq_some.mp hvalue
        rw [hvalue] at h
        obtain ⟨rfl, rfl⟩ := pure_ok.mp h
        exact ⟨[], .refl s, .integer hl hfits⟩
    | none =>
        rw [hvalue] at h
        obtain ⟨rfl, rfl⟩ := pure_ok.mp h
        exact ⟨[], .refl s, .wideInteger hl (bounded_eq_none.mp hvalue)⟩

/-- Items of a list, read at some power, are derivable at the level of that power. -/
theorem items_ok (hsub : ReadsAll c sub) {p : Nat} (hp : p ≤ signPower) (level : Level)
    (hlevel : level.power ≤ p + 1) {es : List Expr}
    (h : separated .comma (sub p) c s = (.ok es, s')) :
    ∃ w, Moves s w s' ∧ SepBy .comma (Derives level) w es := by
  obtain ⟨w, hmoves, hall⟩ := separated_ok (g := fun _ => True) (R := Derives level)
    (by simp) (fun _ h => h) (fun h => by
      obtain ⟨w, hmoves, hderives⟩ := (hsub hp h).derives level hlevel
      exact ⟨w, hmoves, fun _ => hderives⟩) h
  exact ⟨w, hmoves, hall trivial⟩

/-- The arguments of a call up to its closing parenthesis. -/
theorem arguments_ok (hsub : ReadsAll c sub) {es : List Expr}
    (h : arguments sub c s = (.ok es, s')) :
    ∃ w, Moves s w s' ∧ (w = [] ∧ es = [] ∨
      (∃ star, star.token.kind = .asterisk ∧ w = [star] ∧ es = [literalOf .star star.token]) ∨
      SepBy .comma (Derives .disjunction) w es) := by
  rw [arguments, bind_ok] at h
  obtain ⟨b, s₁, hcheck, h⟩ := h
  obtain ⟨rfl, rfl⟩ := check_ok.mp hcheck
  by_cases hahead : s.kindAt 0 = .rightParen
  · simp only [hahead, decide_true, if_true] at h
    obtain ⟨rfl, rfl⟩ := pure_ok.mp h
    exact ⟨[], .refl s, .inl ⟨rfl, rfl⟩⟩
  · simp only [hahead, decide_false, Bool.false_eq_true, if_false, bind_ok] at h
    obtain ⟨token, s₁, hcurrent, b, s₂, heat, h⟩ := h
    obtain ⟨rfl, rfl⟩ := look_ok.mp hcurrent
    -- A star stands alone, and is no expression elsewhere.
    rcases eat_ok (by simp) heat with ⟨rfl, l, hl, hmoves⟩ | ⟨rfl, -, rfl⟩
    · obtain ⟨rfl, rfl⟩ := pure_ok.mp h
      have hcurrent : s.current c = l.token := by rw [State.current, hmoves.rest_eq]; rfl
      rw [hcurrent]
      exact ⟨[l], hmoves, .inr (.inl ⟨l, hl, rfl, rfl⟩)⟩
    · obtain ⟨w, hmoves, hall⟩ := items_ok hsub (Nat.zero_le _) .disjunction
        (Nat.le_refl 1) h
      exact ⟨w, hmoves, .inr (.inr hall)⟩

/-- A name of one part takes one lexeme. -/
theorem IsFieldName.single {w : List Lexeme} {part : NamePart} {span : Span}
    (h : IsFieldName w ⟨[part], span⟩) :
    ∃ l, w = [l] ∧ IsNamePart [l] part ∧ span = spanOver part.span [l] := by
  generalize hname : (⟨[part], span⟩ : FieldName) = name at h
  cases h with
  | mk hparts =>
      obtain ⟨hlist, rfl⟩ := FieldName.mk.inj hname
      obtain ⟨rfl, rfl⟩ := List.cons.inj hlist
      cases hparts with
      | one h =>
          cases h with
          | identifier h => exact ⟨_, rfl, .identifier h, rfl⟩
          | parameter h => exact ⟨_, rfl, .parameter h, rfl⟩
      | more _ _ hrest => exact absurd rfl hrest.ne_nil

/-- A name or a call was read off lexemes that derive it. -/
theorem nameExpr_ok (hend : c.endToken.kind = .eof) (hsub : ReadsAll c sub) {e : Expr}
    (h : nameExpr sub c s = (.ok e, s')) : ∃ w, Moves s w s' ∧ Derives .atom w e := by
  rw [nameExpr, bind_ok] at h
  obtain ⟨name, s₁, hread, h⟩ := h
  obtain ⟨w, hname, hmoves⟩ := fieldName_ok hend hread
  obtain ⟨parts, span⟩ := name
  cases parts with
  | nil =>
      obtain ⟨rfl, rfl⟩ := pure_ok.mp h
      exact ⟨w, hmoves, .field hname (by simp)⟩
  | cons part rest =>
    cases rest with
    -- A name of several parts is a field, whatever stands behind it.
    | cons part' rest =>
        obtain ⟨rfl, rfl⟩ := pure_ok.mp h
        exact ⟨w, hmoves, .field hname (by simp)⟩
    | nil =>
        obtain ⟨l, rfl, hpart, rfl⟩ := hname.single
        dsimp only at h
        rw [bind_ok] at h
        obtain ⟨b, s₂, heat, h⟩ := h
        -- One part alone: with a bracket behind it the name is that of a function.
        rcases eat_ok (by simp) heat with ⟨rfl, opening, hopening, hmoves₁⟩ | ⟨rfl, -, rfl⟩
        · simp only [if_true, bind_ok, pure_ok, spanFrom_ok] at h
          obtain ⟨es, s₃, hargs, t, s₄, hexpect, _, _, ⟨rfl, rfl⟩, rfl, rfl⟩ := h
          obtain ⟨w', hmoves₂, hargs⟩ := arguments_ok hsub hargs
          obtain ⟨closing, hclosing, rfl, hmoves₃⟩ := expect_ok (by simp) hexpect
          refine ⟨[l] ++ ([opening] ++ (w' ++ [closing])),
            hmoves.trans (hmoves₁.trans (hmoves₂.trans hmoves₃)), ?_⟩
          rw [hmoves₃.prevEnd_eq]
          rcases hargs with ⟨rfl, rfl⟩ | ⟨star, hstar, rfl, rfl⟩ | hall
          · exact .call hpart hopening hclosing
          · exact .callStar hpart hopening hstar hclosing
          · exact .callWith hpart hopening hall (fun _ _ h => h) hclosing
        · cases part with
          | parameter param span =>
              obtain ⟨rfl, rfl⟩ := pure_ok.mp h
              cases hpart with
              | parameter hparam => exact ⟨[l], hmoves, .parameter hparam⟩
          | identifier id =>
              obtain ⟨rfl, rfl⟩ := pure_ok.mp h
              exact ⟨[l], hmoves, .field hname (by simp)⟩

/-- What begins with `(` was read off lexemes that derive it. -/
theorem parenthesized_ok (hsub : ReadsAll c sub) {opening : Lexeme}
    (hopening : opening.token.kind = .leftParen) {e : Expr}
    (h : parenthesized sub opening.token.span c s = (.ok e, s')) :
    ∃ w, Moves s w s' ∧ Derives .atom (opening :: w) e := by
  rw [parenthesized, bind_ok] at h
  obtain ⟨first, s₁, hfirst, h⟩ := h
  rw [bind_ok] at h
  obtain ⟨b, s₂, hcheck, h⟩ := h
  obtain ⟨rfl, rfl⟩ := check_ok.mp hcheck
  obtain ⟨w, hmoves, hderives⟩ := (hsub (Nat.zero_le _) hfirst).derives .disjunction
    (Nat.le_refl 1)
  -- A comma behind the first expression makes a list of what the parentheses hold.
  by_cases hahead : s₁.kindAt 0 = .comma
  · simp only [hahead, decide_true, if_true, bind_ok, pure_ok, spanFrom_ok] at h
    obtain ⟨rest, s₂, hrest, t, s₃, hexpect, _, _, ⟨rfl, rfl⟩, rfl, rfl⟩ := h
    obtain ⟨w', hmoves', hothers⟩ := others_ok (g := fun _ => True)
      (R := Derives .disjunction) (by simp) (fun _ h => h) (fun h => by
        obtain ⟨w, hmoves, hderives⟩ := (hsub (Nat.zero_le _) h).derives .disjunction
          (Nat.le_refl 1)
        exact ⟨w, hmoves, fun _ => hderives⟩) hrest
    obtain ⟨closing, hclosing, rfl, hmoves''⟩ := expect_ok (by simp) hexpect
    refine ⟨(w ++ w') ++ [closing], (hmoves.trans hmoves').trans hmoves'', ?_⟩
    rw [hmoves''.prevEnd_eq]
    have hall := (hothers trivial).cons hderives
    rcases hothers trivial with ⟨rfl, rfl⟩ | ⟨l, w'', -, -, hrest⟩
    · -- The comma that was seen is taken, so there is a second item.
      rw [kindAt_eq, hmoves'.rest_eq, List.nil_append, ← kindAt_eq] at hahead
      have hseen := hmoves''.rest_eq
      rw [kindAt_eq, hseen, List.singleton_append, kindIn_cons_zero, hclosing] at hahead
      exact absurd hahead (by simp)
    · obtain ⟨e', es, rfl⟩ := List.exists_cons_of_ne_nil hrest.ne_nil
      exact .parenList hopening hall (fun _ _ h => h) hclosing
  · simp only [hahead, decide_false, Bool.false_eq_true, if_false, bind_ok, pure_ok] at h
    obtain ⟨t, s₂, hexpect, rfl, rfl⟩ := h
    obtain ⟨closing, hclosing, rfl, hmoves'⟩ := expect_ok (by simp) hexpect
    exact ⟨w ++ [closing], hmoves.trans hmoves', .paren hopening hderives hclosing⟩

/-- What begins with `[` was read off lexemes that derive it. -/
theorem bracketed_ok (hsub : ReadsAll c sub) {opening : Lexeme}
    (hopening : opening.token.kind = .openBracket) {e : Expr}
    (h : bracketed sub opening.token.span c s = (.ok e, s')) :
    ∃ w, Moves s w s' ∧ Derives .atom (opening :: w) e := by
  rw [bracketed, bind_ok] at h
  obtain ⟨b, s₁, hcheck, h⟩ := h
  obtain ⟨rfl, rfl⟩ := check_ok.mp hcheck
  -- Brackets may be empty, as parentheses may not.
  by_cases hahead : s.kindAt 0 = .closeBracket
  · simp only [hahead, decide_true, if_true, bind_ok, pure_ok, spanFrom_ok] at h
    obtain ⟨_, _, ⟨rfl, rfl⟩, t, s₃, hexpect, _, _, ⟨rfl, rfl⟩, rfl, rfl⟩ := h
    obtain ⟨closing, hclosing, rfl, hmoves⟩ := expect_ok (by simp) hexpect
    refine ⟨[closing], hmoves, ?_⟩
    rw [hmoves.prevEnd_eq]
    exact .emptyList hopening hclosing
  · simp only [hahead, decide_false, Bool.false_eq_true, if_false, bind_ok, pure_ok,
      spanFrom_ok] at h
    obtain ⟨es, s₂, hitems, t, s₃, hexpect, _, _, ⟨rfl, rfl⟩, rfl, rfl⟩ := h
    obtain ⟨w, hmoves, hall⟩ := items_ok hsub (Nat.zero_le _) .disjunction
      (Nat.le_refl 1) hitems
    obtain ⟨closing, hclosing, rfl, hmoves'⟩ := expect_ok (by simp) hexpect
    refine ⟨w ++ [closing], hmoves.trans hmoves', ?_⟩
    rw [hmoves'.prevEnd_eq]
    exact .bracketList hopening hall (fun _ _ h => h) hclosing

/-- An atom was read off lexemes that derive it. -/
theorem atom_ok (hend : c.endToken.kind = .eof) (hsub : ReadsAll c sub) {e : Expr}
    (h : atom sub c s = (.ok e, s')) : ∃ w, Moves s w s' ∧ Derives .atom w e := by
  rw [atom, bind_ok] at h
  obtain ⟨token, s₁, hcurrent, h⟩ := h
  obtain ⟨rfl, rfl⟩ := look_ok.mp hcurrent
  generalize hkind : (s.current c).kind = kind at h
  -- The kinds whose token is taken before anything else is looked at.
  have htake : kind ≠ .eof → ∀ {f : Token → Parse Expr},
      (do let t ← advance; f t) c s = (.ok e, s') →
      ∃ l s₁, l.token.kind = kind ∧ s.current c = l.token ∧ Moves s [l] s₁ ∧
        f l.token c s₁ = (.ok e, s') := by
    intro hne f h
    obtain ⟨l, rest, hrest, hl, heq⟩ := current_eq hend hkind hne
    obtain ⟨t, s₁, hadvance, h⟩ := bind_ok.mp h
    obtain ⟨rfl, hmoves⟩ := advance_ok hrest hadvance
    exact ⟨l, s₁, hl, heq, hmoves, h⟩
  cases kind with
  | integer =>
      obtain ⟨l, s₁, hl, heq, hmoves, h⟩ := htake (by simp) h
      rw [heq] at h
      obtain ⟨w, hmoves', hderives⟩ := integerLiteral_ok hl h
      exact ⟨[l] ++ w, hmoves.trans hmoves', hderives⟩
  | decimal =>
      obtain ⟨l, s₁, hl, heq, hmoves, h⟩ := htake (by simp) h
      obtain ⟨rfl, rfl⟩ := pure_ok.mp h
      exact ⟨[l], hmoves, heq ▸ .decimal hl⟩
  | quotedString =>
      obtain ⟨l, s₁, hl, heq, hmoves, h⟩ := htake (by simp) h
      obtain ⟨rfl, rfl⟩ := pure_ok.mp h
      exact ⟨[l], hmoves, heq ▸ .string hl⟩
  | keyword word =>
      cases word with
      | null =>
          obtain ⟨l, s₁, hl, heq, hmoves, h⟩ := htake (by simp) h
          obtain ⟨rfl, rfl⟩ := pure_ok.mp h
          exact ⟨[l], hmoves, heq ▸ .nullWord hl⟩
      | «true» =>
          obtain ⟨l, s₁, hl, heq, hmoves, h⟩ := htake (by simp) h
          obtain ⟨rfl, rfl⟩ := pure_ok.mp h
          exact ⟨[l], hmoves, heq ▸ .trueWord hl⟩
      | «false» =>
          obtain ⟨l, s₁, hl, heq, hmoves, h⟩ := htake (by simp) h
          obtain ⟨rfl, rfl⟩ := pure_ok.mp h
          exact ⟨[l], hmoves, heq ▸ .falseWord hl⟩
      | _ => exact (unexpected_ok.mp h).elim
  | identifier | quotedIdentifier | anonymousParam | param => exact nameExpr_ok hend hsub h
  | leftParen =>
      obtain ⟨l, s₁, hl, heq, hmoves, h⟩ := htake (by simp) h
      rw [heq] at h
      obtain ⟨w, hmoves', hderives⟩ := parenthesized_ok hsub hl h
      exact ⟨[l] ++ w, hmoves.trans hmoves', hderives⟩
  | openBracket =>
      obtain ⟨l, s₁, hl, heq, hmoves, h⟩ := htake (by simp) h
      rw [heq] at h
      obtain ⟨w, hmoves', hderives⟩ := bracketed_ok hsub hl h
      exact ⟨[l] ++ w, hmoves.trans hmoves', hderives⟩
  | _ => exact (unexpected_ok.mp h).elim

/-- Casts were read off lexemes that derive them behind what was read before. -/
theorem casts_ok (hend : c.endToken.kind = .eof) {fuel : Nat} {e e' : Expr} {w : List Lexeme}
    (hderives : Derives .primary w e) (h : casts fuel e c s = (.ok e', s')) :
    ∃ w', Moves s w' s' ∧ Derives .primary (w ++ w') e' := by
  induction fuel generalizing s e w with
  | zero =>
      obtain ⟨rfl, rfl⟩ := pure_ok.mp h
      exact ⟨[], .refl s, by rwa [List.append_nil]⟩
  | succ fuel ih =>
      rw [casts, bind_ok] at h
      obtain ⟨b, s₁, heat, h⟩ := h
      rcases eat_ok (by simp) heat with ⟨rfl, l, hl, hmoves⟩ | ⟨rfl, -, rfl⟩
      · simp only [if_true, bind_ok] at h
        obtain ⟨id, s₂, hid, h⟩ := h
        obtain ⟨type, hid, hmoves'⟩ := identifier_ok hend hid
        obtain ⟨w', hmoves'', hderives'⟩ := ih (.cast hderives hl hid) h
        refine ⟨[l] ++ ([type] ++ w'), hmoves.trans (hmoves'.trans hmoves''), ?_⟩
        rwa [List.append_assoc] at hderives'
      · obtain ⟨rfl, rfl⟩ := pure_ok.mp h
        exact ⟨[], .refl _, by rwa [List.append_nil]⟩

/-- A primary expression was read off lexemes that derive it. -/
theorem primary_ok (hend : c.endToken.kind = .eof) (hsub : ReadsAll c sub) {e : Expr}
    (h : primary sub c s = (.ok e, s')) : ∃ w, Moves s w s' ∧ Derives .primary w e := by
  rw [primary, bind_ok] at h
  obtain ⟨e₁, s₁, hatom, h⟩ := h
  rw [bind_ok] at h
  obtain ⟨_, _, hremaining, h⟩ := h
  obtain ⟨rfl, rfl⟩ := look_ok.mp hremaining
  obtain ⟨w, hmoves, hderives⟩ := atom_ok hend hsub hatom
  obtain ⟨w', hmoves', hderives'⟩ := casts_ok hend (.up rfl hderives) h
  exact ⟨w ++ w', hmoves.trans hmoves', hderives'⟩

/-! ### Operations -/

/-- The power of the loosest level at which an operand of this class is derivable. -/
def Operand.floor : Operand → Nat
  | .value => Level.sum.power
  | .comparison => Level.comparison.power
  | .condition => Level.disjunction.power

/-- The state of the loop over operators: the expression so far is derivable at a level that suits
its class, and an operator ahead that may follow it does not bind tighter than that level. -/
structure Loop (p : Nat) (s : State) (w : List Lexeme) (e : Expr) (operand : Operand)
    (level : Level) : Prop where
  derives : Derives level w e
  le_power : p ≤ level.power
  floor_le : operand.floor ≤ level.power
  ahead : ∀ op, binaryOp? (s.kindAt 0) = some op → operand.allows op = true →
    power op ≤ level.power

/-- Signs bind tighter than any operator between two operands. -/
theorem power_lt_signPower (op : BinaryOp) : power op < signPower := by
  cases op <;> decide

/-- Operators on conditions bind no tighter than `NOT`. -/
theorem power_le_of_isLogical {op : BinaryOp} (h : op.isLogical = true) :
    power op ≤ Level.negation.power := by
  cases op <;> first | decide | cases h

/-- In front of the first operator an expression was derived, of a level from which the loop may go
on. -/
theorem leading_ok (hend : c.endToken.kind = .eof) (hsub : ReadsAll c sub) {p : Nat}
    (hp : p ≤ signPower) {e : Expr} {operand : Operand}
    (h : leading sub p c s = (.ok (e, operand), s')) :
    ∃ w level, Moves s w s' ∧ Loop p s' w e operand level := by
  rw [leading, bind_ok] at h
  obtain ⟨token, s₁, hcurrent, h⟩ := h
  obtain ⟨rfl, rfl⟩ := look_ok.mp hcurrent
  -- An expression without an operator in front.
  have hprimary : (do return (← primary sub, Operand.value)) c s = (.ok (e, operand), s') →
      ∃ w level, Moves s w s' ∧ Loop p s' w e operand level := by
    intro h
    simp only [bind_ok, pure_ok] at h
    obtain ⟨e', s₁, hprimary, heq, rfl⟩ := h
    obtain ⟨rfl, rfl⟩ := Prod.mk.inj heq
    obtain ⟨w, hmoves, hderives⟩ := primary_ok hend hsub hprimary
    refine ⟨w, .sign, hmoves, hderives.widen (by decide), hp, by decide, ?_⟩
    exact fun op _ _ => Nat.le_of_lt (power_lt_signPower op)
  -- A sign in front of an operand.
  have hsign : ∀ op, signOp? (s.current c).kind = some op → (do
      let _ ← advance
      let e ← sub signPower
      return (Expr.unary op e ((s.current c).span.merge e.span), Operand.value)) c s =
        (.ok (e, operand), s') → ∃ w level, Moves s w s' ∧ Loop p s' w e operand level := by
    intro op hop h
    simp only [bind_ok, pure_ok] at h
    obtain ⟨t, s₁, hadvance, e', s₂, he', heq, rfl⟩ := h
    obtain ⟨rfl, rfl⟩ := Prod.mk.inj heq
    have hne : (s.current c).kind ≠ .eof := fun heof => by rw [heof] at hop; cases hop
    obtain ⟨l, rest, hrest, -, heq⟩ := current_eq hend rfl hne
    obtain ⟨-, hmoves⟩ := advance_ok hrest hadvance
    obtain ⟨w, hmoves', hderives⟩ := (hsub (Nat.le_refl _) he').derives .sign
      (by decide)
    rw [heq] at hop ⊢
    refine ⟨[l] ++ w, .sign, hmoves.trans hmoves', .sign hop hderives, hp, by decide, ?_⟩
    exact fun op _ _ => Nat.le_of_lt (power_lt_signPower op)
  generalize hkind : (s.current c).kind = kind at h
  cases kind with
  | keyword word =>
      cases word with
      | not =>
          dsimp only at h
          split at h
          case isTrue => exact (unexpected_ok.mp h).elim
          case isFalse hnot =>
            simp only [bind_ok, pure_ok] at h
            obtain ⟨t, s₁, hadvance, e', s₂, he', heq, rfl⟩ := h
            obtain ⟨rfl, rfl⟩ := Prod.mk.inj heq
            obtain ⟨l, rest, hrest, hl, heq⟩ := current_eq hend hkind (by simp)
            obtain ⟨-, hmoves⟩ := advance_ok hrest hadvance
            obtain ⟨w, hmoves', hderives⟩ := (hsub (by decide) he').derives .negation
              (by decide)
            rw [heq]
            refine ⟨[l] ++ w, .negation, hmoves.trans hmoves', .not hl hderives,
              Nat.le_of_not_lt hnot, by decide, fun op _ hallows => ?_⟩
            exact power_le_of_isLogical (by simpa [Operand.allows] using hallows)
      | _ => exact hprimary h
  | minus => exact hsign .negate (by rw [hkind]; rfl) h
  | plus => exact hsign .plus (by rw [hkind]; rfl) h
  | _ => exact hprimary h

/-- A `NOT` that was taken is one of the grammar, and so is the lack of one. -/
theorem negation_ok {kind : Token.Kind} {b : Bool} (hkind : kind = .keyword .not)
    (h : eat kind c s = (.ok b, s')) : ∃ n, IsNegation n b ∧ Moves s n s' := by
  subst hkind
  rcases eat_ok (by simp) h with ⟨rfl, l, hl, hmoves⟩ | ⟨rfl, -, rfl⟩
  · exact ⟨[l], .present hl, hmoves⟩
  · exact ⟨[], .absent, .refl _⟩

/-- A predicate was read off lexemes that derive it behind its operand. -/
theorem predicate_ok (hend : c.endToken.kind = .eof) (hsub : ReadsAll c sub) {e e' : Expr}
    {w : List Lexeme} (hderives : Derives .comparison w e)
    (hbegins : beginsPredicate (s.kindAt 0) (s.kindAt 1) = true)
    (h : predicate sub e c s = (.ok e', s')) :
    ∃ w', w' ≠ [] ∧ Moves s w' s' ∧ Derives .predicate (w ++ w') e' := by
  rw [predicate, bind_ok] at h
  obtain ⟨negated, s₁, heat, h⟩ := h
  obtain ⟨n, hn, hmoves⟩ := negation_ok rfl heat
  rw [bind_ok] at h
  obtain ⟨t, s₂, hadvance, h⟩ := h
  cases hrest : s₁.rest with
  | nil =>
      have ht : t = c.endToken := by
        simp only [advance, hrest, Prod.mk.injEq, Except.ok.injEq] at hadvance
        exact hadvance.1.symm
      rw [ht, hend] at h
      simp only [bind_ok, stop_ok, and_false, exists_false] at h
  | cons l rest =>
      obtain ⟨rfl, hmoves'⟩ := advance_ok hrest hadvance
      -- Only `IN`, `LIKE` and `RLIKE` may have a `NOT` in front.
      have hpositive : beginsPredicate (.keyword .not) l.token.kind = false → n = [] := by
        intro hkind
        cases hn with
        | absent => rfl
        | present hnot =>
            rw [kindAt_eq, kindAt_eq, hmoves.rest_eq, hrest, List.singleton_append,
              kindIn_cons_zero, kindIn_cons_succ, kindIn_cons_zero, hnot, hkind] at hbegins
            exact absurd hbegins (by simp)
      generalize hkind : l.token.kind = kind at h
      cases kind with
      | keyword word =>
          cases word with
          | «in» =>
              simp only [bind_ok, pure_ok, spanFrom_ok] at h
              obtain ⟨t, s₃, hopen, es, s₄, hitems, t', s₅, hclose, _, _, ⟨rfl, rfl⟩, rfl,
                rfl⟩ := h
              obtain ⟨opening, hopening, rfl, hmoves₁⟩ := expect_ok (by simp) hopen
              obtain ⟨w', hmoves₂, hall⟩ := items_ok hsub (by decide) .comparison
                (by decide) hitems
              obtain ⟨closing, hclosing, rfl, hmoves₃⟩ := expect_ok (by simp) hclose
              refine ⟨n ++ ([l] ++ ([opening] ++ (w' ++ [closing]))), by simp,
                hmoves.trans (hmoves'.trans (hmoves₁.trans (hmoves₂.trans hmoves₃))), ?_⟩
              rw [hmoves₃.prevEnd_eq]
              exact .inList hderives hn hkind hopening hall (fun _ _ h => h) hclosing
          | like =>
              simp only [bind_ok, pure_ok] at h
              obtain ⟨_, s₃, hread, rfl, rfl⟩ := h
              obtain ⟨pattern, hpattern, rfl, hmoves₁⟩ := stringLiteral_ok hread
              exact ⟨n ++ ([l] ++ [pattern]), by simp, hmoves.trans (hmoves'.trans hmoves₁),
                .like hderives hn hkind hpattern⟩
          | rlike =>
              simp only [bind_ok, pure_ok] at h
              obtain ⟨_, s₃, hread, rfl, rfl⟩ := h
              obtain ⟨pattern, hpattern, rfl, hmoves₁⟩ := stringLiteral_ok hread
              exact ⟨n ++ ([l] ++ [pattern]), by simp, hmoves.trans (hmoves'.trans hmoves₁),
                .like hderives hn hkind hpattern⟩
          | is =>
              simp only [bind_ok, pure_ok] at h
              obtain ⟨notNull, s₃, heat, t, s₄, hexpect, rfl, rfl⟩ := h
              obtain ⟨n', hn', hmoves₁⟩ := negation_ok rfl heat
              obtain ⟨null, hnull, rfl, hmoves₂⟩ := expect_ok (by simp) hexpect
              obtain rfl := hpositive (by rw [hkind]; rfl)
              exact ⟨[l] ++ (n' ++ [null]), by simp,
                hmoves.trans (hmoves'.trans (hmoves₁.trans hmoves₂)),
                .isNull hderives hkind hn' hnull⟩
          | _ => simp only [bind_ok, stop_ok, and_false, exists_false] at h
      | command verb =>
          cases verb with
          | «match» =>
              simp only [bind_ok, pure_ok] at h
              obtain ⟨_, s₃, hread, rfl, rfl⟩ := h
              obtain ⟨query, hquery, rfl, hmoves₁⟩ := stringLiteral_ok hread
              obtain rfl := hpositive (by rw [hkind]; rfl)
              exact ⟨[l] ++ [query], by simp, hmoves.trans (hmoves'.trans hmoves₁),
                .«match» hderives hkind hquery⟩
          | _ => simp only [bind_ok, stop_ok, and_false, exists_false] at h
      | _ => simp only [bind_ok, stop_ok, and_false, exists_false] at h

/-- What begins a predicate is no operator between two operands. -/
theorem binaryOp?_eq_none {first second : Token.Kind}
    (h : beginsPredicate first second = true) : binaryOp? first = none := by
  unfold beginsPredicate at h
  split at h <;> first | rfl | cases h

/-- A predicate ahead that may follow the expression makes the next one. -/
theorem Loop.predicate {p : Nat} {w w' : List Lexeme} {e' : Expr}
    (hderives : Derives .predicate (w ++ w') e') (hp : p ≤ predicatePower) :
    Loop p s' (w ++ w') e' .condition .predicate := by
  refine ⟨hderives, hp, by decide, fun op _ hallows => ?_⟩
  have hlogical : op.isLogical = true := by simpa [Operand.allows] using hallows
  exact Nat.le_trans (power_le_of_isLogical hlogical) (by decide)

/-- An operator ahead that may follow the expression makes the next one, at its own level. -/
theorem Loop.binary {p : Nat} {w : List Lexeme} {e e' : Expr} {operand : Operand}
    {level : Level} {op : BinaryOp} {l : Lexeme} {s₁ : State}
    (hloop : Loop p s w e operand level) (hl : s.kindAt 0 = l.token.kind)
    (hop : binaryOp? l.token.kind = some op) (hp : p ≤ power op)
    (hallows : operand.allows op = true) (hright : ReadsExpr (power op + 1) s₁ e' s') :
    ∃ w', Moves s₁ w' s' ∧ Loop p s' (w ++ l :: w')
      (.binary e op e' (e.span.merge e'.span)) (.ofBinary op) (.ofOp op) := by
  have hpower : power op ≤ level.power := hloop.ahead op (hl ▸ hop) hallows
  have hahead : ∀ op', binaryOp? (s'.kindAt 0) = some op' →
      power op' ≤ (Level.ofOp op).power := by
    obtain ⟨_, _, _, _, _, hahead⟩ := hright
    intro op' hop'
    rw [Level.power_ofOp]
    exact Nat.le_of_lt_succ (hahead op' hop')
  have hfloor : (Operand.ofBinary op).floor ≤ (Level.ofOp op).power := by
    cases op <;> decide
  by_cases hcompare : op.isComparison = true
  · -- A comparison follows values only, and these are derivable as sums.
    have hvalue : operand = .value := by
      have hlogical : op.isLogical = false := by cases op <;> first | rfl | cases hcompare
      simpa [Operand.allows, hlogical] using hallows
    have hsum : Level.sum.power ≤ level.power := by
      have := hloop.floor_le
      rwa [hvalue] at this
    have hlevel : Level.ofOp op = .comparison := by cases op <;> first | rfl | cases hcompare
    obtain ⟨w', hmoves, hderives⟩ := hright.derives .sum
      (by cases op <;> first | decide | cases hcompare)
    refine ⟨w', hmoves, ?_, by rw [Level.power_ofOp]; exact hp, hfloor, fun op' h _ => hahead op' h⟩
    rw [hlevel]
    exact .compare hop hcompare (hloop.derives.widen hsum) hderives
  · -- Every other operator chains: its left operand may stand at the operator's own level.
    have hleft : Derives (.ofOp op) w e := hloop.derives.widen (by rwa [Level.power_ofOp])
    cases hnext : (Level.ofOp op).next? with
    | none => cases op <;> cases hnext
    | some next =>
        obtain ⟨w', hmoves, hderives⟩ := hright.derives next
          (Nat.le_of_eq (by rw [Level.power_next hnext, Level.power_ofOp]))
        refine ⟨w', hmoves, ?_, by rw [Level.power_ofOp]; exact hp, hfloor,
          fun op' h _ => hahead op' h⟩
        exact .chain hop (by simpa using hcompare) hnext hleft hderives

/-- The loop over operators was left with an expression that the lexemes derive. -/
theorem operators_ok (hend : c.endToken.kind = .eof) (hsub : ReadsAll c sub) {p fuel : Nat}
    {w : List Lexeme} {e e' : Expr} {operand : Operand} {level : Level}
    (hloop : Loop p s w e operand level) (hfuel : s.rest.length ≤ fuel)
    (h : operators sub p fuel e operand c s = (.ok e', s')) :
    ∃ w' level', Moves s w' s' ∧ Derives level' (w ++ w') e' ∧ p ≤ level'.power ∧
      ∀ op, binaryOp? (s'.kindAt 0) = some op → power op < p := by
  -- The loop ends where no operator of this power is ahead.
  have hstop : ∀ {s : State} {w : List Lexeme} {e : Expr} {operand : Operand} {level : Level},
      Loop p s w e operand level → (∀ op, binaryOp? (s.kindAt 0) = some op → power op < p) →
      (.ok e, s) = ((.ok e', s') : Except Diagnostic Expr × State) →
      ∃ w' level', Moves s w' s' ∧ Derives level' (w ++ w') e' ∧ p ≤ level'.power ∧
        ∀ op, binaryOp? (s'.kindAt 0) = some op → power op < p := by
    rintro s w e operand level hloop hahead ⟨⟩
    exact ⟨[], level, .refl _, by rw [List.append_nil]; exact hloop.derives, hloop.le_power,
      hahead⟩
  induction fuel generalizing s w e operand level with
  | zero =>
      have hnil : s.rest = [] := List.length_eq_zero_iff.mp (Nat.le_zero.mp hfuel)
      refine hstop hloop (fun op hop => ?_) h
      rw [kindAt_eq, hnil] at hop
      cases hop
  | succ fuel ih =>
      simp only [operators, bind_ok] at h
      obtain ⟨_, _, hpeek, _, _, hpeek', h⟩ := h
      obtain ⟨rfl, rfl⟩ := look_ok.mp hpeek
      obtain ⟨rfl, rfl⟩ := look_ok.mp hpeek'
      split at h
      case isTrue hbegins =>
        split at h
        case isTrue =>
          refine hstop hloop (fun op hop => ?_) h
          rw [binaryOp?_eq_none hbegins] at hop
          cases hop
        case isFalse hpower =>
          split at h
          case isTrue => simp only [misplaced, bind_ok, stop_ok, and_false, exists_false] at h
          case isFalse hcondition =>
            rw [bind_ok] at h
            obtain ⟨e₁, s₁, hpredicate, h⟩ := h
            have hcomparison : Derives .comparison w e := by
              refine hloop.derives.widen ?_
              have hfloor := hloop.floor_le
              cases operand with
              | value => exact Nat.le_trans (by decide) hfloor
              | comparison => exact hfloor
              | condition => exact absurd rfl hcondition
            obtain ⟨w₁, hne, hmoves, hderives⟩ :=
              predicate_ok hend hsub hcomparison hbegins hpredicate
            have hshorter := hmoves.length_eq
            have hpos := List.length_pos_iff.mpr hne
            obtain ⟨w₂, level', hmoves', hderives', hp, hahead⟩ :=
              ih (.predicate hderives (Nat.le_of_not_lt hpower)) (by omega) h
            rw [List.append_assoc] at hderives'
            exact ⟨w₁ ++ w₂, level', hmoves.trans hmoves', hderives', hp, hahead⟩
      case isFalse =>
        cases hop : binaryOp? (s.kindAt 0) with
        | none =>
            rw [hop] at h
            exact hstop hloop (fun op hop' => by rw [hop] at hop'; cases hop') h
        | some op =>
            rw [hop] at h
            dsimp only at h
            split at h
            case isTrue hpower =>
              refine hstop hloop (fun op' hop' => ?_) h
              rw [hop] at hop'
              cases hop'
              exact hpower
            case isFalse hpower =>
              split at h
              case isFalse => simp only [misplaced, bind_ok, stop_ok, and_false, exists_false] at h
              case isTrue hallows =>
                simp only [bind_ok] at h
                obtain ⟨t, s₁, hadvance, e₂, s₂, hright, h⟩ := h
                have hne : s.kindAt 0 ≠ .eof := fun heof => by rw [heof] at hop; cases hop
                obtain ⟨l, rest, hrest, hl⟩ := exists_lexeme rfl hne
                obtain ⟨-, hmoves⟩ := advance_ok hrest hadvance
                obtain ⟨w₁, hmoves₁, hloop'⟩ := hloop.binary hl.symm (hl ▸ hop)
                  (Nat.le_of_not_lt hpower) hallows
                  (hsub (Nat.succ_le_of_lt (power_lt_signPower op)) hright)
                have hshorter := hmoves.length_eq
                have hshorter₁ := hmoves₁.length_eq
                obtain ⟨w₂, level', hmoves', hderives', hp, hahead⟩ := ih hloop' (by
                  rw [List.length_singleton] at hshorter
                  omega) h
                refine ⟨[l] ++ (w₁ ++ w₂), level', hmoves.trans (hmoves₁.trans hmoves'), ?_, hp,
                  hahead⟩
                rwa [List.append_assoc] at hderives'

/-- An operation over what is derivable is derivable. -/
theorem operation_ok (hend : c.endToken.kind = .eof) (hsub : ReadsAll c sub) {p : Nat}
    (hp : p ≤ signPower) {e : Expr} (h : operation sub p c s = (.ok e, s')) :
    ReadsExpr p s e s' := by
  rw [operation, bind_ok] at h
  obtain ⟨⟨e₁, operand⟩, s₁, hleading, h⟩ := h
  rw [bind_ok] at h
  obtain ⟨_, _, hremaining, h⟩ := h
  obtain ⟨rfl, rfl⟩ := look_ok.mp hremaining
  obtain ⟨w, level, hmoves, hloop⟩ := leading_ok hend hsub hp hleading
  obtain ⟨w', level', hmoves', hderives, hp', hahead⟩ :=
    operators_ok hend hsub hloop (Nat.le_refl _) h
  exact ⟨w ++ w', level', hmoves.trans hmoves', hderives, hp', hahead⟩

/-- What an expression returns is derivable, with any number of levels of nesting left. -/
theorem expressionAt_readsAll (hend : c.endToken.kind = .eof) (headroom : Nat) :
    ReadsAll c (expressionAt headroom) := by
  induction headroom with
  | zero =>
      intro p s e s' hp h
      simp only [expressionAt, tooDeep, bind_ok, stop_ok, and_false, exists_false] at h
  | succ headroom ih =>
      intro p s e s' hp h
      obtain ⟨s₁, hoperation, rfl⟩ := deeper_ok h
      obtain ⟨w, level, hmoves, hderives, hp', hahead⟩ := operation_ok hend ih hp hoperation
      exact ⟨w, level, hmoves.of_deeper, hderives, hp', hahead⟩

/-- A constant was read off lexemes that derive it. -/
theorem constant_ok (hend : c.endToken.kind = .eof) (hsub : ReadsAll c sub) {e : Expr}
    (h : constant sub c s = (.ok e, s')) : ∃ w, Moves s w s' ∧ Derives .sign w e := by
  simp only [constant, peek, peekSecond] at h
  rw [bind_ok] at h
  obtain ⟨first, _, hpeek, h⟩ := h
  obtain ⟨rfl, rfl⟩ := look_ok.mp hpeek
  rw [bind_ok] at h
  obtain ⟨second, _, hpeek, h⟩ := h
  obtain ⟨rfl, rfl⟩ := look_ok.mp hpeek
  split at h
  · simp only [bind_ok, pure_ok] at h
    obtain ⟨⟨e', operand⟩, s₁, hleading, rfl, rfl⟩ := h
    obtain ⟨w, level, hmoves, hloop⟩ := leading_ok hend hsub (Nat.le_refl _) hleading
    exact ⟨w, hmoves, hloop.derives.widen hloop.le_power⟩
  · split at h
    · obtain ⟨w, hmoves, hderives⟩ := primary_ok hend hsub h
      exact ⟨w, hmoves, .up rfl hderives⟩
    · exact (unexpected_ok.mp h).elim

end PipeQuery.Parser
