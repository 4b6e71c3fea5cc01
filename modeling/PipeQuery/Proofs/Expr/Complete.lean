import PipeQuery.Proofs.Expr.Sound

/-!
# `PipeQuery.Proofs.Expr.Complete`: what is derivable is read

The other direction of `PipeQuery.Proofs.Expr.Sound`. Whether an expression ends where its lexemes
end depends on what stands behind: `Closed p rest` says that nothing in `rest` carries on an
expression of power `p`, and `MayFollow level rest` that nothing there binds tighter than the
level. `Entered` is what a derivation tells of the parser: it comes to the loop over operators with
the tree of the derivation, behind the lexemes. `entered_of_derives` proves it by induction on the
derivation, and `expression_iff_derives` puts both directions together.
-/

set_option autoImplicit false

namespace PipeQuery.Parser

variable {c : Context} {s s' : State} {sub : Nat → Parse Expr}

/-! ### What may stand behind an expression -/

/-- No expression of power `p` is carried on by the lexemes. -/
structure Closed (p : Nat) (rest : List Lexeme) : Prop where
  not_unit : kindIn rest 0 ≠ .identifier
  not_dot : kindIn rest 0 ≠ .dot
  not_paren : kindIn rest 0 ≠ .leftParen
  not_cast : kindIn rest 0 ≠ .cast
  operator : ∀ op, binaryOp? (kindIn rest 0) = some op → power op < p
  predicate : beginsPredicate (kindIn rest 0) (kindIn rest 1) = true → predicatePower < p

/-- Nothing in the lexemes binds tighter than the level. -/
structure MayFollow (level : Level) (rest : List Lexeme) : Prop where
  not_unit : kindIn rest 0 ≠ .identifier
  not_dot : kindIn rest 0 ≠ .dot
  not_paren : kindIn rest 0 ≠ .leftParen
  cast : kindIn rest 0 = .cast → Level.primary.power ≤ level.power
  operator : ∀ op, binaryOp? (kindIn rest 0) = some op → power op ≤ level.power
  predicate : beginsPredicate (kindIn rest 0) (kindIn rest 1) = true →
    Level.comparison.power ≤ level.power

/-- What may stand behind an expression of one level may stand behind one of any higher level. -/
theorem MayFollow.mono {level level' : Level} {rest : List Lexeme} (h : MayFollow level rest)
    (hle : level.power ≤ level'.power) : MayFollow level' rest where
  not_unit := h.not_unit
  not_dot := h.not_dot
  not_paren := h.not_paren
  cast hcast := Nat.le_trans (h.cast hcast) hle
  operator op hop := Nat.le_trans (h.operator op hop) hle
  predicate hbegins := Nat.le_trans (h.predicate hbegins) hle

/-- What ends an expression at a power may stand behind every level of this power or more. -/
theorem Closed.mayFollow {p : Nat} {rest : List Lexeme} (h : Closed p rest) {level : Level}
    (hp : p ≤ level.power) : MayFollow level rest where
  not_unit := h.not_unit
  not_dot := h.not_dot
  not_paren := h.not_paren
  cast hcast := absurd hcast h.not_cast
  operator op hop := Nat.le_trans (Nat.le_of_lt (h.operator op hop)) hp
  predicate hbegins := by
    -- The power of a level is odd, so it is not between those of predicates and comparisons.
    have hlt : predicatePower < level.power := Nat.lt_of_lt_of_le (h.predicate hbegins) hp
    cases level <;> first | decide | exact absurd hlt (by decide)

/-- What may follow a level ends the operands of the operators of the level. -/
theorem MayFollow.closed {level : Level} {rest : List Lexeme} (h : MayFollow level rest)
    {p : Nat} (hsign : level.power ≤ signPower) (hp : level.power ≤ p)
    (hoperator : ∀ op, power op ≤ level.power → power op < p) : Closed p rest where
  not_unit := h.not_unit
  not_dot := h.not_dot
  not_paren := h.not_paren
  not_cast hcast := absurd (Nat.le_trans (h.cast hcast) hsign) (by decide)
  operator op hop := hoperator op (h.operator op hop)
  predicate hbegins := Nat.lt_of_lt_of_le (Nat.lt_of_lt_of_le (by decide) (h.predicate hbegins)) hp

/-- A token of this kind ends every expression. -/
def endsExpr (kind : Token.Kind) : Bool :=
  match kind with
  | .identifier | .dot | .leftParen | .cast => false
  | .keyword .not => false
  | kind => (binaryOp? kind).isNone && !beginsPredicate kind .eof

/-- The token behind an expression that ends one, such as a comma or a pipe, ends it at every power.
-/
theorem closed_of_endsExpr {rest : List Lexeme} (h : endsExpr (kindIn rest 0) = true) (p : Nat) :
    Closed p rest := by
  generalize hkind : kindIn rest 0 = kind at h
  have hpredicate : beginsPredicate kind (kindIn rest 1) = false := by
    unfold endsExpr at h
    split at h <;> first | cases h | skip
    obtain ⟨-, hbegins⟩ := Bool.and_eq_true_iff.mp h
    cases kind with
    | keyword word => cases word <;> simp_all [beginsPredicate]
    | command verb => cases verb <;> simp_all [beginsPredicate]
    | _ => rfl
  refine ⟨?_, ?_, ?_, ?_, fun op hop => ?_, fun hbegins => ?_⟩
  · rintro heq; rw [← hkind, heq] at h; exact absurd h (by decide)
  · rintro heq; rw [← hkind, heq] at h; exact absurd h (by decide)
  · rintro heq; rw [← hkind, heq] at h; exact absurd h (by decide)
  · rintro heq; rw [← hkind, heq] at h; exact absurd h (by decide)
  · rw [hkind] at hop
    unfold endsExpr at h
    split at h <;> simp_all
  · rw [hkind, hpredicate] at hbegins
    cases hbegins

/-! ### Atoms -/

/-- `sub` reads the lexemes as the expression, whatever closed text stands behind them. -/
def SubReads (c : Context) (sub : Nat → Parse Expr) (p : Nat) (w : List Lexeme) (e : Expr) :
    Prop :=
  ∀ {s : State} {rest : List Lexeme}, s.rest = w ++ rest → Closed p rest →
    sub p c s = (.ok e, s.past w)

/-- A list of expressions is read in full if the items are and nothing behind it carries it on. -/
theorem items_apply {p : Nat} {w rest : List Lexeme} {es : List Expr}
    (h : SepBy .comma (SubReads c sub p) w es) (hs : s.rest = w ++ rest)
    (hends : endsExpr (kindIn rest 0) = true) (hcomma : kindIn rest 0 ≠ .comma) :
    separated .comma (sub p) c s = (.ok es, s.past w) :=
  separated_apply (q := Closed p) (fun h hs hclosed => h hs hclosed)
    (fun hl => closed_of_endsExpr (by rw [kindIn_cons_zero, hl]; rfl) p) h
    (closed_of_endsExpr hends p) hcomma hs

/-- A string literal is read off its token. -/
theorem stringLiteral_apply {l : Lexeme} {rest : List Lexeme} (hs : s.rest = l :: rest)
    (hl : l.token.kind = .quotedString) (what : String) :
    stringLiteral what c s = (.ok (stringOf l.token), s.past [l]) := by
  rw [stringLiteral, bind_apply_of_ok (expect_apply hs hl what), Parse.pure_apply]

/-- Without a unit behind it an integer is read as one, or as a decimal if it is too large. -/
theorem integerLiteral_apply (l : Lexeme) (hahead : s.kindAt 0 ≠ .identifier) :
    integerLiteral l.token c s = (.ok (if integerOf l.token < 2 ^ 64 then
      literalOf (.integer l.token.text (integerOf l.token)) l.token else decimalOf l.token), s) := by
  rw [integerLiteral, bind_apply_of_ok (check_apply _)]
  simp only [hahead, decide_false, Bool.false_eq_true, if_false]
  split
  case isTrue hfits =>
    rw [show integerValue l.token = some (integerOf l.token) from bounded_eq_some.mpr ⟨rfl, hfits⟩]
    rfl
  case isFalse hwide =>
    rw [show integerValue l.token = none from bounded_eq_none.mpr (Nat.le_of_not_lt hwide)]
    rfl

/-- With a unit behind it an integer is the number of a quantity. -/
theorem quantity_apply (l : Lexeme) {unit : Lexeme} {rest : List Lexeme}
    (hs : s.rest = unit :: rest)
    (hunit : unit.token.kind = .identifier) (hfits : integerOf l.token < 2 ^ 64) :
    integerLiteral l.token c s = (.ok (.literal (.quantity l.token.text (integerOf l.token)
      unit.token.text) (l.token.span.merge unit.token.span)), s.past [unit]) := by
  have hahead : s.kindAt 0 = .identifier := by rw [kindAt_eq, hs, kindIn_cons_zero, hunit]
  rw [integerLiteral, bind_apply_of_ok (check_apply _)]
  simp only [hahead, decide_true, if_true]
  rw [bind_apply_of_ok (advance_apply hs),
    show integerValue l.token = some (integerOf l.token) from bounded_eq_some.mpr ⟨rfl, hfits⟩]
  rfl

/-- A name that no parenthesis follows. -/
theorem nameExpr_apply {w rest : List Lexeme} (hs : s.rest = w ++ rest) {name : FieldName}
    (hname : IsFieldName w name) (hdot : kindIn rest 0 ≠ .dot)
    (hparen : kindIn rest 0 ≠ .leftParen) :
    nameExpr sub c s = (.ok (match name.parts with
      | [.parameter param span] => .parameter param span
      | _ => .field name name.span), s.past w) := by
  have hahead : (s.past w).kindAt 0 ≠ .leftParen := by rwa [kindAt_eq, past_rest hs]
  rw [nameExpr, bind_apply_of_ok (fieldName_apply hs hname hdot)]
  obtain ⟨parts, span⟩ := name
  cases parts with
  | nil => rfl
  | cons part parts =>
      cases parts with
      | cons part' parts => cases part <;> rfl
      | nil =>
          dsimp only
          rw [bind_apply_of_ok (eat_apply_of_ne hahead)]
          cases part <;> rfl

/-- A single name in front of a parenthesis is called. -/
theorem call_apply {l opening closing : Lexeme} {w rest : List Lexeme}
    (hs : s.rest = l :: opening :: (w ++ closing :: rest)) {part : NamePart}
    (hpart : IsNamePart [l] part) (hopening : opening.token.kind = .leftParen)
    (hclosing : closing.token.kind = .rightParen) {es : List Expr}
    (hargs : arguments sub c (s.past [l, opening]) = (.ok es, s.past ([l, opening] ++ w))) :
    nameExpr sub c s =
      (.ok (.call part es (spanOver (spanOver part.span [l]) [closing])),
        s.past (l :: opening :: (w ++ [closing]))) := by
  have hdot : kindIn (opening :: (w ++ closing :: rest)) 0 ≠ .dot := by
    rw [kindIn_cons_zero, hopening]
    simp
  have hs₁ : (s.past [l]).rest = opening :: (w ++ closing :: rest) := past_rest (w := [l]) hs
  have hs₂ : (s.past ([l, opening] ++ w)).rest = closing :: rest := by
    refine past_rest ?_
    rw [hs]
    simp
  rw [nameExpr, bind_apply_of_ok (fieldName_apply (w := [l]) hs (.mk (.one hpart)) hdot)]
  dsimp only
  rw [bind_apply_of_ok (eat_apply hs₁ hopening), past_past]
  simp only [if_true, List.singleton_append]
  rw [bind_apply_of_ok hargs, bind_apply_of_ok (expect_apply hs₂ hclosing _), past_past,
    bind_apply_of_ok (spanFrom_apply _), Parse.pure_apply]
  have hstop : lastStop ([l, opening] ++ w ++ [closing]) s.prevEnd = closing.token.span.stop :=
    lastStop_concat _ _ _
  rw [past_prevEnd, hstop]
  rfl

/-- In front of `)` there are no arguments. -/
theorem arguments_apply_nil (hahead : s.kindAt 0 = .rightParen) :
    arguments sub c s = (.ok [], s) := by
  rw [arguments, bind_apply_of_ok (check_apply _)]
  simp only [hahead, decide_true, if_true]
  rfl

/-- A `*` as the only argument stands for itself. -/
theorem arguments_apply_star {star : Lexeme} {rest : List Lexeme} (hs : s.rest = star :: rest)
    (hstar : star.token.kind = .asterisk) :
    arguments sub c s = (.ok [literalOf .star star.token], s.past [star]) := by
  have hahead : s.kindAt 0 ≠ .rightParen := by
    rw [kindAt_eq, hs, kindIn_cons_zero, hstar]
    simp
  rw [arguments, bind_apply_of_ok (check_apply _)]
  simp only [hahead, decide_false, Bool.false_eq_true, if_false]
  rw [bind_apply_of_ok (current_apply hs), bind_apply_of_ok (eat_apply hs hstar)]
  rfl

/-- Arguments are read in full up to the `)`. -/
theorem arguments_apply {w rest : List Lexeme} {es : List Expr}
    (h : SepBy .comma (SubReads c sub 0) w es) (hs : s.rest = w ++ rest)
    (hclosing : kindIn rest 0 = .rightParen) (hstart : s.kindAt 0 ≠ .rightParen)
    (hstar : s.kindAt 0 ≠ .asterisk) :
    arguments sub c s = (.ok es, s.past w) := by
  rw [arguments, bind_apply_of_ok (check_apply _)]
  simp only [hstart, decide_false, Bool.false_eq_true, if_false]
  rw [bind_apply_of_ok (current_run c s), bind_apply_of_ok (eat_apply_of_ne hstar)]
  exact items_apply h hs (by rw [hclosing]; rfl) (by rw [hclosing]; simp)

/-- What stands between parentheses: one expression. -/
theorem parenthesized_apply {w rest : List Lexeme} {closing : Lexeme} {e : Expr}
    (h : SubReads c sub 0 w e) (hs : s.rest = w ++ closing :: rest)
    (hclosing : closing.token.kind = .rightParen) (opening : Span) :
    parenthesized sub opening c s = (.ok e, s.past (w ++ [closing])) := by
  have hclosed : Closed 0 (closing :: rest) :=
    closed_of_endsExpr (by rw [kindIn_cons_zero, hclosing]; rfl) 0
  have hs₁ : (s.past w).rest = closing :: rest := past_rest hs
  have hahead : (s.past w).kindAt 0 ≠ .comma := by
    rw [kindAt_eq, hs₁, kindIn_cons_zero, hclosing]
    simp
  rw [parenthesized, bind_apply_of_ok (h hs hclosed), bind_apply_of_ok (check_apply _)]
  simp only [hahead, decide_false, Bool.false_eq_true, if_false]
  rw [bind_apply_of_ok (expect_apply hs₁ hclosing _), past_past]
  rfl

/-- What stands between parentheses: the items of a list. -/
theorem parenthesized_apply_list {w rest : List Lexeme} {closing : Lexeme} {e e' : Expr}
    {es : List Expr} (h : SepBy .comma (SubReads c sub 0) w (e :: e' :: es))
    (hs : s.rest = w ++ closing :: rest) (hclosing : closing.token.kind = .rightParen)
    (opening : Span) :
    parenthesized sub opening c s =
      (.ok (.list (e :: e' :: es) .paren (spanOver opening [closing])),
        s.past (w ++ [closing])) := by
  obtain ⟨w₁, w₂, a, bs, rfl, hcons, hfirst, hothers⟩ := h.head
  obtain ⟨rfl, rfl⟩ := List.cons.inj hcons
  have hs₁ : s.rest = w₁ ++ (w₂ ++ closing :: rest) := by rw [hs, List.append_assoc]
  have hrest₁ : (s.past w₁).rest = w₂ ++ closing :: rest := past_rest hs₁
  have hrest₂ : (s.past (w₁ ++ w₂)).rest = closing :: rest := past_rest hs
  obtain ⟨l, w', rfl, hl, -⟩ := hothers.resolve_left (by simp)
  -- Items end at the comma behind them, and the last one at the closing parenthesis.
  have hclosed : Closed 0 (l :: w' ++ closing :: rest) :=
    closed_of_endsExpr (by rw [List.cons_append, kindIn_cons_zero, hl]; rfl) 0
  have hahead : (s.past w₁).kindAt 0 = .comma := by rw [kindAt_eq, hrest₁]; exact hl
  have hclosed' : Closed 0 (closing :: rest) :=
    closed_of_endsExpr (by rw [kindIn_cons_zero, hclosing]; rfl) 0
  rw [parenthesized, bind_apply_of_ok (hfirst hs₁ hclosed),
    bind_apply_of_ok (check_apply _)]
  simp only [hahead, decide_true, if_true]
  rw [bind_apply_of_ok (others_apply (q := Closed 0) (fun h hs hclosed => h hs hclosed)
      (fun hl => closed_of_endsExpr (by rw [kindIn_cons_zero, hl]; rfl) 0) hothers
      hclosed' (by rw [kindIn_cons_zero, hclosing]; simp) hrest₁),
    past_past, bind_apply_of_ok (expect_apply hrest₂ hclosing _), past_past,
    bind_apply_of_ok (spanFrom_apply _), Parse.pure_apply]
  simp only [past_prevEnd, lastStop_concat]
  rfl

/-- In front of `]` there are no items. -/
theorem bracketed_apply_nil {closing : Lexeme} {rest : List Lexeme} (hs : s.rest = closing :: rest)
    (hclosing : closing.token.kind = .closeBracket) (opening : Span) :
    bracketed sub opening c s =
      (.ok (.list [] .bracket (spanOver opening [closing])), s.past [closing]) := by
  have hahead : s.kindAt 0 = .closeBracket := by rw [kindAt_eq, hs]; exact hclosing
  rw [bracketed, bind_apply_of_ok (check_apply _)]
  simp only [hahead, decide_true, if_true]
  rw [bind_apply_of_ok (Parse.pure_apply _ c s), bind_apply_of_ok (expect_apply hs hclosing _),
    bind_apply_of_ok (spanFrom_apply _),
    Parse.pure_apply]
  rfl

/-- The items of a list in brackets are read in full up to the `]`. -/
theorem bracketed_apply {w rest : List Lexeme} {closing : Lexeme} {es : List Expr}
    (h : SepBy .comma (SubReads c sub 0) w es) (hs : s.rest = w ++ closing :: rest)
    (hclosing : closing.token.kind = .closeBracket) (hstart : s.kindAt 0 ≠ .closeBracket)
    (opening : Span) :
    bracketed sub opening c s =
      (.ok (.list es .bracket (spanOver opening [closing])), s.past (w ++ [closing])) := by
  have hend : endsExpr closing.token.kind = true := by rw [hclosing]; rfl
  rw [bracketed, bind_apply_of_ok (check_apply _)]
  simp only [hstart, decide_false, Bool.false_eq_true, if_false]
  rw [expressions,
    bind_apply_of_ok (items_apply h hs hend (by rw [kindIn_cons_zero, hclosing]; simp)),
    bind_apply_of_ok (expect_apply (past_rest hs) hclosing _), past_past,
    bind_apply_of_ok (spanFrom_apply _), Parse.pure_apply]
  simp only [past_prevEnd, lastStop_concat]
  rfl

/-! ### Atoms behind their first lexeme -/

/-- A literal of one lexeme. -/
theorem atom_apply_literal {l : Lexeme} {rest : List Lexeme} (hs : s.rest = l :: rest) {e : Expr}
    (h : l.token.kind = .keyword .null ∧ e = literalOf .null l.token ∨
      l.token.kind = .keyword .«true» ∧ e = literalOf (.boolean true) l.token ∨
      l.token.kind = .keyword .«false» ∧ e = literalOf (.boolean false) l.token ∨
      l.token.kind = .quotedString ∧ e = stringOf l.token ∨
      l.token.kind = .decimal ∧ e = decimalOf l.token) :
    atom sub c s = (.ok e, s.past [l]) := by
  rw [atom, bind_apply_of_ok (current_apply hs)]
  rcases h with ⟨hl, rfl⟩ | ⟨hl, rfl⟩ | ⟨hl, rfl⟩ | ⟨hl, rfl⟩ | ⟨hl, rfl⟩ <;>
    (rw [hl]; dsimp only; rw [bind_apply_of_ok (advance_apply hs), Parse.pure_apply])

/-- An atom that begins with an integer is that integer, with or without a unit. -/
theorem atom_apply_integer {l : Lexeme} {rest : List Lexeme} (hs : s.rest = l :: rest)
    (hl : l.token.kind = .integer) :
    atom sub c s = integerLiteral l.token c (s.past [l]) := by
  rw [atom, bind_apply_of_ok (current_apply hs), hl]
  dsimp only
  rw [bind_apply_of_ok (advance_apply hs)]

/-- An atom that begins with a part of a name is a name or a call. -/
theorem atom_apply_name {l : Lexeme} {rest : List Lexeme} (hs : s.rest = l :: rest)
    {part : NamePart} (h : IsNamePart [l] part) : atom sub c s = nameExpr sub c s := by
  rw [atom, bind_apply_of_ok (current_apply hs)]
  cases h with
  | identifier h => cases h with | bare hl | quoted hl => rw [hl]
  | parameter h => cases h with | anonymous hl | positional hl | named hl => rw [hl]

/-- An atom that begins with `(` is read as one in parentheses. -/
theorem atom_apply_paren {l : Lexeme} {rest : List Lexeme} (hs : s.rest = l :: rest)
    (hl : l.token.kind = .leftParen) :
    atom sub c s = parenthesized sub l.token.span c (s.past [l]) := by
  rw [atom, bind_apply_of_ok (current_apply hs), hl]
  dsimp only
  rw [bind_apply_of_ok (advance_apply hs)]

/-- An atom that begins with `[` is read as a list in brackets. -/
theorem atom_apply_bracket {l : Lexeme} {rest : List Lexeme} (hs : s.rest = l :: rest)
    (hl : l.token.kind = .openBracket) :
    atom sub c s = bracketed sub l.token.span c (s.past [l]) := by
  rw [atom, bind_apply_of_ok (current_apply hs), hl]
  dsimp only
  rw [bind_apply_of_ok (advance_apply hs)]

/-- A dotted name that neither a dot nor a parenthesis follows. -/
theorem atom_apply_field {w rest : List Lexeme} (hs : s.rest = w ++ rest) {name : FieldName}
    (h : IsFieldName w name) (hdot : kindIn rest 0 ≠ .dot) (hparen : kindIn rest 0 ≠ .leftParen) :
    atom sub c s = (.ok (match name.parts with
      | [.parameter param span] => .parameter param span
      | _ => .field name name.span), s.past w) := by
  have hread : nameExpr sub c s = _ := nameExpr_apply hs h hdot hparen
  obtain ⟨hparts⟩ := h
  obtain ⟨w₁, w₂, part, parts, rfl, -, hpart, -⟩ := hparts.head
  obtain ⟨l, rfl⟩ : ∃ l, w₁ = [l] := by cases hpart <;> exact ⟨_, rfl⟩
  rw [atom_apply_name (l := l) (by rw [hs]; rfl) hpart, hread]

/-! ### The first lexeme -/

/-- A token of this kind begins an atom. -/
def startsAtom : Token.Kind → Bool
  | .integer | .decimal | .quotedString | .keyword .null | .keyword .«true» | .keyword .«false»
  | .identifier | .quotedIdentifier | .anonymousParam | .param | .leftParen | .openBracket => true
  | _ => false

/-- A token of this kind begins an expression. -/
def startsExpr (kind : Token.Kind) : Bool :=
  startsAtom kind || kind = .keyword .not || kind = .minus || kind = .plus

/-- A part of a name begins an atom. -/
theorem IsNamePart.startsAtom {l : Lexeme} {part : NamePart} (h : IsNamePart [l] part) :
    startsAtom l.token.kind = true := by
  cases h with
  | identifier h => cases h with | bare h | quoted h => rw [h]; rfl
  | parameter h => cases h with | anonymous h | positional h | named h => rw [h]; rfl

/-- So does a name. -/
theorem IsFieldName.startsAtom {w : List Lexeme} {name : FieldName} (h : IsFieldName w name) :
    Parser.startsAtom (kindIn w 0) = true := by
  obtain ⟨hparts⟩ := h
  obtain ⟨w₁, w₂, part, parts, rfl, -, hpart, -⟩ := hparts.head
  cases hpart with
  | identifier h => exact IsNamePart.startsAtom (.identifier h)
  | parameter h => exact IsNamePart.startsAtom (.parameter h)

/-- An expression begins with the token of an atom, or with an operator in front of an operand at
the levels that have one. -/
theorem Derives.startsExpr {level : Level} {w : List Lexeme} {e : Expr} (h : Derives level w e) :
    Parser.startsExpr (kindIn w 0) = true ∧
      (Level.primary.power ≤ level.power → Parser.startsAtom (kindIn w 0) = true) := by
  -- An operand is never empty, so the whole begins as its first operand does.
  have hfirst : ∀ {w w' : List Lexeme}, w ≠ [] → kindIn (w ++ w') 0 = kindIn w 0 := by
    intro w w' hne
    cases w with
    | nil => exact absurd rfl hne
    | cons l w => rfl
  have hatom : ∀ {kind : Token.Kind} {level : Level}, Parser.startsAtom kind = true →
      Parser.startsExpr kind = true ∧
        (Level.primary.power ≤ level.power → Parser.startsAtom kind = true) :=
    fun hkind => ⟨by rw [Parser.startsExpr, hkind]; rfl, fun _ => hkind⟩
  induction h with
  -- Beneath an operator of any kind the second half is void: the level is too weak for an atom.
  | @up level next w e hnext h ih =>
      refine ⟨ih.1, fun hlevel => ih.2 ?_⟩
      rw [Level.power_next hnext]
      exact Nat.le_trans hlevel (Nat.le_add_right _ _)
  | @chain op next l w w' e e' hop hchain hnext left right ihl ihr =>
      rw [hfirst left.ne_nil]
      exact ⟨ihl.1, fun hlevel => by cases op <;> exact absurd hlevel (by decide)⟩
  | compare _ _ left _ ihl _ =>
      rw [hfirst left.ne_nil]
      exact ⟨ihl.1, fun hlevel => absurd hlevel (by decide)⟩
  | inList h _ _ _ _ _ _ ih _ =>
      rw [hfirst h.ne_nil]
      exact ⟨ih.1, fun hlevel => absurd hlevel (by decide)⟩
  | like h _ _ _ ih =>
      rw [hfirst h.ne_nil]
      exact ⟨ih.1, fun hlevel => absurd hlevel (by decide)⟩
  | isNull h _ _ _ ih =>
      rw [hfirst h.ne_nil]
      exact ⟨ih.1, fun hlevel => absurd hlevel (by decide)⟩
  | «match» h _ _ ih =>
      rw [hfirst h.ne_nil]
      exact ⟨ih.1, fun hlevel => absurd hlevel (by decide)⟩
  | not hl _ _ =>
      rw [kindIn_cons_zero, hl]
      exact ⟨rfl, fun hlevel => absurd hlevel (by decide)⟩
  | @sign op l w e hop _ _ =>
      rw [kindIn_cons_zero]
      refine ⟨?_, fun hlevel => absurd hlevel (by decide)⟩
      unfold signOp? at hop
      split at hop
      · rename_i hl; rw [hl]; rfl
      · rename_i hl; rw [hl]; rfl
      · cases hop
  | cast h _ _ ih =>
      rw [hfirst h.ne_nil]
      exact ⟨ih.1, fun _ => ih.2 (Nat.le_refl _)⟩
  | field h _ => exact hatom h.startsAtom
  | parameter h => exact hatom (IsNamePart.startsAtom (.parameter h))
  | call h _ _ | callStar h _ _ _ | callWith h _ _ _ _ _ => exact hatom h.startsAtom
  | nullWord hl | trueWord hl | falseWord hl | string hl | decimal hl | integer hl _ | wideInteger hl _
  | quantity hl _ _ | paren hl _ _ _ | parenList hl _ _ _ _ | emptyList hl _
  | bracketList hl _ _ _ _ => exact hatom (by rw [kindIn_cons_zero, hl]; rfl)

/-! ### Operators -/

/-- The loop over operators ends in front of what closes the expression. -/
theorem operators_stop {p fuel : Nat} {e : Expr} {operand : Operand} (h : Closed p s.rest) :
    operators sub p fuel e operand c s = (.ok e, s) := by
  cases fuel with
  | zero => rfl
  | succ fuel =>
      have hpeek : peek c s = (.ok (kindIn s.rest 0), s) := rfl
      have hpeek' : peekSecond c s = (.ok (kindIn s.rest 1), s) := rfl
      rw [operators, bind_apply_of_ok hpeek, bind_apply_of_ok hpeek']
      split
      case isTrue hbegins => rw [if_pos (h.predicate hbegins), Parse.pure_apply]
      case isFalse =>
        cases hop : binaryOp? (kindIn s.rest 0) with
        | none => rfl
        | some op =>
            dsimp only
            rw [if_pos (h.operator op hop), Parse.pure_apply]

/-- A predicate ahead makes a condition. -/
theorem operators_predicate {p fuel : Nat} {e e' : Expr} {operand : Operand}
    (hbegins : beginsPredicate (s.kindAt 0) (s.kindAt 1) = true) (hp : p ≤ predicatePower)
    (hoperand : operand ≠ .condition) (h : predicate sub e c s = (.ok e', s')) :
    operators sub p (fuel + 1) e operand c s = operators sub p fuel e' .condition c s' := by
  have hpeek : peek c s = (.ok (s.kindAt 0), s) := rfl
  have hpeek' : peekSecond c s = (.ok (s.kindAt 1), s) := rfl
  rw [operators, bind_apply_of_ok hpeek, bind_apply_of_ok hpeek', if_pos hbegins,
    if_neg (Nat.not_lt.mpr hp), if_neg hoperand, bind_apply_of_ok h]

/-- An operator ahead takes its right operand. -/
theorem operators_binary {p fuel : Nat} {e e' : Expr} {operand : Operand} {op : BinaryOp}
    {l : Lexeme} {rest : List Lexeme} (hs : s.rest = l :: rest)
    (hop : binaryOp? l.token.kind = some op) (hp : p ≤ power op)
    (hallows : operand.allows op = true)
    (h : sub (power op + 1) c (s.past [l]) = (.ok e', s')) :
    operators sub p (fuel + 1) e operand c s =
      operators sub p fuel (.binary e op e' (e.span.merge e'.span)) (.ofBinary op) c s' := by
  have hpeek : peek c s = (.ok l.token.kind, s) := by
    show ((.ok (s.kindAt 0), s) : Except Diagnostic Token.Kind × State) = _
    rw [kindAt_eq, hs, kindIn_cons_zero]
  have hpeek' : peekSecond c s = (.ok (s.kindAt 1), s) := rfl
  have hbegins : ¬ beginsPredicate l.token.kind (s.kindAt 1) = true := by
    intro hbegins
    rw [binaryOp?_eq_none hbegins] at hop
    cases hop
  rw [operators, bind_apply_of_ok hpeek, bind_apply_of_ok hpeek', if_neg hbegins, hop]
  dsimp only
  rw [if_neg (Nat.not_lt.mpr hp), if_pos hallows, bind_apply_of_ok (advance_apply hs),
    bind_apply_of_ok h]

/-- A `NOT` in front of a predicate is taken, and one that is not there is not. -/
theorem negation_apply {n rest : List Lexeme} {negated : Bool} (hn : IsNegation n negated)
    (hs : s.rest = n ++ rest) (hrest : kindIn rest 0 ≠ .keyword .not) :
    eat (.keyword .not) c s = (.ok negated, s.past n) := by
  cases hn with
  | absent => exact eat_apply_of_ne (by rw [kindAt_eq, hs]; exact hrest)
  | present hl => exact eat_apply hs hl

/-- The predicate `IN` is read off its keyword and its list. -/
theorem predicate_apply_in {l opening closing : Lexeme} {n w rest : List Lexeme} {e : Expr}
    {es : List Expr} {negated : Bool} (hn : IsNegation n negated)
    (hl : l.token.kind = .keyword .«in») (hopening : opening.token.kind = .leftParen)
    (h : SepBy .comma (SubReads c sub comparisonPower) w es)
    (hclosing : closing.token.kind = .rightParen)
    (hs : s.rest = n ++ l :: opening :: (w ++ closing :: rest)) :
    predicate sub e c s = (.ok (.inList e es negated (spanOver e.span [closing])),
      s.past (n ++ l :: opening :: (w ++ [closing]))) := by
  have hs₁ : (s.past n).rest = l :: opening :: (w ++ closing :: rest) := past_rest hs
  have hs₂ : (s.past (n ++ [l])).rest = opening :: (w ++ closing :: rest) :=
    past_rest (by rw [hs, List.append_assoc]; rfl)
  have hs₃ : (s.past (n ++ [l] ++ [opening])).rest = w ++ closing :: rest :=
    past_rest (by rw [hs]; simp)
  have hs₄ : (s.past (n ++ [l] ++ [opening] ++ w)).rest = closing :: rest :=
    past_rest (by rw [hs]; simp)
  have hend : endsExpr (kindIn (closing :: rest) 0) = true := by
    rw [kindIn_cons_zero, hclosing]
    rfl
  have hw : n ++ [l] ++ [opening] ++ w ++ [closing] = n ++ l :: opening :: (w ++ [closing]) := by
    simp
  -- From here on the reader is run, lexeme by lexeme.
  rw [predicate, bind_apply_of_ok (negation_apply hn hs (by rw [kindIn_cons_zero, hl]; simp)),
    bind_apply_of_ok (advance_apply hs₁), past_past, hl]
  dsimp only
  rw [bind_apply_of_ok (expect_apply hs₂ hopening _), past_past,
    bind_apply_of_ok (items_apply h hs₃ hend (by rw [kindIn_cons_zero, hclosing]; simp)),
    past_past, bind_apply_of_ok (expect_apply hs₄ hclosing _), past_past,
    bind_apply_of_ok (spanFrom_apply _), Parse.pure_apply, past_prevEnd, lastStop_concat, hw]
  rfl

/-- A `LIKE` or an `RLIKE` is read off its keyword and its pattern. -/
theorem predicate_apply_like {op : LikeOp} {l pattern : Lexeme} {n rest : List Lexeme} {e : Expr}
    {negated : Bool} (hn : IsNegation n negated) (hl : l.token.kind = .keyword (likeKeyword op))
    (hpattern : pattern.token.kind = .quotedString) (hs : s.rest = n ++ l :: pattern :: rest) :
    predicate sub e c s =
      (.ok (.like e (stringOf pattern.token) op negated (e.span.merge pattern.token.span)),
        s.past (n ++ [l, pattern])) := by
  have hs₁ : (s.past n).rest = l :: pattern :: rest := past_rest hs
  have hs₂ : (s.past (n ++ [l])).rest = pattern :: rest :=
    past_rest (by rw [hs, List.append_assoc]; rfl)
  have hnot : kindIn (l :: pattern :: rest) 0 ≠ .keyword .not := by
    rw [kindIn_cons_zero, hl]
    cases op <;> simp [likeKeyword]
  have hw : n ++ [l] ++ [pattern] = n ++ [l, pattern] := by simp
  rw [predicate, bind_apply_of_ok (negation_apply hn hs hnot), bind_apply_of_ok (advance_apply hs₁),
    past_past, hl, ← hw]
  cases op with
  | like | rlike =>
      dsimp only [likeKeyword]
      rw [bind_apply_of_ok (stringLiteral_apply hs₂ hpattern _), past_past]
      rfl

/-- An `IS NULL` is read off its two keywords, with the `NOT` between them. -/
theorem predicate_apply_null {l null : Lexeme} {n rest : List Lexeme} {e : Expr} {negated : Bool}
    (hl : l.token.kind = .keyword .is) (hn : IsNegation n negated)
    (hnull : null.token.kind = .keyword .null) (hs : s.rest = l :: (n ++ null :: rest)) :
    predicate sub e c s = (.ok (.isNull e negated (e.span.merge null.token.span)),
      s.past (l :: (n ++ [null]))) := by
  have hahead : s.kindAt 0 ≠ .keyword .not := by
    rw [kindAt_eq, hs, kindIn_cons_zero, hl]
    simp
  have hs₁ : (s.past [l]).rest = n ++ null :: rest := past_rest (w := [l]) hs
  have hs₂ : (s.past ([l] ++ n)).rest = null :: rest := past_rest (by rw [hs]; simp)
  rw [predicate, bind_apply_of_ok (eat_apply_of_ne hahead), bind_apply_of_ok (advance_apply hs), hl]
  dsimp only
  rw [bind_apply_of_ok (negation_apply hn hs₁ (by rw [kindIn_cons_zero, hnull]; simp)), past_past,
    bind_apply_of_ok (expect_apply hs₂ hnull _), past_past]
  rfl

/-- A `MATCH` is read off its keyword and its text. -/
theorem predicate_apply_match {l query : Lexeme} {rest : List Lexeme} {e : Expr}
    (hl : l.token.kind = .command .«match») (hquery : query.token.kind = .quotedString)
    (hs : s.rest = l :: query :: rest) :
    predicate sub e c s = (.ok (.«match» e (stringOf query.token)
      (e.span.merge query.token.span)), s.past [l, query]) := by
  have hahead : s.kindAt 0 ≠ .keyword .not := by
    rw [kindAt_eq, hs, kindIn_cons_zero, hl]
    simp
  have hs₁ : (s.past [l]).rest = query :: rest := past_rest (w := [l]) hs
  rw [predicate, bind_apply_of_ok (eat_apply_of_ne hahead), bind_apply_of_ok (advance_apply hs), hl]
  dsimp only
  rw [bind_apply_of_ok (stringLiteral_apply hs₁ hquery _), past_past]
  rfl

/-- An operand without an operator in front. -/
theorem leading_apply {p : Nat} {e : Expr} (hstart : startsAtom (s.kindAt 0) = true)
    (h : primary sub c s = (.ok e, s')) : leading sub p c s = (.ok (e, .value), s') := by
  have hne : s.rest ≠ [] := by
    intro hnil
    rw [kindAt_eq, hnil] at hstart
    cases hstart
  obtain ⟨l, rest, hs⟩ := List.exists_cons_of_ne_nil hne
  rw [kindAt_eq, hs, kindIn_cons_zero] at hstart
  have hprimary : (do return (← primary sub, Operand.value)) c s = (.ok (e, Operand.value), s') := by
    rw [bind_apply_of_ok h, Parse.pure_apply]
  rw [leading, bind_apply_of_ok (current_apply hs)]
  generalize l.token.kind = kind at hstart
  cases kind with
  | keyword word =>
      cases word with
      | not => cases hstart
      | _ => exact hprimary
  | minus | plus => cases hstart
  | _ => exact hprimary

/-- An expression behind `NOT` is a condition, whatever its operand is. -/
theorem leading_apply_not {p : Nat} {e : Expr} {l : Lexeme} {rest : List Lexeme}
    (hs : s.rest = l :: rest) (hl : l.token.kind = .keyword .not) (hp : p ≤ notPower)
    (h : sub notPower c (s.past [l]) = (.ok e, s')) :
    leading sub p c s = (.ok (.unary .not e (l.token.span.merge e.span), .condition), s') := by
  rw [leading, bind_apply_of_ok (current_apply hs), hl]
  dsimp only
  rw [if_neg (Nat.not_lt.mpr hp), bind_apply_of_ok (advance_apply hs), bind_apply_of_ok h,
    Parse.pure_apply]

/-- An expression behind a sign is a value. -/
theorem leading_apply_sign {p : Nat} {op : UnaryOp} {e : Expr} {l : Lexeme} {rest : List Lexeme}
    (hs : s.rest = l :: rest) (hop : signOp? l.token.kind = some op)
    (h : sub signPower c (s.past [l]) = (.ok e, s')) :
    leading sub p c s = (.ok (.unary op e (l.token.span.merge e.span), .value), s') := by
  rw [leading, bind_apply_of_ok (current_apply hs)]
  unfold signOp? at hop
  split at hop
  case h_1 hl | h_2 hl =>
    cases hop
    rw [hl]
    dsimp only
    rw [bind_apply_of_ok (advance_apply hs), bind_apply_of_ok h, Parse.pure_apply]
  case h_3 => cases hop

/-- Behind its beginning an operation is a loop over operators. -/
theorem operation_apply {p : Nat} {e : Expr} {operand : Operand}
    (h : leading sub p c s = (.ok (e, operand), s')) :
    operation sub p c s = operators sub p s'.rest.length e operand c s' := by
  rw [operation, bind_apply_of_ok h]
  rfl

/-! ### Derivations are read -/

/-- What an operand of this class at the level can be followed by. -/
structure Operand.Suits (operand : Operand) (level : Level) : Prop where
  value : Level.sum.power ≤ level.power → operand = .value
  not_condition : Level.comparison.power ≤ level.power → operand ≠ .condition

/-- The parser comes to the loop over operators with the expression, behind its lexemes. -/
structure Enters (c : Context) (level : Level) (w : List Lexeme) (e : Expr) : Prop where
  run : ∀ {d p : Nat} {s : State} {rest : List Lexeme}, p ≤ level.power → p ≤ signPower →
    w.length ≤ d → s.rest = w ++ rest → MayFollow level rest →
    ∃ operand fuel, operand.Suits level ∧ rest.length ≤ fuel ∧
      operation (expressionAt d) p c s = operators (expressionAt d) p fuel e operand c (s.past w)

/-- What a derivation tells of the parser: atoms are read, behind a primary expression casts are
looked for, and behind all others operators. -/
def Entered (c : Context) : Level → List Lexeme → Expr → Prop
  | .atom, w, e => ∀ (d : Nat) (s : State) (rest : List Lexeme), w.length ≤ d →
    s.rest = w ++ rest → MayFollow .atom rest →
    atom (expressionAt d) c s = (.ok e, s.past w)
  | .primary, w, e => ∀ (d : Nat) (s : State) (rest : List Lexeme), w.length ≤ d →
    s.rest = w ++ rest → MayFollow .primary rest → ∃ fuel, rest.length ≤ fuel ∧
      primary (expressionAt d) c s = casts fuel e c (s.past w)
  | level, w, e => Enters c level w e

/-- Above the primary expressions every level asks for the same of the parser. -/
theorem entered_iff {level : Level} (h : level.power ≤ signPower) {w : List Lexeme} {e : Expr} :
    Entered c level w e ↔ Enters c level w e := by
  cases level <;> first | exact Iff.rfl | exact absurd h (by decide)

/-- An expression is read in front of what closes it. -/
theorem Enters.subReads {level : Level} {w : List Lexeme} {e : Expr} (h : Enters c level w e)
    {d p : Nat} (hp : p ≤ level.power) (hsign : p ≤ signPower) (hd : w.length < d) :
    SubReads c (expressionAt d) p w e := by
  intro s rest hs hclosed
  obtain ⟨d, rfl⟩ := Nat.exists_eq_add_one_of_ne_zero (Nat.ne_of_gt (Nat.zero_lt_of_lt hd))
  refine deeper_apply ?_
  obtain ⟨operand, fuel, -, -, heq⟩ := h.run (s := { s with depth := s.depth + 1 }) hp hsign
    (Nat.le_of_lt_succ hd) hs (hclosed.mayFollow hp)
  rw [heq]
  refine operators_stop ?_
  have hrest : (({ s with depth := s.depth + 1 } : State).past w).rest = rest := past_rest hs
  rw [hrest]
  exact hclosed

/-- The items of a list are read, if each of them is. -/
theorem subReads_items {item : List Lexeme → Expr → Prop} {level : Level} {w : List Lexeme}
    {es : List Expr} (hitems : SepBy .comma item w es)
    (hitem : ∀ w e, item w e → Enters c level w e) {d p : Nat} (hp : p ≤ level.power)
    (hsign : p ≤ signPower) (hd : w.length < d) :
    SepBy .comma (SubReads c (expressionAt d) p) w es :=
  hitems.imp fun w' e hle h =>
    (hitem w' e h).subReads hp hsign (Nat.lt_of_le_of_lt hle hd)

/-- A list begins with a token that begins an expression if its items are derived. -/
theorem SepBy.startsExpr {item : List Lexeme → Expr → Prop} {level : Level} {w : List Lexeme}
    {es : List Expr} (hitems : SepBy .comma item w es)
    (hitem : ∀ w e, item w e → Derives level w e) (rest : List Lexeme) :
    Parser.startsExpr (kindIn (w ++ rest) 0) = true := by
  obtain ⟨w₁, w₂, a, bs, rfl, rfl, h, -⟩ := hitems.head
  have hderives := hitem _ _ h
  obtain ⟨l, w₁, rfl⟩ := List.exists_cons_of_ne_nil hderives.ne_nil
  exact hderives.startsExpr.1

/-- A primary expression goes on to the loop over operators when there are no more casts. -/
theorem enters_primary {w : List Lexeme} {e : Expr} (hderives : Derives .primary w e)
    (h : Entered c .primary w e) : Enters c .sign w e := by
  refine ⟨fun {d p s rest} hp hsign hd hs hfollow => ?_⟩
  obtain ⟨fuel, hfuel, heq⟩ := h d s rest hd hs (hfollow.mono (by decide))
  have hrest : (s.past w).rest = rest := past_rest hs
  have hcasts : casts fuel e c (s.past w) = (.ok e, s.past w) := by
    cases fuel with
    | zero => rfl
    | succ fuel =>
        have hcast : (s.past w).kindAt 0 ≠ .cast := by
          rw [kindAt_eq, hrest]
          exact fun hcast => absurd (hfollow.cast hcast) (by decide)
        rw [casts, bind_apply_of_ok (eat_apply_of_ne hcast)]
        rfl
  have hstart : startsAtom (s.kindAt 0) = true := by
    obtain ⟨l, w, rfl⟩ := List.exists_cons_of_ne_nil hderives.ne_nil
    rw [kindAt_eq, hs]
    exact hderives.startsExpr.2 (Nat.le_refl _)
  refine ⟨.value, rest.length, ⟨fun _ => rfl, fun _ => by simp⟩, Nat.le_refl _, ?_⟩
  rw [operation_apply (leading_apply hstart (heq.trans hcasts)), hrest]

/-- What an operator in front of an operand makes. -/
theorem enters_leading {level : Level} {l : Lexeme} {w : List Lexeme} {e : Expr}
    (operand : Operand) (hsuits : operand.Suits level)
    (h : ∀ {d p s rest}, p ≤ level.power → (l :: w).length ≤ d → s.rest = l :: w ++ rest →
      MayFollow level rest →
      leading (expressionAt d) p c s = (.ok (e, operand), s.past (l :: w))) :
    Enters c level (l :: w) e := by
  refine ⟨fun {d p s rest} hp hsign hd hs hfollow => ?_⟩
  refine ⟨operand, rest.length, hsuits, Nat.le_refl _, ?_⟩
  rw [operation_apply (h hp hd hs hfollow), past_rest hs]

/-- A binary operator behind an operand. -/
theorem enters_binary {op : BinaryOp} {left next : Level} {l : Lexeme} {w w' : List Lexeme}
    {e e' : Expr} (hop : binaryOp? l.token.kind = some op) (hl : Enters c left w e)
    (hr : Enters c next w' e') (hleft : power op ≤ left.power) (hnext : power op < next.power)
    (hallows : ∀ operand : Operand, operand.Suits left → operand.allows op = true)
    (hsuits : (Operand.ofBinary op).Suits (.ofOp op)) :
    Enters c (.ofOp op) (w ++ l :: w') (.binary e op e' (e.span.merge e'.span)) := by
  refine ⟨fun {d p s rest} hp hsign hd hs hfollow => ?_⟩
  rw [Level.power_ofOp] at hp
  have hlength : w.length + (w'.length + 1) ≤ d := by simpa using hd
  have hs₀ : s.rest = w ++ (l :: (w' ++ rest)) := by rw [hs]; simp
  have hs₁ : (s.past w).rest = l :: (w' ++ rest) := past_rest hs₀
  have hs₂ : (s.past (w ++ [l])).rest = w' ++ rest := past_rest (by rw [hs]; simp)
  -- An operator is no part of the operand in front of it.
  have hfollow₁ : MayFollow left (l :: (w' ++ rest)) := by
    have hne : ∀ kind, binaryOp? kind = none → l.token.kind ≠ kind := by
      rintro kind hkind rfl
      rw [hkind] at hop
      cases hop
    refine ⟨hne _ rfl, hne _ rfl, hne _ rfl, fun hcast => absurd hcast (hne _ rfl),
      fun op' hop' => ?_, fun hbegins => ?_⟩
    · obtain rfl : op = op' := Option.some.inj (hop.symm.trans hop')
      exact hleft
    · rw [kindIn_cons_zero] at hbegins
      rw [binaryOp?_eq_none hbegins] at hop
      cases hop
  have hclosed : Closed (power op + 1) rest := by
    refine hfollow.closed ?_ ?_ fun op' hop' => ?_
    · rw [Level.power_ofOp]; exact Nat.le_of_lt (power_lt_signPower op)
    · rw [Level.power_ofOp]; exact Nat.le_succ _
    · rw [Level.power_ofOp] at hop'; exact Nat.lt_succ_of_le hop'
  obtain ⟨operand, fuel, hoperand, hfuel, heq⟩ :=
    hl.run (d := d) (Nat.le_trans hp hleft) hsign (by omega) hs₀ hfollow₁
  obtain ⟨fuel, rfl⟩ := Nat.exists_eq_add_one_of_ne_zero (n := fuel) (by
    rintro rfl
    simp at hfuel)
  have hright := hr.subReads (Nat.succ_le_of_lt hnext) (Nat.succ_le_of_lt (power_lt_signPower op))
    (show w'.length < d by omega) hs₂ hclosed
  refine ⟨.ofBinary op, fuel, hsuits, ?_, ?_⟩
  · simp only [List.length_cons, List.length_append] at hfuel
    omega
  · rw [heq, operators_binary hs₁ hop hp (hallows operand hoperand)
      ((congrArg _ (past_past s w [l])).trans hright), past_past]
    congr 1
    simp

/-- A predicate behind an operand. -/
theorem enters_predicate {w w' : List Lexeme} {e e' : Expr} (h : Enters c .comparison w e)
    (hfirst : w' ≠ []) (hfollow : ∀ rest, MayFollow .comparison (w' ++ rest))
    (hbegins : ∀ rest, beginsPredicate (kindIn (w' ++ rest) 0) (kindIn (w' ++ rest) 1) = true)
    (hpredicate : ∀ {d s rest}, w'.length ≤ d → s.rest = w' ++ rest →
      predicate (expressionAt d) e c s = (.ok e', s.past w')) :
    Enters c .predicate (w ++ w') e' := by
  refine ⟨fun {d p s rest} hp hsign hd hs _ => ?_⟩
  rw [List.length_append] at hd
  rw [List.append_assoc] at hs
  have hs₁ : (s.past w).rest = w' ++ rest := past_rest hs
  obtain ⟨operand, fuel, hoperand, hfuel, heq⟩ :=
    h.run (d := d) (Nat.le_trans hp (by decide)) hsign (by omega) hs (hfollow rest)
  have hpos := List.length_pos_iff.mpr hfirst
  rw [List.length_append] at hfuel
  obtain ⟨fuel, rfl⟩ := Nat.exists_eq_add_one_of_ne_zero (show fuel ≠ 0 by omega)
  refine ⟨.condition, fuel, ⟨fun h => absurd h (by decide), fun h => absurd h (by decide)⟩,
    by omega, ?_⟩
  rw [heq, operators_predicate (by rw [kindAt_eq, kindAt_eq, hs₁]; exact hbegins rest) hp
    (hoperand.not_condition (Nat.le_refl _)) (hpredicate (by omega) hs₁), past_past]

/-- An expression can stand in front of a lexeme of this kind if it is no part of it. -/
theorem mayFollow_of_beginsPredicate {level : Level} {w : List Lexeme}
    (hbegins : beginsPredicate (kindIn w 0) (kindIn w 1) = true)
    (hlevel : Level.comparison.power ≤ level.power) : MayFollow level w := by
  have hop := binaryOp?_eq_none hbegins
  have hne : ∀ kind, (∀ second, beginsPredicate kind second = false) → kindIn w 0 ≠ kind := by
    intro kind hkind heq
    rw [heq, hkind] at hbegins
    cases hbegins
  refine ⟨hne _ fun _ => rfl, hne _ fun _ => rfl, hne _ fun _ => rfl,
    fun hcast => absurd hcast (hne _ fun _ => rfl), fun op hop' => ?_, fun _ => hlevel⟩
  rw [hop] at hop'
  cases hop'

/-- A predicate is seen ahead by the keyword behind a `NOT` as well as by itself. -/
theorem beginsPredicate_negation {n w : List Lexeme} {negated : Bool} (hn : IsNegation n negated)
    (hw : kindIn w 0 = .keyword .«in» ∨ ∃ op, kindIn w 0 = .keyword (likeKeyword op)) :
    beginsPredicate (kindIn (n ++ w) 0) (kindIn (n ++ w) 1) = true := by
  cases hn with
  | absent =>
      rw [List.nil_append]
      rcases hw with hw | ⟨op, hw⟩
      · rw [hw]; rfl
      · rw [hw]; cases op <;> rfl
  | present hl =>
      rw [List.singleton_append, kindIn_cons_zero, kindIn_cons_succ, hl]
      rcases hw with hw | ⟨op, hw⟩
      · rw [hw]; rfl
      · rw [hw]; cases op <;> rfl

/-! ### One lemma for each production -/

section

variable {l opening closing : Lexeme} {w n w' : List Lexeme} {e e' : Expr} {es : List Expr}
  {negated : Bool} {item : List Lexeme → Expr → Prop}

/-- What is read at a tighter level is read at this one. -/
theorem entered_up {level next : Level} (hnext : level.next? = some next) (h : Derives next w e)
    (ih : Entered c next w e) : Entered c level w e := by
  cases level with
  | atom => cases hnext
  | primary =>
      obtain rfl : next = .atom := (Option.some.inj hnext).symm
      intro d s rest hd hs hfollow
      refine ⟨rest.length, Nat.le_refl _, ?_⟩
      rw [primary, bind_apply_of_ok (ih d s rest hd hs (hfollow.mono (by decide))),
        bind_apply_of_ok remaining_apply, past_rest hs]
  | sign =>
      obtain rfl : next = .primary := (Option.some.inj hnext).symm
      exact enters_primary h ih
  | _ =>
      cases hnext
      refine ⟨fun {d p s rest} hp hsign hd hs hfollow => ?_⟩
      obtain ⟨operand, fuel, hoperand, hfuel, heq⟩ :=
        ih.run (Nat.le_trans hp (by decide)) hsign hd hs (hfollow.mono (by decide))
      exact ⟨operand, fuel, ⟨fun h => hoperand.value (Nat.le_trans h (by decide)),
        fun h => hoperand.not_condition (Nat.le_trans h (by decide))⟩, hfuel, heq⟩

/-- A chain of operators of one level goes on with any operand of that level. -/
theorem entered_chain {op : BinaryOp} {next : Level} (hop : binaryOp? l.token.kind = some op)
    (hchain : op.isComparison = false) (hnext : (Level.ofOp op).next? = some next)
    (left : Entered c (.ofOp op) w e) (right : Entered c next w' e') :
    Entered c (.ofOp op) (w ++ l :: w') (.binary e op e' (e.span.merge e'.span)) := by
  have hsign : (Level.ofOp op).power ≤ signPower := by
    rw [Level.power_ofOp]
    exact Nat.le_of_lt (power_lt_signPower op)
  have hpower : next.power = power op + 2 := by
    rw [Level.power_next hnext, Level.power_ofOp]
  have hnextSign : next.power ≤ signPower := by
    rw [hpower]
    cases op <;> decide
  refine (entered_iff hsign).mpr (enters_binary hop ((entered_iff hsign).mp left)
    ((entered_iff hnextSign).mp right) (Nat.le_of_eq (Level.power_ofOp op).symm) (by omega)
    (fun operand hoperand => ?_) ?_)
  · -- Logical operators follow anything, the others values only.
    rw [Operand.allows, Bool.or_eq_true, decide_eq_true_eq]
    cases op with
    | and | or => exact .inl rfl
    | add | subtract | multiply | divide | modulo => exact .inr (hoperand.value (by decide))
    | _ => cases hchain
  · refine ⟨fun h => ?_, fun h => ?_⟩ <;> cases op <;>
      first | rfl | decide | exact absurd h (by decide)

/-- A comparison has sums at both sides, which no comparison can be. -/
theorem enters_compare {op : BinaryOp} (hop : binaryOp? l.token.kind = some op)
    (hcompare : op.isComparison = true) (left : Enters c .sum w e) (right : Enters c .sum w' e') :
    Enters c .comparison (w ++ l :: w') (.binary e op e' (e.span.merge e'.span)) := by
  have hlevel : Level.ofOp op = .comparison := by cases op <;> first | rfl | cases hcompare
  have hpower : power op = Level.comparison.power := by rw [← hlevel, Level.power_ofOp]
  have henters := enters_binary hop left right (by rw [hpower]; decide) (by rw [hpower]; decide)
    (fun operand hoperand => by
      rw [hoperand.value (Nat.le_refl _), Operand.allows]
      exact Bool.or_true _)
    ⟨fun h => by rw [hlevel] at h; exact absurd h (by decide),
      fun _ => by cases op <;> first | decide | cases hcompare⟩
  rwa [hlevel] at henters

/-- A `NOT` in front of an operand makes a condition. -/
theorem enters_not (hl : l.token.kind = .keyword .not) (h : Enters c .negation w e) :
    Enters c .negation (l :: w) (.unary .not e (l.token.span.merge e.span)) := by
  refine enters_leading .condition
    ⟨fun h => absurd h (by decide), fun h => absurd h (by decide)⟩
    fun {d p s rest} hp hd hs hfollow => ?_
  have hs₁ : (s.past [l]).rest = w ++ rest := past_rest (w := [l]) hs
  have hclosed : Closed notPower rest := hfollow.closed (by decide) (by decide)
    fun op hop => by cases op <;> first | decide | exact absurd hop (by decide)
  rw [leading_apply_not hs hl hp
    (h.subReads (Nat.le_refl _) (by decide) hd hs₁ hclosed), past_past]
  rfl

/-- A sign in front of an operand makes a value. -/
theorem enters_sign {op : UnaryOp} (hop : signOp? l.token.kind = some op) (h : Enters c .sign w e) :
    Enters c .sign (l :: w) (.unary op e (l.token.span.merge e.span)) := by
  refine enters_leading .value ⟨fun _ => rfl, fun _ => by simp⟩
    fun {d p s rest} hp hd hs hfollow => ?_
  have hs₁ : (s.past [l]).rest = w ++ rest := past_rest (w := [l]) hs
  have hclosed : Closed signPower rest :=
    hfollow.closed (by decide) (by decide) fun op _ => power_lt_signPower op
  rw [leading_apply_sign hs hop
    (h.subReads (Nat.le_refl _) (Nat.le_refl _) hd hs₁ hclosed), past_past]
  rfl

/-- An operand and the list that it is looked for in. -/
theorem enters_inList (h : Enters c .comparison w e) (hn : IsNegation n negated)
    (hl : l.token.kind = .keyword .«in») (hopening : opening.token.kind = .leftParen)
    (hitems : SepBy .comma item w' es) (hitem : ∀ w e, item w e → Enters c .comparison w e)
    (hclosing : closing.token.kind = .rightParen) :
    Enters c .predicate (w ++ (n ++ l :: opening :: (w' ++ [closing])))
      (.inList e es negated (spanOver e.span [closing])) := by
  have hbegins := fun rest => beginsPredicate_negation hn
    (w := l :: opening :: (w' ++ [closing]) ++ rest) (.inl hl)
  simp only [← List.append_assoc] at hbegins
  refine enters_predicate h (by simp)
    (fun rest => mayFollow_of_beginsPredicate (hbegins rest) (Nat.le_refl _)) hbegins
    fun {d s rest} hd hs => ?_
  have hlength : w'.length < d := by
    simp only [List.length_append, List.length_cons] at hd
    omega
  have hs₀ : s.rest = n ++ l :: opening :: (w' ++ closing :: rest) := by rw [hs]; simp
  exact predicate_apply_in hn hl hopening
    (subReads_items hitems hitem (by decide) (by decide) hlength) hclosing hs₀

/-- An operand and the pattern that it is held against. -/
theorem enters_like {op : LikeOp} {pattern : Lexeme} (h : Enters c .comparison w e)
    (hn : IsNegation n negated) (hl : l.token.kind = .keyword (likeKeyword op))
    (hpattern : pattern.token.kind = .quotedString) :
    Enters c .predicate (w ++ (n ++ [l, pattern]))
      (.like e (stringOf pattern.token) op negated (e.span.merge pattern.token.span)) := by
  have hbegins := fun rest => beginsPredicate_negation hn
    (w := l :: pattern :: [] ++ rest) (.inr ⟨op, hl⟩)
  simp only [← List.append_assoc] at hbegins
  refine enters_predicate h (by simp)
    (fun rest => mayFollow_of_beginsPredicate (hbegins rest) (Nat.le_refl _)) hbegins
    fun {d s rest} hd hs => ?_
  have hs₀ : s.rest = n ++ l :: pattern :: rest := by rw [hs]; simp
  exact predicate_apply_like hn hl hpattern hs₀

/-- An operand that is asked for being null. -/
theorem enters_isNull {null : Lexeme} (h : Enters c .comparison w e)
    (hl : l.token.kind = .keyword .is) (hn : IsNegation n negated)
    (hnull : null.token.kind = .keyword .null) :
    Enters c .predicate (w ++ l :: (n ++ [null]))
      (.isNull e negated (e.span.merge null.token.span)) := by
  have hbegins : ∀ rest, beginsPredicate (kindIn (l :: (n ++ [null]) ++ rest) 0)
      (kindIn (l :: (n ++ [null]) ++ rest) 1) = true := by
    intro rest
    rw [List.cons_append, kindIn_cons_zero, hl]
    rfl
  refine enters_predicate h (by simp)
    (fun rest => mayFollow_of_beginsPredicate (hbegins rest) (Nat.le_refl _)) hbegins
    fun {d s rest} hd hs => ?_
  have hs₀ : s.rest = l :: (n ++ null :: rest) := by rw [hs]; simp
  exact predicate_apply_null hl hn hnull hs₀

/-- An operand and the query that it is matched with. -/
theorem enters_match {query : Lexeme} (h : Enters c .comparison w e)
    (hl : l.token.kind = .command .«match») (hquery : query.token.kind = .quotedString) :
    Enters c .predicate (w ++ [l, query])
      (.«match» e (stringOf query.token) (e.span.merge query.token.span)) := by
  have hbegins : ∀ rest, beginsPredicate (kindIn ([l, query] ++ rest) 0)
      (kindIn ([l, query] ++ rest) 1) = true := by
    intro rest
    rw [List.cons_append, kindIn_cons_zero, hl]
    rfl
  refine enters_predicate h (by simp)
    (fun rest => mayFollow_of_beginsPredicate (hbegins rest) (Nat.le_refl _)) hbegins
    fun {d s rest} hd hs => ?_
  exact predicate_apply_match hl hquery hs

/-- A cast takes a round of the loop behind a primary expression. -/
theorem entered_cast {type : Lexeme} {id : Identifier} (h : Entered c .primary w e)
    (hl : l.token.kind = .cast) (hid : IsIdentifier type id) :
    Entered c .primary (w ++ [l, type]) (.cast e id (e.span.merge id.span)) := by
  intro d s rest hd hs hfollow
  rw [List.append_assoc] at hs
  rw [List.length_append] at hd
  have hkind : ∀ kind, kind ≠ .cast → l.token.kind ≠ kind :=
    fun kind hkind heq => hkind (heq.symm.trans hl)
  -- A cast sign may follow anything, so the operand may be read with one behind it.
  have hfollow₁ : MayFollow .primary (l :: type :: rest) := by
    refine ⟨hkind _ (by simp), hkind _ (by simp), hkind _ (by simp), fun _ => Nat.le_refl _,
      fun op hop => ?_, fun hbegins => ?_⟩
    · rw [kindIn_cons_zero, hl] at hop
      cases hop
    · rw [kindIn_cons_zero, hl] at hbegins
      cases hbegins
  obtain ⟨fuel, hfuel, heq⟩ := h d s _ (by omega) hs hfollow₁
  simp only [List.length_append, List.length_cons] at hfuel
  -- The fuel left by the operand has a round for this cast.
  obtain ⟨fuel, rfl⟩ := Nat.exists_eq_add_one_of_ne_zero (show fuel ≠ 0 by omega)
  have hs₁ : (s.past w).rest = l :: type :: rest := past_rest hs
  have hs₂ : (s.past (w ++ [l])).rest = type :: rest := past_rest (by rw [hs]; simp)
  refine ⟨fuel, by simp at hfuel; omega, ?_⟩
  rw [heq, casts, bind_apply_of_ok (eat_apply hs₁ hl), past_past]
  simp only [if_true]
  rw [bind_apply_of_ok (identifier_apply hs₂ hid _), past_past, List.append_assoc]
  rfl

/-- An integer without a unit is one if it fits in 64 bits, and a decimal otherwise. -/
theorem entered_integer (hl : l.token.kind = .integer)
    (he : (if integerOf l.token < 2 ^ 64 then
      literalOf (.integer l.token.text (integerOf l.token)) l.token else decimalOf l.token) = e) :
    Entered c .atom [l] e := by
  intro d s rest _ hs hfollow
  have hahead : (s.past [l]).kindAt 0 ≠ .identifier := by
    rw [kindAt_eq, past_rest hs]
    exact hfollow.not_unit
  rw [atom_apply_integer hs hl, integerLiteral_apply l hahead, he]

/-- An integer and its unit. -/
theorem entered_quantity {unit : Lexeme} (hl : l.token.kind = .integer)
    (hfits : integerOf l.token < 2 ^ 64) (hunit : unit.token.kind = .identifier) :
    Entered c .atom [l, unit]
      (.literal (.quantity l.token.text (integerOf l.token) unit.token.text)
        (l.token.span.merge unit.token.span)) := by
  intro d s rest _ hs _
  have hs₁ : (s.past [l]).rest = unit :: rest := past_rest (w := [l]) hs
  rw [atom_apply_integer hs hl, quantity_apply l hs₁ hunit hfits, past_past]
  rfl

/-- A parameter alone is read as a name of one part, and is none. -/
theorem entered_parameter {param : Parameter} (h : IsParameter l param) :
    Entered c .atom [l] (.parameter param l.token.span) := by
  intro d s rest _ hs hfollow
  have hname : IsFieldName [l] ⟨[.parameter param l.token.span], _⟩ := .mk (.one (.parameter h))
  rw [atom_apply_field hs hname hfollow.not_dot hfollow.not_paren]

/-- A dotted name. -/
theorem entered_field {name : FieldName} (h : IsFieldName w name)
    (hname : ∀ param span, name.parts ≠ [.parameter param span]) :
    Entered c .atom w (.field name name.span) := by
  intro d s rest _ hs hfollow
  rw [atom_apply_field hs h hfollow.not_dot hfollow.not_paren]
  split
  case h_1 param span hparts => exact absurd hparts (hname param span)
  case h_2 => rfl

/-- A call, whose arguments are read behind its name and the parenthesis. -/
theorem entered_call {part : NamePart} (hpart : IsNamePart [l] part)
    (hopening : opening.token.kind = .leftParen) (hclosing : closing.token.kind = .rightParen)
    (hargs : ∀ {d : Nat} {s : State} {rest : List Lexeme}, w.length < d →
      s.rest = w ++ closing :: rest →
      arguments (expressionAt d) c s = (.ok es, s.past w)) :
    Entered c .atom (l :: opening :: (w ++ [closing]))
      (.call part es (spanOver (spanOver part.span [l]) [closing])) := by
  intro d s rest hd hs _
  have hs₀ : s.rest = l :: opening :: (w ++ closing :: rest) := by rw [hs]; simp
  have hs₁ : (s.past [l, opening]).rest = w ++ closing :: rest :=
    past_rest (w := [l, opening]) hs₀
  have hlength : w.length < d := by
    simp only [List.length_append, List.length_cons] at hd
    omega
  rw [atom_apply_name hs hpart]
  refine call_apply hs₀ hpart hopening hclosing ?_
  rw [hargs hlength hs₁, past_past]

/-- A closing parenthesis ends the arguments before there is one. -/
theorem arguments_none (hclosing : closing.token.kind = .rightParen) {d : Nat} {s : State}
    {rest : List Lexeme} (hs : s.rest = [] ++ closing :: rest) :
    arguments (expressionAt d) c s = (.ok [], s.past []) :=
  arguments_apply_nil (by rw [kindAt_eq, hs]; exact hclosing)

/-- Arguments are read one by one. -/
theorem arguments_items (hitems : SepBy .comma item w es)
    (hderives : ∀ w e, item w e → Derives .disjunction w e)
    (hitem : ∀ w e, item w e → Enters c .disjunction w e)
    (hclosing : closing.token.kind = .rightParen) {d : Nat} {s : State} {rest : List Lexeme}
    (hd : w.length < d) (hs : s.rest = w ++ closing :: rest) :
    arguments (expressionAt d) c s = (.ok es, s.past w) := by
  -- No expression starts as the end of the arguments does, or as the star.
  have hstart := hitems.startsExpr hderives (closing :: rest)
  rw [← hs, ← kindAt_eq] at hstart
  exact arguments_apply (subReads_items hitems hitem (Nat.zero_le _) (Nat.zero_le _) hd) hs
    hclosing (fun heq => by rw [heq] at hstart; cases hstart)
    (fun heq => by rw [heq] at hstart; cases hstart)

/-- An atom between two lexemes is what is read behind the first of them. -/
theorem entered_enclosed (inside : (Nat → Parse Expr) → Span → Parse Expr)
    (hopens : ∀ {d : Nat} {s : State} {rest : List Lexeme}, s.rest = opening :: rest →
      atom (expressionAt d) c s =
        inside (expressionAt d) opening.token.span c (s.past [opening]))
    (hinside : ∀ {d : Nat} {s : State} {rest : List Lexeme}, w.length < d →
      s.rest = w ++ closing :: rest →
      inside (expressionAt d) opening.token.span c s = (.ok e, s.past (w ++ [closing]))) :
    Entered c .atom (opening :: (w ++ [closing])) e := by
  intro d s rest hd hs _
  have hs₁ : (s.past [opening]).rest = w ++ closing :: rest := past_rest (by rw [hs]; simp)
  have hlength : w.length < d := by
    simp only [List.length_append, List.length_cons] at hd
    omega
  rw [hopens hs, hinside hlength hs₁, past_past]
  rfl

/-- The items of a list between brackets. -/
theorem bracketed_items (hitems : SepBy .comma item w es)
    (hderives : ∀ w e, item w e → Derives .disjunction w e)
    (hitem : ∀ w e, item w e → Enters c .disjunction w e)
    (hclosing : closing.token.kind = .closeBracket) (place : Span) {d : Nat} {s : State}
    {rest : List Lexeme} (hd : w.length < d) (hs : s.rest = w ++ closing :: rest) :
    bracketed (expressionAt d) place c s =
      (.ok (.list es .bracket (spanOver place [closing])), s.past (w ++ [closing])) := by
  have hstart := hitems.startsExpr hderives (closing :: rest)
  rw [← hs, ← kindAt_eq] at hstart
  exact bracketed_apply (subReads_items hitems hitem (Nat.zero_le _) (Nat.zero_le _) hd) hs
    hclosing (fun heq => by rw [heq] at hstart; cases hstart) place

end

/-- Every derivation is read as its tree. The induction is on the derivation, with one lemma for
each production. -/
theorem entered_of_derives {level : Level} {w : List Lexeme} {e : Expr} (h : Derives level w e) :
    Entered c level w e := by
  induction h with
  | up hnext h ih => exact entered_up hnext h ih
  | chain hop hchain hnext _ _ left right => exact entered_chain hop hchain hnext left right
  | compare hop hcompare _ _ left right => exact enters_compare hop hcompare left right
  | not hl _ ih => exact enters_not hl ih
  | sign hop _ ih => exact enters_sign hop ih
  | inList _ hn hl hopening hitems _ hclosing ih ihitem =>
      exact enters_inList ih hn hl hopening hitems ihitem hclosing
  | like _ hn hl hpattern ih => exact enters_like ih hn hl hpattern
  | isNull _ hl hn hnull ih => exact enters_isNull ih hl hn hnull
  | «match» _ hl hquery ih => exact enters_match ih hl hquery
  | cast _ hl hid ih => exact entered_cast ih hl hid
  -- What an atom's first lexeme settles needs no induction.
  | nullWord hl => exact fun d s rest _ hs _ => atom_apply_literal hs (by simp [hl])
  | trueWord hl => exact fun d s rest _ hs _ => atom_apply_literal hs (by simp [hl])
  | falseWord hl => exact fun d s rest _ hs _ => atom_apply_literal hs (by simp [hl])
  | string hl => exact fun d s rest _ hs _ => atom_apply_literal hs (by simp [hl])
  | decimal hl => exact fun d s rest _ hs _ => atom_apply_literal hs (by simp [hl])
  | integer hl hfits => exact entered_integer hl (if_pos hfits)
  | wideInteger hl hwide => exact entered_integer hl (if_neg (Nat.not_lt.mpr hwide))
  | quantity hl hfits hunit => exact entered_quantity hl hfits hunit
  | parameter h => exact entered_parameter h
  | field h hname => exact entered_field h hname
  -- What is in brackets is read one level deeper, by the hypotheses on its items.
  | call h hopening hclosing =>
      exact entered_call h hopening hclosing fun _ hs => arguments_none hclosing hs
  | callStar h hopening hstar hclosing =>
      exact entered_call (w := [_]) h hopening hclosing fun _ hs => arguments_apply_star hs hstar
  | callWith h hopening hitems hderives hclosing ih =>
      exact entered_call h hopening hclosing
        fun hd hs => arguments_items hitems hderives ih hclosing hd hs
  | paren hopening _ hclosing ih =>
      exact entered_enclosed parenthesized (fun hs => atom_apply_paren hs hopening) fun hd hs =>
        parenthesized_apply (Enters.subReads ih (Nat.zero_le _) (Nat.zero_le _) hd) hs hclosing _
  | parenList hopening hitems _ hclosing ih =>
      exact entered_enclosed parenthesized (fun hs => atom_apply_paren hs hopening) fun hd hs =>
        parenthesized_apply_list
          (subReads_items hitems ih (Nat.zero_le _) (Nat.zero_le _) hd) hs hclosing _
  | emptyList hopening hclosing =>
      exact entered_enclosed (w := []) bracketed (fun hs => atom_apply_bracket hs hopening)
        fun _ hs => bracketed_apply_nil hs hclosing _
  | bracketList hopening hitems hderives hclosing ih =>
      exact entered_enclosed bracketed (fun hs => atom_apply_bracket hs hopening)
        fun hd hs => bracketed_items hitems hderives ih hclosing _ hd hs

/-- Lexemes that are derivable are read up to the last, within a limit above their number. -/
theorem expressionAt_of_derives {maxDepth : Nat} (hdepth : s.rest.length < maxDepth) {e : Expr}
    (h : Derives .disjunction s.rest e) :
    ∃ s', expressionAt maxDepth 0 c s = (.ok e, s') ∧ s'.rest = [] := by
  have henters : Enters c .disjunction s.rest e := entered_of_derives h
  have hs : s.rest = s.rest ++ [] := (List.append_nil _).symm
  refine ⟨s.past s.rest, ?_, past_rest hs⟩
  exact henters.subReads (Nat.zero_le _) (Nat.zero_le _) hdepth hs (closed_of_endsExpr rfl 0)

/-- The parser reads some lexemes, up to the end of the text, as an expression exactly if they are
derivable, and what it returns is the tree of the derivation. Nesting is no deeper than the lexemes
are many, so a limit above their number is never reached. -/
theorem expression_iff_derives (hend : c.endToken.kind = .eof) {maxDepth : Nat}
    (hdepth : s.rest.length < maxDepth) (e : Expr) :
    (∃ s', expressionAt maxDepth 0 c s = (.ok e, s') ∧ s'.rest = []) ↔
      Derives .disjunction s.rest e := by
  constructor
  · rintro ⟨s', h, hrest⟩
    obtain ⟨w, hmoves, hderives⟩ :=
      (expressionAt_readsAll hend maxDepth (Nat.zero_le _) h).derives .disjunction (Nat.le_refl 1)
    rwa [hmoves.rest_eq, hrest, List.append_nil]
  · exact expressionAt_of_derives hdepth

/-- In `1+2*3` the product is read first. -/
theorem expression_one_plus_two_times_three :
    let lexeme := fun (kind : Token.Kind) (text : String) (start : Nat) =>
      (⟨⟨kind, text, ⟨start, start + 1⟩, 1, start + 1, .default⟩, false⟩ : Lexeme)
    let integer := fun (text : String) (value start : Nat) =>
      Expr.literal (.integer text value) ⟨start, start + 1⟩
    let context : Context := ⟨"1+2*3".toList, ⟨.eof, "", ⟨5, 5⟩, 1, 6, .default⟩, []⟩
    ∃ s', expressionAt 6 0 context (.initial [lexeme .integer "1" 0, lexeme .plus "+" 1,
        lexeme .integer "2" 2, lexeme .asterisk "*" 3, lexeme .integer "3" 4]) =
      (.ok (.binary (integer "1" 1 0) .add
        (.binary (integer "2" 2 2) .multiply (integer "3" 3 4) ⟨2, 5⟩) ⟨0, 5⟩), s') ∧
      s'.rest = [] := by
  intro lexeme integer context
  refine (expression_iff_derives rfl (by decide) _).mpr ?_
  have hinteger : ∀ text start, Text.decimalValue text.toList < 2 ^ 64 →
      Derives .atom [lexeme .integer text start]
        (integer text (Text.decimalValue text.toList) start) :=
    fun text start hfits => .integer rfl hfits
  have hproduct := @Derives.chain .multiply .sign (lexeme .asterisk "*" 3) _ _ _ _ rfl rfl rfl
    ((hinteger "2" 2 (by decide)).widen (by decide))
    ((hinteger "3" 4 (by decide)).widen (by decide))
  have hsum := @Derives.chain .add .product (lexeme .plus "+" 1) _ _ _ _ rfl rfl rfl
    ((hinteger "1" 0 (by decide)).widen (by decide)) hproduct
  exact hsum.widen (by decide)

end PipeQuery.Parser
