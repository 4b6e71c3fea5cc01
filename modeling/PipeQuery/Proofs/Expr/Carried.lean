import PipeQuery.Parser.Expr
import PipeQuery.Proofs.Parser.Carried

/-!
# `PipeQuery.Proofs.Expr.Carried`: expressions at two places

Each step of `PipeQuery.Parser.Expr` carries states of a parser over a text to those over a longer
one, and the expression read there is the same one, further on. An operator, a predicate and a sign
begin with a lexeme of the text, so the end of the text and a pipe end an expression alike.
`expressionAt_carries` goes by the levels of nesting that are left.
-/

set_option autoImplicit false

namespace PipeQuery.Parser.Embedding

open Diagnostic (Cause)

variable {e : Embedding} {c c' : Context} {n m : Nat} {s s' : State}

/-- Expressions of every power carry. -/
def CarriesAll (e : Embedding) (c c' : Context) (sub : Nat → Parse Expr) : Prop :=
  ∀ power, e.Carries c c' (Image (Expr.mapSpans (.shift e.offset))) (sub power)

/-! ### Literals -/

section

variable {k : Nat} {t t' : Token}

/-- A literal made on a moved token is the literal, shifted. -/
theorem literalOf_moved (h : t.Moved k t') (literal : Literal) :
    literalOf literal t' = (literalOf literal t).mapSpans (.shift k) := by
  rw [literalOf, literalOf, Expr.mapSpans, h.span_eq]

/-- A string made on a moved token is the string, shifted. -/
theorem stringOf_moved (h : t.Moved k t') : stringOf t' = (stringOf t).mapSpans (.shift k) := by
  rw [stringOf, stringOf, h.text_eq, literalOf_moved h]

/-- A decimal made on a moved token is the decimal, shifted. -/
theorem decimalOf_moved (h : t.Moved k t') : decimalOf t' = (decimalOf t).mapSpans (.shift k) := by
  rw [decimalOf, decimalOf, h.text_eq, literalOf_moved h]

/-- A moved token has the same text, and so the same value. -/
theorem integerValue_moved (h : t.Moved k t') : integerValue t' = integerValue t := by
  rw [integerValue, integerValue, h.text_eq]

end

/-- An integer is carried over, with the unit behind it if there is one. -/
theorem States.integerLiteral (hs : e.States n s s') {t t' : Token} (ht : t.Moved e.offset t') :
    e.Agrees n (Image (Expr.mapSpans (.shift e.offset))) (integerLiteral t c s)
      (integerLiteral t' c' s') := by
  rw [Parser.integerLiteral, Parser.integerLiteral, integerValue_moved ht, ht.text_eq]
  refine hs.onCheck (by decide) ?_ ?_
  · rintro m l l' rfl hfront -
    simp only [if_true]
    refine (hfront.advance ?_).weaken
    cases integerValue t with
    | some value =>
        refine hfront.past.pure ?_
        rw [hfront.moved.text_eq, hfront.moved.span_eq, ht.span_eq, Image, Expr.mapSpans,
          Span.shift_merge]
    | none => exact hfront.past.stopAt rfl ht.span_eq
  · simp only [Bool.false_eq_true, if_false]
    cases integerValue t with
    | some value => exact hs.pure (literalOf_moved ht _)
    | none => exact hs.pure (decimalOf_moved ht)

/-- A string literal is carried over. -/
theorem stringLiteral_carries (hc : e.Contexts c c') (what : String) :
    e.Carries c c' (Image (Expr.mapSpans (.shift e.offset))) (stringLiteral what) := by
  intro n s s' hs
  refine (hs.expect hc (by decide) what).bind ?_
  intro t t' s₁ s₁' ht hs₁
  exact hs₁.pure (stringOf_moved ht)

/-! ### Primary expressions -/

section

variable {sub : Nat → Parse Expr}

/-- A list of expressions is carried over. -/
theorem expressions_carries (hsub : e.CarriesAll c c' sub) :
    e.Carries c c' (Image (List.map (Expr.mapSpans (.shift e.offset)))) (expressions sub) :=
  (hsub 0).separated (by decide)

/-- The arguments of a call are carried over. -/
theorem arguments_carries (hsub : e.CarriesAll c c' sub) :
    e.Carries c c' (Image (List.map (Expr.mapSpans (.shift e.offset)))) (arguments sub) := by
  intro n s s' hs
  have hstar : ¬ AtEnd .asterisk := by decide
  refine hs.onCheck (by decide) (fun _ _ _ => hs.pure rfl) ?_
  simp only [Bool.false_eq_true, if_false]
  rw [bind_apply_of_ok (current_run c s), bind_apply_of_ok (current_run c' s')]
  rcases hs.eat_or c c' hstar with ⟨m, l, l', rfl, hfront, -, heat, heat'⟩ | ⟨-, heat, heat'⟩
  · rw [bind_apply_of_ok heat, bind_apply_of_ok heat', (hfront.current c c').1,
      (hfront.current c c').2,
      literalOf_moved hfront.moved]
    exact Agrees.weaken (hfront.past.pure rfl)
  · rw [bind_apply_of_ok heat, bind_apply_of_ok heat']
    exact expressions_carries hsub hs

/-- A name or a call is carried over. -/
theorem nameExpr_carries (hc : e.Contexts c c') (hsub : e.CarriesAll c c' sub) :
    e.Carries c c' (Image (Expr.mapSpans (.shift e.offset))) (nameExpr sub) := by
  intro n s s' hs
  refine (fieldName_carries hc hs).bind ?_
  rintro ⟨parts, span⟩ _ s₁ s₁' rfl hs₁
  -- Only a name of one part can be called.
  match parts with
  | [] => exact hs₁.pure rfl
  | _ :: _ :: _ => exact hs₁.pure rfl
  | [part] =>
      refine hs₁.onEat (by decide) ?_ ?_
      · rintro m s₂ s₂' - hs₂
        refine (arguments_carries hsub hs₂).bind ?_
        rintro args _ s₃ s₃' rfl hs₃
        refine (hs₃.expect hc (by decide) _).bind fun _ hs₄ => ?_
        refine (hs₄.spanFrom rfl).bind ?_
        rintro span' _ s₅ s₅' rfl hs₅
        refine hs₅.pure ?_
        rw [Image, Expr.mapSpans, Expr.mapSpansAll_eq_map]
      · cases part with
        | identifier | parameter => exact hs₁.pure rfl

/-- What begins with `(` is carried over, as expression or as list. -/
theorem States.parenthesized (hc : e.Contexts c c') (hsub : e.CarriesAll c c' sub)
    (hs : e.States n s s') {opening opening' : Span}
    (hopening : opening' = opening.shift e.offset) :
    e.Agrees n (Image (Expr.mapSpans (.shift e.offset))) (Parser.parenthesized sub opening c s)
      (Parser.parenthesized sub opening' c' s') := by
  refine (hsub 0 hs).bind ?_
  rintro first _ s₁ s₁' rfl hs₁
  refine (hs₁.check (by decide)).bind ?_
  rintro more _ s₂ s₂' rfl hs₂
  split
  · refine ((hsub 0).others (by decide) hs₂).bind ?_
    rintro rest _ s₃ s₃' rfl hs₃
    refine (hs₃.expect hc (by decide) _).bind fun _ hs₄ => ?_
    refine (hs₄.spanFrom hopening).bind ?_
    rintro span _ s₅ s₅' rfl hs₅
    refine hs₅.pure ?_
    rw [Image, Expr.mapSpans, Expr.mapSpansAll_eq_map, List.map_cons]
  · exact (hs₂.expect hc (by decide) _).bind fun _ hs₃ => hs₃.pure rfl

/-- What begins with `[` is carried over. -/
theorem States.bracketed (hc : e.Contexts c c') (hsub : e.CarriesAll c c' sub)
    (hs : e.States n s s') {opening opening' : Span}
    (hopening : opening' = opening.shift e.offset) :
    e.Agrees n (Image (Expr.mapSpans (.shift e.offset))) (Parser.bracketed sub opening c s)
      (Parser.bracketed sub opening' c' s') := by
  -- With items or without, the closing bracket and the span are read the same.
  have hbehind : ∀ {items : List Expr} {s₁ s₁'}, e.States n s₁ s₁' →
      e.Agrees n (Image (Expr.mapSpans (.shift e.offset)))
        ((do
          let _ ← Parser.expect .closeBracket "']'"
          return Expr.list items .bracket (← Parser.spanFrom opening)) c s₁)
        ((do
          let _ ← Parser.expect .closeBracket "']'"
          return Expr.list (items.map (Expr.mapSpans (.shift e.offset))) .bracket
            (← Parser.spanFrom opening')) c' s₁') := by
    intro items s₁ s₁' hs₁
    refine (hs₁.expect hc (by decide) _).bind fun _ hs₂ => ?_
    refine (hs₂.spanFrom hopening).bind ?_
    rintro span _ s₃ s₃' rfl hs₃
    refine hs₃.pure ?_
    rw [Image, Expr.mapSpans, Expr.mapSpansAll_eq_map]
  refine (hs.check (by decide)).bind ?_
  rintro none _ s₁ s₁' rfl hs₁
  split
  · exact (hs₁.pure (R := Image (List.map (Expr.mapSpans (.shift e.offset)))) rfl).bind <| by
      rintro items _ s₂ s₂' rfl hs₂
      exact hbehind hs₂
  · refine (expressions_carries hsub hs₁).bind ?_
    rintro items _ s₂ s₂' rfl hs₂
    exact hbehind hs₂

/-- An atom is carried over. -/
theorem atom_carries (hc : e.Contexts c c') (hsub : e.CarriesAll c c' sub) :
    e.Carries c c' (Image (Expr.mapSpans (.shift e.offset))) (atom sub) := by
  intro n s s' hs
  refine hs.onCurrent hc (q := unexpected "an expression") ?_ (hs.unexpected hc _) ?_
  · rintro t (h | h) <;> simp only [h]
  rintro m l l' rfl hfront
  rw [hfront.moved.kind_eq]
  -- Most kinds are taken; a name is read as a whole and all else is no operand.
  cases l.token.kind with
  | integer => exact hfront.skip (hfront.past.integerLiteral hfront.moved)
  | decimal => exact hfront.skip (hfront.past.pure (decimalOf_moved hfront.moved))
  | quotedString => exact hfront.skip (hfront.past.pure (stringOf_moved hfront.moved))
  | keyword word =>
      cases word with
      | null | «true» | «false» =>
          exact hfront.skip (hfront.past.pure (literalOf_moved hfront.moved _))
      | _ => exact hs.unexpected hc _
  | identifier | quotedIdentifier | anonymousParam | param => exact nameExpr_carries hc hsub hs
  | leftParen =>
      exact hfront.skip (hfront.past.parenthesized hc hsub hfront.moved.span_eq)
  | openBracket =>
      exact hfront.skip (hfront.past.bracketed hc hsub hfront.moved.span_eq)
  | _ => exact hs.unexpected hc _

/-- No cast follows where no `::` stands. -/
theorem casts_apply_nil {e : Expr} (fuel : Nat) (h : s.kindAt 0 ≠ .cast) :
    casts fuel e c s = (.ok e, s) := by
  cases fuel with
  | zero => rfl
  | succ fuel =>
      rw [casts, bind_apply_of_ok (eat_apply_of_ne h)]
      rfl

/-- Casts are carried over, as many in either parse. -/
theorem States.casts (hc : e.Contexts c c') (hs : e.States n s s') {fuel fuel' : Nat}
    (hfuel : n ≤ fuel) (hfuel' : n ≤ fuel') (operand : Expr) :
    e.Agrees n (Image (Expr.mapSpans (.shift e.offset))) (casts fuel operand c s)
      (casts fuel' (operand.mapSpans (.shift e.offset)) c' s') := by
  have hcast : ¬ AtEnd .cast := by decide
  induction hfuel, hfuel' using rounds generalizing s s' operand with
  | last fuel fuel' =>
      obtain ⟨hahead, hahead'⟩ := hs.kindAt_ne hcast
      rw [casts_apply_nil fuel hahead, casts_apply_nil fuel' hahead']
      exact ⟨.ok rfl, hs⟩
  | round m fuel fuel' _ _ ih =>
      rw [Parser.casts, Parser.casts]
      refine hs.onEat hcast ?_ (hs.pure rfl)
      rintro _ s₁ s₁' hm hs₁
      obtain rfl := Nat.succ.inj hm
      refine (identifier_carries hc _ hs₁).bind ?_
      rintro type _ s₂ s₂' rfl hs₂
      have h := ih hs₂ (.cast operand type (operand.span.merge type.span))
      rwa [Expr.mapSpans, Span.shift_merge, ← Expr.span_mapSpans (.shift e.offset)] at h

/-- A primary expression is carried over. -/
theorem primary_carries (hc : e.Contexts c c') (hsub : e.CarriesAll c c' sub) :
    e.Carries c c' (Image (Expr.mapSpans (.shift e.offset))) (primary sub) := by
  intro n s s' hs
  refine (atom_carries hc hsub hs).bind ?_
  rintro operand _ s₁ s₁' rfl hs₁
  exact hs₁.onRemaining fun hs hfuel hfuel' => hs.casts hc hfuel hfuel' operand

/-! ### Operations -/

/-- What stands in front of the first operator is carried over. -/
theorem leading_carries (hc : e.Contexts c c') (hsub : e.CarriesAll c c' sub) (minPower : Nat) :
    e.Carries c c' (Image (Prod.map (Expr.mapSpans (.shift e.offset)) id)) (leading sub minPower) := by
  intro n s s' hs
  have hprimary : e.Agrees n (Image (Prod.map (Expr.mapSpans (.shift e.offset)) id))
      ((do return (← primary sub, Operand.value)) c s)
      ((do return (← primary sub, Operand.value)) c' s') := by
    refine (primary_carries hc hsub hs).bind ?_
    rintro operand _ s₁ s₁' rfl hs₁
    exact hs₁.pure rfl
  -- An operator in front of an operand of some power.
  have hunary : ∀ {m l l'} (op : UnaryOp) (operand : Operand) (power : Nat),
      e.Front m s s' l l' → e.Agrees (m + 1) (Image (Prod.map (Expr.mapSpans (.shift e.offset)) id))
        ((do
          let _ ← advance
          let operated ← sub power
          return (Expr.unary op operated (l.token.span.merge operated.span), operand)) c s)
        ((do
          let _ ← advance
          let operated ← sub power
          return (Expr.unary op operated (l'.token.span.merge operated.span), operand)) c' s') := by
    intro m l l' op operand power hfront
    refine hfront.skip ((hsub power hfront.past).bind ?_)
    rintro operated _ s₁ s₁' rfl hs₁
    refine hs₁.pure ?_
    rw [hfront.moved.span_eq, Image, Prod.map_apply, Expr.mapSpans, Expr.span_mapSpans,
      Span.shift_merge]
    rfl
  refine hs.onCurrent hc ?_ hprimary ?_
  · rintro t (h | h) <;> simp only [h]
  rintro m l l' rfl hfront
  rw [hfront.moved.kind_eq]
  cases l.token.kind with
  | keyword word =>
      cases word with
      | not =>
          dsimp only
          split
          · exact hs.unexpected hc _
          · exact hunary _ _ _ hfront
      | _ => exact hprimary
  | minus | plus => exact hunary _ _ _ hfront
  | _ => exact hprimary

/-- What follows the token that decides on a predicate. -/
def predicateBehind (sub : Nat → Parse Expr) (operand : Expr) (negated : Bool) (token : Token) :
    Parse Expr :=
  match token.kind with
  | .keyword .«in» => do
    let _ ← expect .leftParen "'('"
    let items ← separated .comma (sub comparisonPower)
    let _ ← expect .rightParen "')'"
    return .inList operand items negated (← spanFrom operand.span)
  | .keyword .like => do
    let pattern ← stringLiteral "a pattern string"
    return .like operand pattern .like negated (operand.span.merge pattern.span)
  | .keyword .rlike => do
    let pattern ← stringLiteral "a pattern string"
    return .like operand pattern .rlike negated (operand.span.merge pattern.span)
  | .keyword .is => do
    let notNull ← eat (.keyword .not)
    let null ← expect (.keyword .null) "NULL"
    return .isNull operand notNull (operand.span.merge null.span)
  | .command .«match» => do
    let query ← stringLiteral "a query string"
    return .«match» operand query (operand.span.merge query.span)
  | _ => do .stop (← located (.strayPredicate token.text) token.span)

/-- A predicate may have a `NOT` in front, and then is told by its token. -/
theorem predicate_eq (operand : Expr) :
    predicate sub operand = (do
      let negated ← eat (.keyword .not)
      let token ← advance
      predicateBehind sub operand negated token) := rfl

/-- What stands behind a `NOT` of a predicate is carried over, whichever predicate it is. -/
theorem States.predicateBehind (hc : e.Contexts c c') (hsub : e.CarriesAll c c' sub)
    (hs : e.States n s s') (operand : Expr) (negated : Bool) {t t' : Token}
    (ht : t.Moved e.offset t') :
    e.Agrees n (Image (Expr.mapSpans (.shift e.offset))) (predicateBehind sub operand negated t c s)
      (predicateBehind sub (operand.mapSpans (.shift e.offset)) negated t' c' s') := by
  -- A comparison with a string makes a tree over the operand and the string.
  have hstring : ∀ {what : String} (make : Expr → Expr → Span → Expr),
      (∀ e₁ e₂ span, (make e₁ e₂ span).mapSpans (.shift e.offset) =
        make (e₁.mapSpans (.shift e.offset)) (e₂.mapSpans (.shift e.offset)) (span.shift e.offset)) →
      e.Agrees n (Image (Expr.mapSpans (.shift e.offset)))
        ((do
          let pattern ← stringLiteral what
          return make operand pattern (operand.span.merge pattern.span)) c s)
        ((do
          let pattern ← stringLiteral what
          return make (operand.mapSpans (.shift e.offset)) pattern
            ((operand.mapSpans (.shift e.offset)).span.merge pattern.span)) c' s') := by
    intro what make hmake
    refine (stringLiteral_carries hc what hs).bind ?_
    rintro pattern _ s₁ s₁' rfl hs₁
    refine hs₁.pure ?_
    rw [Image, hmake, Expr.span_mapSpans, Expr.span_mapSpans, Span.shift_merge]
  rw [Embedding.predicateBehind, Embedding.predicateBehind, ht.kind_eq]
  cases t.kind with
  | keyword word =>
      cases word with
      | «in» =>
          refine (hs.expect hc (by decide) _).bind fun _ hs₁ => ?_
          refine ((hsub comparisonPower).separated (by decide) hs₁).bind ?_
          rintro items _ s₂ s₂' rfl hs₂
          refine (hs₂.expect hc (by decide) _).bind fun _ hs₃ => ?_
          refine (hs₃.spanFrom (Expr.span_mapSpans _ operand)).bind ?_
          rintro span _ s₄ s₄' rfl hs₄
          refine hs₄.pure ?_
          rw [Image, Expr.mapSpans, Expr.mapSpansAll_eq_map]
      | like => exact hstring (.like · · .like negated ·) fun _ _ _ => by rw [Expr.mapSpans]
      | rlike => exact hstring (.like · · .rlike negated ·) fun _ _ _ => by rw [Expr.mapSpans]
      | is =>
          refine (hs.eat (by decide)).bind ?_
          rintro notNull _ s₁ s₁' rfl hs₁
          refine (hs₁.expect hc (by decide) _).bind ?_
          intro null null' s₂ s₂' hnull hs₂
          refine hs₂.pure ?_
          rw [Image, Expr.mapSpans, Expr.span_mapSpans, hnull.span_eq, Span.shift_merge]
      | _ => exact hs.stopAt rfl ht.span_eq
  | command verb =>
      cases verb with
      | «match» => exact hstring .«match» fun _ _ _ => by rw [Expr.mapSpans]
      | _ => exact hs.stopAt rfl ht.span_eq
  | _ => exact hs.stopAt rfl ht.span_eq

/-- Behind a kind that may begin a predicate, the end of the text and a pipe are the same. -/
theorem beginsPredicate_eq {first second second' : Token.Kind}
    (h : second' = second ∨ AtEnd second ∧ AtEnd second') :
    beginsPredicate first second' = beginsPredicate first second := by
  rcases h with rfl | ⟨rfl | rfl, rfl | rfl⟩ <;> rfl

/-- At the end no predicate begins. -/
theorem not_beginsPredicate_of_atEnd {first : Token.Kind} (h : AtEnd first) (second : Token.Kind) :
    beginsPredicate first second = false := by
  rcases h with rfl | rfl <;> rfl

/-- A predicate has its deciding token in the text, behind a `NOT` as well. -/
theorem States.predicate (hc : e.Contexts c c') (hsub : e.CarriesAll c c' sub)
    (hs : e.States (m + 1) s s') (hbegins : beginsPredicate (s.kindAt 0) (s.kindAt 1) = true)
    (operand : Expr) :
    e.Agrees m (Image (Expr.mapSpans (.shift e.offset))) (predicate sub operand c s)
      (predicate sub (operand.mapSpans (.shift e.offset)) c' s') := by
  have hnot : ¬ AtEnd (.keyword .not) := by decide
  rw [predicate_eq, predicate_eq]
  -- Behind a `NOT` it is the second lexeme that decides; the text does not end in front of it.
  rcases hs.eat_or c c' hnot with ⟨_, l, l', hm, hfront, hahead, heat, heat'⟩ | ⟨-, heat, heat'⟩
  · obtain rfl := Nat.succ.inj hm
    rw [bind_apply_of_ok heat, bind_apply_of_ok heat']
    have hsecond : ¬ AtEnd (s.kindAt 1) := by
      rw [hahead] at hbegins
      rintro (h | h) <;> rw [h] at hbegins <;> cases hbegins
    obtain ⟨m, l₂, l₂', rfl, hfront₂⟩ := hfront.second hsecond
    exact Agrees.weaken
      (hfront₂.advance (hfront₂.past.predicateBehind hc hsub operand true hfront₂.moved))
  · rw [bind_apply_of_ok heat, bind_apply_of_ok heat']
    rcases hs.front_or_end with ⟨_, l, l', hm, hfront, -⟩ | ⟨hrest, -⟩
    · obtain rfl := Nat.succ.inj hm
      exact hfront.advance (hfront.past.predicateBehind hc hsub operand false hfront.moved)
    · rw [kindAt_eq, hrest, kindIn_nil, not_beginsPredicate_of_atEnd (.inl rfl)] at hbegins
      cases hbegins

/-- An operator where none may stand is refused in both parses. -/
theorem States.misplaced {α : Type} {R : α → α → Prop} (hc : e.Contexts c c')
    (hs : e.States n s s') (operand : Operand) :
    e.Agrees n R (misplaced operand c s) (misplaced operand c' s') :=
  ⟨.error (hs.onToken hc rfl), hs⟩

/-- No operator binds the end of the text or a pipe. -/
theorem operators_apply_end {minPower : Nat} {operand : Expr} {left : Operand} (fuel : Nat)
    (h : AtEnd (s.kindAt 0)) : operators sub minPower fuel operand left c s = (.ok operand, s) := by
  cases fuel with
  | zero => rfl
  | succ fuel =>
      rw [operators, peek, peekSecond, bind_look, bind_look, not_beginsPredicate_of_atEnd h]
      rcases h with h | h <;> rw [h] <;> rfl

/-- The loop over operators is carried over, round by round. -/
theorem States.operators (hc : e.Contexts c c') (hsub : e.CarriesAll c c' sub)
    (hs : e.States n s s') {fuel fuel' : Nat} (hfuel : n ≤ fuel) (hfuel' : n ≤ fuel')
    (minPower : Nat) (operand : Expr) (left : Operand) :
    e.Agrees n (Image (Expr.mapSpans (.shift e.offset)))
      (operators sub minPower fuel operand left c s)
      (operators sub minPower fuel' (operand.mapSpans (.shift e.offset)) left c' s') := by
  induction hfuel, hfuel' using rounds generalizing s s' operand left with
  | last fuel fuel' =>
      obtain ⟨hend, hend'⟩ := hs.kindAt_end hs.rest_eq_nil
      rw [operators_apply_end fuel (.inl hend), operators_apply_end fuel' hend']
      exact ⟨.ok rfl, hs⟩
  | round m fuel fuel' _ _ ih =>
      rcases hs.front_or_end with ⟨_, l, l', hm, hfront, -⟩ | ⟨hrest, -⟩
      · obtain rfl := Nat.succ.inj hm
        rw [Parser.operators, Parser.operators, peek, peekSecond, bind_look, bind_look, bind_look,
          bind_look, beginsPredicate_eq hfront.kindAt_one, hfront.kindAt_zero.1,
          hfront.kindAt_zero.2]
        split
        case isTrue hbegins =>
          -- A predicate makes a condition, which the next round goes on from.
          rw [← hfront.kindAt_zero.1] at hbegins
          split
          · exact hs.pure rfl
          · split
            · exact hs.misplaced hc left
            · refine Agrees.weaken ((hs.predicate hc hsub hbegins operand).bind ?_)
              rintro condition _ s₁ s₁' rfl hs₁
              exact ih hs₁ condition .condition
        case isFalse =>
          cases binaryOp? l.token.kind with
          | none => exact hs.pure rfl
          | some op =>
              -- A stronger power on the left ends the loop; else the right operand is read.
              dsimp only
              split
              · exact hs.pure rfl
              · split
                · refine hfront.skip ((hsub _ hfront.past).bind ?_)
                  rintro right _ s₁ s₁' rfl hs₁
                  have h := ih hs₁ (.binary operand op right (operand.span.merge right.span))
                    (.ofBinary op)
                  rwa [Expr.mapSpans, Span.shift_merge, ← Expr.span_mapSpans (.shift e.offset),
                    ← Expr.span_mapSpans (.shift e.offset)] at h
                · exact hs.misplaced hc left
      · obtain ⟨hend, hend'⟩ := hs.kindAt_end hrest
        rw [operators_apply_end _ (.inl hend), operators_apply_end _ hend']
        exact ⟨.ok rfl, hs⟩

/-- An operation is carried over. -/
theorem operation_carries (hc : e.Contexts c c') (hsub : e.CarriesAll c c' sub) (minPower : Nat) :
    e.Carries c c' (Image (Expr.mapSpans (.shift e.offset))) (operation sub minPower) := by
  intro n s s' hs
  refine (leading_carries hc hsub minPower hs).bind ?_
  rintro ⟨operand, left⟩ _ s₁ s₁' rfl hs₁
  exact hs₁.onRemaining fun hs hfuel hfuel' =>
    hs.operators hc hsub hfuel hfuel' minPower operand left

/-- Expressions carry, with any number of levels of nesting left. -/
theorem expressionAt_carries (hc : e.Contexts c c') (headroom : Nat) :
    e.CarriesAll c c' (expressionAt headroom) := by
  induction headroom with
  | zero => exact fun _ _ _ _ hs => hs.tooDeep hc
  | succ headroom ih => exact fun power => (operation_carries hc ih power).deeper

/-! ### Constants -/

/-- A constant is carried over. -/
theorem constant_carries (hc : e.Contexts c c') (hsub : e.CarriesAll c c' sub) :
    e.Carries c c' (Image (Expr.mapSpans (.shift e.offset))) (constant sub) := by
  intro n s s' hs
  rw [constant, peek, peekSecond, bind_look, bind_look, bind_look, bind_look]
  -- A sign counts in front of a number only, and no number is behind the last lexeme.
  rcases hs.front_or_end with ⟨m, l, l', rfl, hfront, -⟩ | ⟨hrest, -⟩
  · have hnumber : isNumber (s'.kindAt 1) = isNumber (s.kindAt 1) := by
      rcases hfront.kindAt_one with heq | ⟨h | h, h' | h'⟩
      · rw [heq]
      all_goals simp only [h, h', isNumber]
    rw [hfront.kindAt_zero.1, hfront.kindAt_zero.2, hnumber]
    split
    · refine (leading_carries hc hsub signPower hs).bind ?_
      rintro ⟨operand, left⟩ _ s₁ s₁' rfl hs₁
      exact hs₁.pure rfl
    · split
      · exact primary_carries hc hsub hs
      · exact hs.unexpected hc _
  · obtain ⟨hend, hend'⟩ := hs.kindAt_end hrest
    rw [hend]
    rcases hend' with hend' | hend' <;> rw [hend'] <;> exact hs.unexpected hc _

end

end PipeQuery.Parser.Embedding
