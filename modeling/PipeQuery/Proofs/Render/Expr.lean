import PipeQuery.Proofs.Expr.Complete
import PipeQuery.Proofs.Expr.Sound
import PipeQuery.Proofs.Render.Name

/-!
# `PipeQuery.Proofs.Render.Expr`: expressions are read back

The text of an expression is read as lexemes that derive the same tree, at the level of its
outermost operation (`Expr.level`) and, between parentheses, at every level. `Derives.prints` proves
it along the derivation that the expression comes from, which gives the texts of its constants.
`expression_render` puts lexer and parser together.

Items of an `IN` list are rendered without parentheses but read as comparisons, so the expression
must have no condition there (`Expr.plainItems`).
-/

set_option autoImplicit false

namespace PipeQuery

open PipeQuery.Parser PipeQuery.Token
open Token.Shape (startsWith IsWord)

namespace Expr

/-- The expression is a condition by its form: a predicate, or a combination of conditions. -/
def isCondition : Expr → Bool
  | .inList .. | .like .. | .isNull .. | .«match» .. | .unary .not _ _ => true
  | .binary _ op _ _ => op.isLogical
  | _ => false

mutual

/-- No item of an `IN` list in the expression is a condition. -/
def plainItems : Expr → Bool
  | .literal .. | .field .. | .parameter .. => true
  | .call _ args _ => allPlainItems args
  | .binary left _ right _ => plainItems left && plainItems right
  | .unary _ e _ | .cast e _ _ | .isNull e _ _ => plainItems e
  | .list items _ _ => allPlainItems items
  | .inList e items _ _ =>
    plainItems e && items.all (fun item => !item.isCondition) && allPlainItems items
  | .like e pattern _ _ _ => plainItems e && plainItems pattern
  | .«match» e query _ => plainItems e && plainItems query

/-- All items of the list are free of conditions in `IN` lists. -/
def allPlainItems : List Expr → Bool
  | [] => true
  | e :: es => plainItems e && allPlainItems es

end

/-- A list of expressions is free of them just if each of its expressions is. -/
theorem allPlainItems_iff {es : List Expr} :
    allPlainItems es = true ↔ ∀ e ∈ es, e.plainItems = true := by
  induction es with
  | nil => simp [allPlainItems]
  | cons e es ih => simp [allPlainItems, ih]

/-- The level at which the text of the expression is derivable. -/
def level : Expr → Level
  | .binary _ op _ _ => .ofOp op
  | .unary .not _ _ => .negation
  | .unary _ _ _ => .sign
  | .inList .. | .like .. | .isNull .. | .«match» .. => .predicate
  | _ => .primary

/-- An expression that is written without parentheses in an operand is a primary one. -/
theorem level_of_not_isCompound {e : Expr} (h : e.isCompound = false) : e.level = .primary := by
  cases e <;> first | rfl | cases h

/-- Every expression is at least a disjunction, the lowest of the levels. -/
theorem disjunction_le_level (e : Expr) : Level.disjunction.power ≤ e.level.power := by
  cases e.level <;> decide

/-- What is no condition may be an operand of a predicate. -/
theorem comparison_le_level {e : Expr} (h : e.isCondition = false) :
    Level.comparison.power ≤ e.level.power := by
  cases e with
  | binary _ op _ => cases op <;> simp_all [level, isCondition, BinaryOp.isLogical, Level.ofOp,
      Level.power]
  | unary op _ => cases op <;> simp_all [level, isCondition, Level.power]
  | inList | like | isNull | «match» => cases h
  | _ => exact Nat.le_of_lt (by simp [level, Level.power])

end Expr

/-! ### The words and signs of expressions -/

/-- The characters that may carry on the last token of an expression. -/
def carriesOperand (c : Char) : Bool :=
  carriesName c || Shape.carriesNumber c || c = '\x22'

variable {preview : Bool}

/-- A token of an expression that is no bracket, and what carries it on. -/
theorem Token.Forms.prints {kind : Kind} {cs : List Char} (h : Forms preview .expression kind cs)
    (hkind : kind.shifts = false) :
    Prints preview .expression id cs (continues .expression kind) (IsToken kind cs) :=
  .piece h (Mode.behind_eq rfl hkind)

/-- An operator is written as the text that the lexer of expressions finds it by. -/
theorem prints_operator {kind : Kind} {cs : List Char}
    (h : Step.operator? cs = some (kind, cs.length)) (hkind : kind.shifts = false) :
    Prints preview .expression id cs (continues .expression kind) (IsKind kind) :=
  ((Forms.operator h).prints hkind).imp fun _ => IsToken.isKind

/-- What carries on a word carries on an operand, so a word may stand at the end of one. -/
theorem carriesOperand_of_word {c : Char} (h : carries .expression c = true) :
    carriesOperand c = true := by
  simp only [carries, Bool.or_eq_true] at h
  simp only [carriesOperand, carriesName, Bool.or_eq_true]
  exact .inl (.inl (.inl h))

/-- A keyword or an identifier is written as the word it is. -/
theorem prints_word {word : String} {kind : Kind} (hkind : kind.isWord = true)
    (hdot : kind ≠ .dot)
    (hword : Shape.identifier word.toList = word.toList.length) (hne : word.toList ≠ [])
    (h : wordKind preview .expression word = kind) :
    Prints preview .expression id word.toList carriesOperand (IsKind kind) := by
  have hforms : Forms preview .expression kind word.toList := h ▸ forms_word hword hne
  have hshifts : kind.shifts = false := by
    rw [← h]
    exact wordKind_shifts _ _ _
  refine ((hforms.prints hshifts).mono fun c hc => ?_).imp fun _ => IsToken.isKind
  rw [continues_of_isWord hkind hdot] at hc
  exact carriesOperand_of_word hc

/-- The keywords of expressions are read back. -/
theorem prints_keyword {keyword : Keyword} (h : keyword ∈ Keyword.inExpressions) :
    Prints preview .expression id keyword.text.toList carriesOperand (IsKind (.keyword keyword)) := by
  have hofWord : Keyword.ofWord? keyword.text = some keyword := by
    revert keyword
    decide
  refine prints_word rfl (by simp) ?_ ?_ ?_
  · revert keyword
    decide
  · revert keyword
    decide
  · simp [wordKind, hofWord]

/-- Operators stand between blanks, so it does not matter what carries them on. -/
theorem prints_binaryOp (op : BinaryOp) :
    ∃ kind more, binaryOp? kind = some op ∧ more ' ' = false ∧
      Prints preview .expression id op.text.toList more (IsKind kind) := by
  cases op with
  | and => exact ⟨_, _, rfl, rfl, @prints_keyword _ .and (by decide)⟩
  | or => exact ⟨_, _, rfl, rfl, @prints_keyword _ .or (by decide)⟩
  | add => exact ⟨.plus, _, rfl, rfl, prints_operator rfl rfl⟩
  | subtract => exact ⟨.minus, _, rfl, rfl, prints_operator rfl rfl⟩
  | multiply => exact ⟨.asterisk, _, rfl, rfl, prints_operator rfl rfl⟩
  | divide => exact ⟨.slash, _, rfl, rfl, prints_operator rfl rfl⟩
  | modulo => exact ⟨.percent, _, rfl, rfl, prints_operator rfl rfl⟩
  | eq => exact ⟨.eq, _, rfl, rfl, prints_operator rfl rfl⟩
  | insensitiveEq => exact ⟨.ciEq, _, rfl, rfl, prints_operator rfl rfl⟩
  | ne => exact ⟨.ne, _, rfl, rfl, prints_operator rfl rfl⟩
  | lt => exact ⟨.lt, _, rfl, rfl, prints_operator rfl rfl⟩
  | le => exact ⟨.le, _, rfl, rfl, prints_operator rfl rfl⟩
  | gt => exact ⟨.gt, _, rfl, rfl, prints_operator rfl rfl⟩
  | ge => exact ⟨.ge, _, rfl, rfl, prints_operator rfl rfl⟩

/-- An opening parenthesis may stand before anything. -/
theorem prints_leftParen :
    Prints preview .expression id ['('] (fun _ => false) (IsKind .leftParen) :=
  (prints_operator rfl rfl).mono fun c hc => by cases hc

/-- So may a closing one. -/
theorem prints_rightParen :
    Prints preview .expression id [')'] (fun _ => false) (IsKind .rightParen) :=
  (prints_operator rfl rfl).mono fun c hc => by cases hc

/-- So may a comma with a blank behind it. -/
theorem prints_comma :
    Prints preview .expression id ", ".toList (fun _ => false) (IsKind .comma) := by
  have hcomma : Prints preview .expression id [','] (fun _ => false) (IsKind .comma) :=
    (prints_operator rfl rfl).mono fun c hc => by cases hc
  refine (hcomma.append .blank (fun rest _ => ?_) fun _ h => h).imp ?_
  · cases rest <;> rfl
  · rintro w ⟨w₁, w₂, rfl, hw₁, rfl⟩
    rwa [List.append_nil]

section

variable {cs : List Char} {R : List Lexeme → Prop}

/-- What is read without parentheses is read between them. -/
theorem Token.Prints.inParens (h : Prints preview .expression id cs carriesOperand R) :
    Prints preview .expression id ('(' :: (cs ++ [')'])) carriesOperand
      (Followed (IsKind .leftParen) (Followed R (IsKind .rightParen))) :=
  (prints_leftParen.append (h.append prints_rightParen (fun _ _ => rfl) fun _ h => h)
    (fun rest _ => by cases (cs ++ [')']) ++ rest <;> rfl) fun _ h => h).mono
    fun c hc => by cases hc

/-- What is read without brackets is read between them. -/
theorem Token.Prints.inBrackets (h : Prints preview .expression id cs carriesOperand R) :
    Prints preview .expression id ('[' :: (cs ++ [']'])) carriesOperand
      (Followed (IsKind .openBracket) (Followed R (IsKind .closeBracket))) :=
  (h.bracketed rfl rfl rfl rfl).mono fun c hc => by cases hc

end

namespace Expr

/-- The text of the expression is read as one with the same core. -/
def Prints (preview : Bool) (e : Expr) : Prop :=
  Token.Prints preview .expression id e.render.toList carriesOperand
    (Rewrites (Derives e.level) core e)

/-- The text of the expression as an operand is read as one with the same core. -/
def PrintsOperand (preview : Bool) (e : Expr) : Prop :=
  Token.Prints preview .expression id e.renderOperand.toList carriesOperand
    (Rewrites (Derives .primary) core e)

/-- Parentheses make an operand of any expression. -/
theorem Prints.operand {e : Expr} (h : e.Prints preview) : e.PrintsOperand preview := by
  by_cases hcompound : e.isCompound = true
  · have htext : e.renderOperand.toList = '(' :: (e.render.toList ++ [')']) := by
      rw [renderOperand, Expr.operand, if_pos hcompound]
      simp
    rw [PrintsOperand, htext]
    refine (Token.Prints.inParens h).imp ?_
    rintro w ⟨_, _, rfl, ⟨l, rfl, hl⟩, w', _, rfl, ⟨e', he', hcore⟩, l', rfl, hl'⟩
    exact ⟨e', .up rfl (.paren hl (he'.widen e.disjunction_le_level) hl'), hcore⟩
  · have hcompound : e.isCompound = false := by simpa using hcompound
    rw [PrintsOperand, renderOperand, Expr.operand, if_neg (by simp [hcompound])]
    rw [Prints, level_of_not_isCompound hcompound] at h
    exact h

/-! ### Operations -/

/-- A binary expression is written as left operand, operator and right operand. -/
theorem prints_binary {left right : Expr} {op : BinaryOp} (hleft : left.PrintsOperand preview)
    (hright : right.PrintsOperand preview) (span : Span) :
    (binary left op right span).Prints preview := by
  obtain ⟨kind, more, hkind, hblank, hop⟩ := @prints_binaryOp preview op
  have htext : (binary left op right span).render.toList =
      left.renderOperand.toList ++ ' ' :: (op.text.toList ++ ' ' :: right.renderOperand.toList) := by
    simp [render, renderOperand]
  rw [Prints, htext]
  refine (Token.Prints.spaced hleft (hop.spaced hright hblank fun _ h => h) rfl fun _ h => h).imp ?_
  rintro w ⟨w₁, _, rfl, ⟨left', hleft', hcore⟩, _, w₂, rfl, ⟨l, rfl, hl⟩, right', hright', hcore'⟩
  have hop : binaryOp? l.token.kind = some op := hl ▸ hkind
  refine ⟨.binary left' op right' (left'.span.merge right'.span), ?_, by
    rw [core, core, hcore, hcore']⟩
  show Derives (.ofOp op) (w₁ ++ l :: w₂) _
  by_cases hcompare : op.isComparison = true
  · -- Comparisons do not chain, so they have a rule of their own.
    have hlevel : Level.ofOp op = .comparison := by cases op <;> first | rfl | cases hcompare
    rw [hlevel]
    exact .compare hop hcompare (hleft'.widen (by decide)) (hright'.widen (by decide))
  · have hchain : op.isComparison = false := by simpa using hcompare
    obtain ⟨next, hnext, hle⟩ : ∃ next, (Level.ofOp op).next? = some next ∧
        next.power ≤ Level.primary.power := by
      cases op <;> exact ⟨_, rfl, by decide⟩
    refine .chain hop hchain hnext (hleft'.widen ?_) (hright'.widen hle)
    cases op <;> decide

/-- A unary expression is written as operator and operand, with a blank behind `NOT`. -/
theorem prints_unary {op : UnaryOp} {e : Expr} (h : e.PrintsOperand preview) (span : Span) :
    (unary op e span).Prints preview := by
  -- The two signs differ in their character only.
  have hsign : ∀ {op : UnaryOp} (kind : Kind) {cs : List Char},
      Token.Step.operator? cs = some (kind, cs.length) → kind.shifts = false →
      (∀ c, continues .expression kind c = false) → signOp? kind = some op →
      (unary op e span).level = .sign →
      (unary op e span).render.toList = cs ++ e.renderOperand.toList →
      (unary op e span).Prints preview := by
    intro op kind cs hcs hkind hends hop hlevel htext
    rw [Prints, htext, hlevel]
    refine ((prints_operator hcs hkind).append h (fun rest _ => ?_) fun _ h => h).imp ?_
    · cases e.renderOperand.toList ++ rest <;> first | rfl | exact hends _
    · rintro w ⟨_, w', rfl, ⟨l, rfl, hl⟩, e', he', hcore⟩
      refine ⟨.unary op e' _, .sign (by rw [hl]; exact hop) (he'.widen (by decide)), ?_⟩
      rw [core, core, hcore]
  cases op with
  | not =>
      have htext : (unary .not e span).render.toList =
          Keyword.not.text.toList ++ ' ' :: e.renderOperand.toList := by
        simp [render, renderOperand, UnaryOp.text, Keyword.text]
      rw [Prints, htext]
      refine ((@prints_keyword preview .not (by decide)).spaced h rfl fun _ h => h).imp ?_
      rintro w ⟨_, w', rfl, ⟨l, rfl, hl⟩, e', he', hcore⟩
      exact ⟨_, .not hl (he'.widen (by decide)), by rw [core, core, hcore]⟩
  | negate =>
      have htext : (unary .negate e span).render.toList = ['-'] ++ e.renderOperand.toList := by
        simp [render, renderOperand, UnaryOp.text]
      exact hsign .minus rfl rfl (fun _ => rfl) rfl rfl htext
  | plus =>
      have htext : (unary .plus e span).render.toList = ['+'] ++ e.renderOperand.toList := by
        simp [render, renderOperand, UnaryOp.text]
      exact hsign .plus rfl rfl (fun _ => rfl) rfl rfl htext

/-- A cast is written as operand, `::` and the name of the type. -/
theorem prints_cast {e : Expr} (h : e.PrintsOperand preview) (type : Identifier) (span : Span) :
    (cast e type span).Prints preview := by
  have htext : (cast e type span).render.toList =
      e.renderOperand.toList ++ ([':', ':'] ++ type.render.toList) := by
    simp [render, renderOperand]
  have htype := (type.prints (readsNames_expression preview)).mono fun c hc =>
    show carriesOperand c = true by simp [carriesOperand, hc]
  have hcast : Token.Prints preview .expression id [':', ':'] (continues .expression .cast)
      (IsKind .cast) := prints_operator rfl rfl
  rw [Prints, htext]
  refine (Token.Prints.append h (hcast.append htype (fun rest _ => ?_) fun _ h => h)
    (fun _ _ => rfl) fun _ h => h).imp ?_
  · cases type.render.toList ++ rest <;> rfl
  · rintro w ⟨w', _, rfl, ⟨e', he', hcore⟩, _, _, rfl, ⟨l, rfl, hl⟩, type', ⟨l', rfl, htype'⟩,
      hcore'⟩
    exact ⟨_, .cast he' hl htype', by rw [core, core, hcore, hcore']⟩

/-! ### Predicates -/

/-- A `NOT` in front of a predicate is written as a word of its own, or not at all. -/
theorem prints_negation (negated : Bool) {cs : List Char} {more : Char → Bool}
    {R : List Lexeme → Prop} (h : Token.Prints preview .expression id cs more R) :
    Token.Prints preview .expression id ((if negated then "NOT ".toList else []) ++ cs) more
      (Followed (fun w => IsNegation w negated) R) := by
  cases negated with
  | false => exact h.imp fun w hw => ⟨[], w, rfl, .absent, hw⟩
  | true =>
      refine ((@prints_keyword preview .not (by decide)).spaced h rfl fun _ h => h).imp ?_
      rintro w ⟨_, w', rfl, ⟨l, rfl, hl⟩, hw'⟩
      exact ⟨_, w', rfl, .present hl, hw'⟩

/-- A string is written as the literal it was read from. -/
theorem prints_string {raw : String} (h : Text.Quoted.IsLiteral raw.toList) :
    Token.Prints preview .expression id raw.toList carriesOperand
      (fun w => ∃ l, w = [l] ∧ l.token.kind = .quotedString ∧ l.token.text = raw) := by
  have hforms : Forms preview .expression .quotedString raw.toList := .string rfl h
  refine ((hforms.prints rfl).mono fun c hc => ?_).imp ?_
  · simp only [continues, decide_eq_true_eq] at hc
    simp [carriesOperand, hc]
  · rintro w ⟨l, rfl, hl, htext⟩
    exact ⟨l, rfl, hl, by rw [htext, String.ofList_toList]⟩

/-- Expressions with commas between are written as a list of them, each at its level or above. -/
theorem prints_items {es : List Expr} (hne : es ≠ []) (hitems : ∀ e ∈ es, e.Prints preview)
    {level : Level} (hlevel : ∀ e ∈ es, level.power ≤ e.level.power) :
    Token.Prints preview .expression id (Text.joined ", " (renderAll es)).toList carriesOperand
      (Rewrites (SepBy .comma (Derives level)) (List.map core) es) := by
  rw [renderAll_eq_map]
  refine prints_comma.separated (fun _ => rfl) hne (fun e he => ?_) fun e _ rest => ?_
  · refine (hitems e he).imp ?_
    rintro w ⟨e', he', hcore⟩
    exact ⟨e', he'.widen (hlevel e he), hcore⟩
  · cases e.render.toList ++ rest <;> rfl

/-- An `IN` is written as its operand and its list, and no item of the list is a condition. -/
theorem prints_inList {e : Expr} (h : e.PrintsOperand preview) {es : List Expr} (hne : es ≠ [])
    (hitems : ∀ e ∈ es, e.Prints preview) (hplain : ∀ e ∈ es, e.isCondition = false)
    (negated : Bool) (span : Span) : (inList e es negated span).Prints preview := by
  have htext : (inList e es negated span).render.toList =
      e.renderOperand.toList ++ ' ' :: ((if negated then "NOT ".toList else []) ++
        (Keyword.«in».text.toList ++ ' ' ::
          ('(' :: ((Text.joined ", " (renderAll es)).toList ++ [')'])))) := by
    cases negated <;> simp [render, renderOperand, Keyword.text]
  have hlist := prints_items hne hitems fun e he => comparison_le_level (hplain e he)
  have hin := (@prints_keyword preview .«in» (by decide)).spaced hlist.inParens rfl fun _ h => h
  rw [Prints, htext]
  refine (Token.Prints.spaced h (prints_negation negated hin) rfl fun _ h => h).imp ?_
  rintro w ⟨w₁, _, rfl, ⟨e', he', hcore⟩, n, _, rfl, hn, _, _, rfl, ⟨l, rfl, hl⟩, _, _, rfl,
    ⟨opening, rfl, hopening⟩, w₂, _, rfl, ⟨es', hes', hcores⟩, closing, rfl, hclosing⟩
  refine ⟨_, .inList (he'.widen (by decide)) hn hl hopening hes' (fun _ _ h => h) hclosing, ?_⟩
  rw [core, core, hcore, coreAll_eq_map, coreAll_eq_map, hcores]

/-- A `LIKE` or `RLIKE` is written as its operand and its pattern. -/
theorem prints_like {e : Expr} (h : e.PrintsOperand preview) {raw value : String}
    (hraw : Text.Quoted.IsLiteral raw.toList) (hvalue : Text.Quoted.decode raw = value)
    (op : LikeOp) (negated : Bool) (place span : Span) :
    (like e (.literal (.string raw value) place) op negated span).Prints preview := by
  have htext : (like e (.literal (.string raw value) place) op negated span).render.toList =
      e.renderOperand.toList ++ ' ' :: ((if negated then "NOT ".toList else []) ++
        ((likeKeyword op).text.toList ++ ' ' :: raw.toList)) := by
    cases negated <;> cases op <;>
      simp [render, renderOperand, Literal.render, LikeOp.text, likeKeyword, Keyword.text]
  have hlike := (@prints_keyword preview (likeKeyword op) (by cases op <;> decide)).spaced
    (prints_string hraw) rfl fun _ h => h
  rw [Prints, htext]
  refine (Token.Prints.spaced h (prints_negation negated hlike) rfl fun _ h => h).imp ?_
  rintro w ⟨w₁, _, rfl, ⟨e', he', hcore⟩, n, _, rfl, hn, _, _, rfl, ⟨l, rfl, hl⟩, pattern, rfl,
    hpattern, hpatternText⟩
  refine ⟨_, .like (he'.widen (by decide)) hn hl hpattern, ?_⟩
  rw [core, core, hcore, stringOf, hpatternText, hvalue]
  rfl

/-- An `IS NULL` is written as its operand and the two keywords, with the `NOT` between. -/
theorem prints_isNull {e : Expr} (h : e.PrintsOperand preview) (negated : Bool) (span : Span) :
    (isNull e negated span).Prints preview := by
  have htext : (isNull e negated span).render.toList =
      e.renderOperand.toList ++ ' ' :: (Keyword.is.text.toList ++ ' ' ::
        ((if negated then "NOT ".toList else []) ++ Keyword.null.text.toList)) := by
    cases negated <;> simp [render, renderOperand, Keyword.text]
  have hnull := (@prints_keyword preview .is (by decide)).spaced
    (prints_negation negated (@prints_keyword preview .null (by decide))) rfl fun _ h => h
  rw [Prints, htext]
  refine (Token.Prints.spaced h hnull rfl fun _ h => h).imp ?_
  rintro w ⟨w₁, _, rfl, ⟨e', he', hcore⟩, _, _, rfl, ⟨l, rfl, hl⟩, n, _, rfl, hn, null, rfl, hnull⟩
  exact ⟨_, .isNull (he'.widen (by decide)) hl hn hnull, by rw [core, core, hcore]⟩

/-- A `MATCH` is written as its operand and its text, and read again behind the gate only. -/
theorem prints_match (hpreview : preview = true) {e : Expr} (h : e.PrintsOperand preview)
    {raw value : String} (hraw : Text.Quoted.IsLiteral raw.toList)
    (hvalue : Text.Quoted.decode raw = value) (place span : Span) :
    («match» e (.literal (.string raw value) place) span).Prints preview := by
  have htext : («match» e (.literal (.string raw value) place) span).render.toList =
      e.renderOperand.toList ++ ' ' :: (Verb.«match».text.toList ++ ' ' :: raw.toList) := by
    simp [render, renderOperand, Literal.render, Verb.text]
  have hword : Token.Prints preview .expression id Verb.«match».text.toList carriesOperand
      (IsKind (.command .«match»)) := by
    subst hpreview
    exact prints_word rfl (by simp) (by decide) (by decide) (by decide)
  rw [Prints, htext]
  refine (Token.Prints.spaced h (hword.spaced (prints_string hraw) rfl fun _ h => h) rfl
    fun _ h => h).imp ?_
  rintro w ⟨w₁, _, rfl, ⟨e', he', hcore⟩, _, _, rfl, ⟨l, rfl, hl⟩, query, rfl, hquery, hqueryText⟩
  refine ⟨_, .«match» (he'.widen (by decide)) hl hquery, ?_⟩
  rw [core, core, hcore, stringOf, hqueryText, hvalue]
  rfl

/-! ### Constants -/

/-- A literal that is a word is written as that word. -/
theorem prints_word_literal {word : String} {keyword : Keyword} {l : Literal} (place : Span)
    (hrender : l.render = word) (hword : Shape.identifier word.toList = word.toList.length)
    (hne : word.toList ≠ []) (hkeyword : Keyword.ofWord? word = some keyword)
    (hderives : ∀ {lexeme : Lexeme}, lexeme.token.kind = .keyword keyword →
      Derives .atom [lexeme] (literalOf l lexeme.token)) :
    (literal l place).Prints preview := by
  have hkind : wordKind preview .expression word = .keyword keyword := by
    simp [wordKind, hkeyword]
  rw [Prints, render, hrender]
  refine (prints_word rfl (by simp) hword hne hkind).imp ?_
  rintro w ⟨lexeme, rfl, hlexeme⟩
  exact ⟨_, .up rfl (hderives hlexeme), rfl⟩

/-- A number is written as the digits it was read from. -/
theorem prints_number {kind : Kind} {raw : String}
    (h : Forms preview .expression kind raw.toList) (hkind : kind = .integer ∨ kind = .decimal) :
    Token.Prints preview .expression id raw.toList carriesOperand
      (fun w => ∃ l, w = [l] ∧ l.token.kind = kind ∧ l.token.text = raw) := by
  have hshifts : kind.shifts = false := by rcases hkind with rfl | rfl <;> rfl
  refine ((h.prints hshifts).mono fun c hc => ?_).imp ?_
  · have hnumber : Shape.carriesNumber c = true := by rcases hkind with rfl | rfl <;> exact hc
    simp [carriesOperand, hnumber]
  · rintro w ⟨l, rfl, hl, htext⟩
    exact ⟨l, rfl, hl, by rw [htext, String.ofList_toList]⟩

/-- An integer is written as its digits, and it is read as an integer again since it fits. -/
theorem prints_integer {raw : String} (h : Forms preview .expression .integer raw.toList)
    (hfits : Text.decimalValue raw.toList < 2 ^ 64) (place : Span) :
    (literal (.integer raw (Text.decimalValue raw.toList)) place).Prints preview := by
  refine (prints_number h (.inl rfl)).imp ?_
  rintro w ⟨l, rfl, hl, rfl⟩
  exact ⟨_, .up rfl (.integer hl hfits), rfl⟩

/-- A decimal is read back from a decimal token, or from an integer that does not fit. -/
theorem prints_decimal {kind : Kind} {raw : String}
    (h : Forms preview .expression kind raw.toList)
    (hkind : kind = .decimal ∨ kind = .integer ∧ 2 ^ 64 ≤ Text.decimalValue raw.toList)
    (place : Span) : (literal (.decimal raw (.ofLiteral raw)) place).Prints preview := by
  refine (prints_number h (hkind.symm.imp_left And.left)).imp ?_
  rintro w ⟨l, rfl, hl, rfl⟩
  rcases hkind with rfl | ⟨rfl, hwide⟩
  · exact ⟨_, .up rfl (.decimal hl), rfl⟩
  · exact ⟨_, .up rfl (.wideInteger hl hwide), rfl⟩

/-- A quantity is written as number, blank and unit. -/
theorem prints_quantity {raw unit : String} (h : Forms preview .expression .integer raw.toList)
    (hfits : Text.decimalValue raw.toList < 2 ^ 64)
    (hunit : Forms preview .expression .identifier unit.toList) (place : Span) :
    (literal (.quantity raw (Text.decimalValue raw.toList) unit) place).Prints preview := by
  have htext : (literal (.quantity raw (Text.decimalValue raw.toList) unit) place).render.toList =
      raw.toList ++ ' ' :: unit.toList := by
    simp [render, Literal.render]
  have hword : Token.Prints preview .expression id unit.toList carriesOperand
      (IsToken .identifier unit.toList) := by
    refine (hunit.prints rfl).mono fun c hc => ?_
    rw [continues_of_isWord rfl (by simp)] at hc
    exact carriesOperand_of_word hc
  rw [Prints, htext]
  refine ((prints_number h (.inl rfl)).spaced hword rfl fun _ h => h).imp ?_
  rintro w ⟨_, _, rfl, ⟨l, rfl, hl, rfl⟩, l', rfl, hl', htext'⟩
  rw [String.ofList_toList] at htext'
  subst htext'
  exact ⟨_, .up rfl (.quantity hl hfits hl'), rfl⟩

/-- A string literal is written as the text between its quotes, quotes included. -/
theorem prints_literal_string {raw : String} (h : Text.Quoted.IsLiteral raw.toList)
    (place : Span) :
    (literal (.string raw (Text.Quoted.decode raw)) place).Prints preview := by
  refine (prints_string h).imp ?_
  rintro w ⟨l, rfl, hl, rfl⟩
  exact ⟨_, .up rfl (.string hl), rfl⟩

/-! ### Names, calls and lists -/

/-- A parameter is written as the token it was read from. -/
theorem prints_parameter {l : Lexeme} {param : Parameter} (h : IsParameter l param) {mode : Mode}
    (hl : Forms preview mode l.token.kind l.token.text.toList) (place : Span) :
    (parameter param place).Prints preview := by
  refine ((Parameter.prints rfl rfl h hl).mono fun c hc => ?_).imp ?_
  · simp [carriesOperand, carriesName, hc]
  · rintro w ⟨l', rfl, hparam⟩
    exact ⟨_, .up rfl (.parameter hparam), rfl⟩

/-- A name is written part by part, and a lone parameter is no name. -/
theorem prints_field {w : List Lexeme} {name : FieldName} (h : IsFieldName w name)
    (hname : ∀ param span, name.parts ≠ [.parameter param span]) {m : ModeStack}
    (hw : Lexed preview m w) (place : Span) : (field name place).Prints preview := by
  refine ((FieldName.prints (readsNames_expression preview) h hw).mono fun c hc => ?_).imp ?_
  · simp [carriesOperand, hc]
  · rintro w ⟨name', hname', hcore⟩
    refine ⟨_, .up rfl (.field hname' fun param span hparts => ?_), by rw [core, core, hcore]⟩
    -- Names with the same core have parameters at the same places.
    have hcores : [NamePart.parameter param (.point 0)] = name.parts.map NamePart.core := by
      have := congrArg FieldName.parts hcore
      rwa [FieldName.core, FieldName.core, hparts] at this
    obtain ⟨part, hpart, hparam⟩ := List.map_eq_singleton_iff.mp hcores.symm
    cases part with
    | identifier => cases hparam
    | parameter param' span' => exact hname param' span' hpart

/-- A call is written as name, `(`, arguments and `)`, whatever the arguments are. -/
theorem prints_call {part : NamePart}
    (hpart : Token.Prints preview .expression id part.render.toList carriesName
      (Rewrites IsNamePart NamePart.core part)) {args : List Expr} {R : List Lexeme → Prop}
    (hargs : Token.Prints preview .expression id
      (Text.joined ", " (renderAll args)).toList carriesOperand R)
    (hderives : ∀ {l opening closing : Lexeme} {w : List Lexeme} {part' : NamePart},
      IsNamePart [l] part' → opening.token.kind = .leftParen → R w →
      closing.token.kind = .rightParen → ∃ args' span,
        Derives .atom (l :: opening :: (w ++ [closing])) (.call part' args' span) ∧
          args'.map core = args.map core)
    (span : Span) : (call part args span).Prints preview := by
  have htext : (call part args span).render.toList = part.render.toList ++
      '(' :: ((Text.joined ", " (renderAll args)).toList ++ [')']) := by
    simp [render]
  have hname := hpart.mono fun c hc => show carriesOperand c = true by simp [carriesOperand, hc]
  rw [Prints, htext]
  refine (hname.append hargs.inParens (fun _ _ => rfl) fun _ h => h).imp ?_
  rintro w ⟨w₁, _, rfl, ⟨part', hpart', hcore⟩, _, _, rfl, ⟨opening, rfl, hopening⟩, w₂, _, rfl,
    hw₂, closing, rfl, hclosing⟩
  -- The name of a function is a single lexeme, a parameter included.
  obtain ⟨l, rfl⟩ : ∃ l, w₁ = [l] := by cases hpart' <;> exact ⟨_, rfl⟩
  obtain ⟨args', span', hderives, hcores⟩ := hderives hpart' hopening hw₂ hclosing
  refine ⟨_, .up rfl hderives, ?_⟩
  rw [core, core, hcore, coreAll_eq_map, coreAll_eq_map, hcores]

/-- A list in brackets is written as `[`, items and `]`, whatever the items are. -/
theorem prints_bracketList {items : List Expr} {R : List Lexeme → Prop}
    (hitems : Token.Prints preview .expression id
      (Text.joined ", " (renderAll items)).toList carriesOperand R)
    (hderives : ∀ {opening closing : Lexeme} {w : List Lexeme},
      opening.token.kind = .openBracket → R w → closing.token.kind = .closeBracket →
      ∃ items' span, Derives .atom (opening :: (w ++ [closing])) (.list items' .bracket span) ∧
        items'.map core = items.map core)
    (span : Span) : (list items .bracket span).Prints preview := by
  have htext : (list items .bracket span).render.toList =
      '[' :: ((Text.joined ", " (renderAll items)).toList ++ [']']) := by
    simp [render]
  rw [Prints, htext]
  refine hitems.inBrackets.imp ?_
  rintro w ⟨_, _, rfl, ⟨opening, rfl, hopening⟩, w', _, rfl, hw', closing, rfl, hclosing⟩
  obtain ⟨items', span', hderives, hcores⟩ := hderives hopening hw' hclosing
  refine ⟨_, .up rfl hderives, ?_⟩
  rw [core, core, coreAll_eq_map, coreAll_eq_map, hcores]

/-- A list in parentheses has two items or more, so it is not read as an expression in parentheses.
-/
theorem prints_parenList {e e' : Expr} {es : List Expr}
    (hitems : ∀ item ∈ e :: e' :: es, item.Prints preview) (span : Span) :
    (list (e :: e' :: es) .paren span).Prints preview := by
  have htext : (list (e :: e' :: es) .paren span).render.toList =
      '(' :: ((Text.joined ", " (renderAll (e :: e' :: es))).toList ++ [')']) := by
    simp [render]
  have hall := prints_items (List.cons_ne_nil _ _) hitems fun item _ => disjunction_le_level item
  rw [Prints, htext]
  refine hall.inParens.imp ?_
  rintro w ⟨_, _, rfl, ⟨opening, rfl, hopening⟩, w', _, rfl, ⟨items, hitems, hcores⟩, closing, rfl,
    hclosing⟩
  -- As many items are read as were written, which is two at least.
  rcases items with _ | ⟨item, _ | ⟨item', items⟩⟩
  · simp at hcores
  · simp at hcores
  · refine ⟨_, .up rfl (.parenList hopening hitems (fun _ _ h => h) hclosing), ?_⟩
    rw [core, core, coreAll_eq_map, coreAll_eq_map, hcores]

end Expr

/-! ### One lemma for each production -/

/-- Lexemes of a text that are read as the expression have it rendered so that it is read back. This
is what an induction on derivations proves; the lexemes give the texts of the constants. -/
def Expr.PrintsFrom (preview : Bool) (w : List Lexeme) (e : Expr) : Prop :=
  ∀ {m : ModeStack}, Lexed preview m w → e.plainItems = true → e.Prints preview

section

variable {l opening closing : Lexeme} {w n w' : List Lexeme} {e e' : Expr} {es : List Expr}
  {part : NamePart} {negated : Bool} {item : List Lexeme → Expr → Prop} {m : ModeStack} {span : Span}

/-- Each item of a list is read back, if whatever is an item is. -/
theorem prints_of_mem_items (hitems : SepBy .comma item w es) (hw : Lexed preview m w)
    (hplain : Expr.allPlainItems es = true)
    (hitem : ∀ w e, item w e → e.PrintsFrom preview w) : ∀ e ∈ es, e.Prints preview := by
  intro e he
  obtain ⟨m', w', hR, hw'⟩ := hitems.lexed_items (by simp) hw e he
  exact hitem w' e hR hw' (Expr.allPlainItems_iff.mp hplain e he)

/-- The items of a list are read back as a list. -/
theorem prints_all_items (hitems : SepBy .comma item w es) (hw : Lexed preview m w)
    (hplain : Expr.allPlainItems es = true)
    (hitem : ∀ w e, item w e → e.PrintsFrom preview w) :
    Token.Prints preview .expression id (Text.joined ", " (Expr.renderAll es)).toList
      carriesOperand (Rewrites (SepBy .comma (Derives .disjunction)) (List.map Expr.core) es) :=
  Expr.prints_items hitems.ne_nil (prints_of_mem_items hitems hw hplain hitem)
    fun e _ => Expr.disjunction_le_level e

/-- Two operands with an operator between them. -/
theorem printsFrom_binary {op : BinaryOp} (left : e.PrintsFrom preview w)
    (right : e'.PrintsFrom preview w') :
    (Expr.binary e op e' span).PrintsFrom preview (w ++ l :: w') := by
  intro m hw hplain
  obtain ⟨hleft, hright⟩ := Bool.and_eq_true_iff.mp hplain
  obtain ⟨m', hw'⟩ := hw.right
  obtain ⟨m'', hw''⟩ := hw'.tail
  exact Expr.prints_binary (left hw.left hleft).operand (right hw'' hright).operand _

/-- An operand behind its operator. -/
theorem printsFrom_unary {op : UnaryOp} (h : e.PrintsFrom preview w) :
    (Expr.unary op e span).PrintsFrom preview (l :: w) := by
  intro m hw hplain
  obtain ⟨m', hw'⟩ := hw.tail
  exact Expr.prints_unary (h hw' hplain).operand _

/-- An operand and a list, whose items are no conditions. -/
theorem printsFrom_inList (h : e.PrintsFrom preview w) (hitems : SepBy .comma item w' es)
    (hitem : ∀ w e, item w e → e.PrintsFrom preview w) :
    (Expr.inList e es negated span).PrintsFrom preview
      (w ++ (n ++ l :: opening :: (w' ++ [closing]))) := by
  intro m hw hplain
  simp only [Expr.plainItems, Bool.and_eq_true, List.all_eq_true, Bool.not_eq_true'] at hplain
  obtain ⟨⟨hplain, hconditions⟩, hplains⟩ := hplain
  obtain ⟨m₁, hw₁⟩ := hw.right
  obtain ⟨m₂, hw₂⟩ := hw₁.right
  obtain ⟨m₃, hw₃⟩ := hw₂.tail
  obtain ⟨m₄, hw₄⟩ := hw₃.tail
  exact Expr.prints_inList (h hw.left hplain).operand hitems.ne_nil
    (prints_of_mem_items hitems hw₄.left hplains hitem) hconditions _ _

/-- An operand and a pattern, which is a string of the text. -/
theorem printsFrom_like {op : LikeOp} {pattern : Lexeme} (h : e.PrintsFrom preview w)
    (hpattern : pattern.token.kind = .quotedString) :
    (Expr.like e (stringOf pattern.token) op negated span).PrintsFrom preview
      (w ++ (n ++ [l, pattern])) := by
  intro m hw hplain
  obtain ⟨hplain, -⟩ := Bool.and_eq_true_iff.mp hplain
  obtain ⟨m₁, hw₁⟩ := hw.right
  obtain ⟨m₂, hw₂⟩ := hw₁.right
  obtain ⟨m₃, hw₃⟩ := hw₂.tail
  have hforms := (hw₃.head_of_kind hpattern (by simp)).1
  exact Expr.prints_like (h hw.left hplain).operand hforms.isLiteral rfl _ _ _ _

/-- An operand and a query, behind a word that is known with previews only. -/
theorem printsFrom_match {query : Lexeme} (h : e.PrintsFrom preview w)
    (hl : l.token.kind = .command .«match») (hquery : query.token.kind = .quotedString) :
    (Expr.«match» e (stringOf query.token) span).PrintsFrom preview (w ++ [l, query]) := by
  intro m hw hplain
  obtain ⟨hplain, -⟩ := Bool.and_eq_true_iff.mp hplain
  obtain ⟨m₁, hw₁⟩ := hw.right
  obtain ⟨hforms, hw₂⟩ := hw₁.head_of_kind hl (by simp)
  have hforms' := (hw₂.head_of_kind hquery (by simp)).1
  exact Expr.prints_match (hforms.of_verb.1 rfl) (h hw.left hplain).operand
    hforms'.isLiteral rfl _ _

/-- A string is a literal of the text. -/
theorem printsFrom_string (hl : l.token.kind = .quotedString) :
    (stringOf l.token).PrintsFrom preview [l] := fun hw _ =>
  Expr.prints_literal_string (hw.head_of_kind hl (by simp)).1.isLiteral _

/-- A number is read in expressions only. -/
theorem forms_number {kind : Kind} (hw : Lexed preview m (l :: w)) (hl : l.token.kind = kind)
    (hkind : kind = .integer ∨ kind = .decimal) :
    m.current = .expression ∧ Forms preview .expression kind l.token.text.toList := by
  have hforms := (hw.head_of_kind hl (by rcases hkind with rfl | rfl <;> simp)).1
  have hmode := hforms.mode_eq_expression hkind
  exact ⟨hmode, hmode ▸ hforms⟩

/-- An integer and its unit. An integer leaves the modes as they are, so that its unit is a word of
expressions. -/
theorem printsFrom_quantity {unit : Lexeme} (hl : l.token.kind = .integer)
    (hfits : integerOf l.token < 2 ^ 64) (hunit : unit.token.kind = .identifier) :
    (Expr.literal (.quantity l.token.text (integerOf l.token) unit.token.text)
      span).PrintsFrom preview [l, unit] := by
  intro m hw _
  obtain ⟨hmode, hforms⟩ := forms_number hw hl (.inl rfl)
  have hw' := (hw.head_of_kind hl (by simp)).2
  rw [ModeStack.behind_of_isSteady (by rw [hmode]; rfl) rfl] at hw'
  have hforms' := (hw'.head_of_kind hunit (by simp)).1
  rw [hmode] at hforms'
  exact Expr.prints_quantity hforms hfits hforms' _

/-- A call without arguments. -/
theorem printsFrom_call (hpart : IsNamePart [l] part) :
    (Expr.call part [] span).PrintsFrom preview [l, opening, closing] := by
  intro m hw _
  have hname := NamePart.prints (readsNames_expression preview) hpart
    (show Lexed preview m ([l] ++ _) from hw).left
  have hargs : Token.Prints preview .expression id
      (Text.joined ", " (Expr.renderAll [])).toList carriesOperand (· = []) :=
    Prints.nil.mono fun c hc => by cases hc
  refine Expr.prints_call hname hargs (fun hpart hopening hnil hclosing => ?_) _
  subst hnil
  exact ⟨[], _, .call hpart hopening hclosing, rfl⟩

/-- A call whose argument is the star. -/
theorem printsFrom_callStar {star : Lexeme} (hpart : IsNamePart [l] part) :
    (Expr.call part [literalOf .star star.token] span).PrintsFrom preview
      [l, opening, star, closing] := by
  intro m hw _
  have hname := NamePart.prints (readsNames_expression preview) hpart
    (show Lexed preview m ([l] ++ _) from hw).left
  have hargs : Token.Prints preview .expression id
      (Text.joined ", " (Expr.renderAll [literalOf .star star.token])).toList carriesOperand
      (IsKind .asterisk) := by
    have hstar : Text.joined ", " (Expr.renderAll [literalOf .star star.token]) = "*" := by
      simp only [Expr.renderAll, Text.joined, literalOf, Expr.render, Literal.render]
    rw [hstar]
    exact (prints_operator rfl rfl).mono fun c hc => by cases hc
  refine Expr.prints_call hname hargs (fun hpart hopening hstar hclosing => ?_) _
  obtain ⟨star', rfl, hstar⟩ := hstar
  exact ⟨_, _, .callStar hpart hopening hstar hclosing, rfl⟩

/-- A call with its arguments. -/
theorem printsFrom_callWith (hpart : IsNamePart [l] part) (hitems : SepBy .comma item w es)
    (hitem : ∀ w e, item w e → e.PrintsFrom preview w) :
    (Expr.call part es span).PrintsFrom preview (l :: opening :: (w ++ [closing])) := by
  intro m hw hplain
  have hname := NamePart.prints (readsNames_expression preview) hpart
    (show Lexed preview m ([l] ++ _) from hw).left
  obtain ⟨m', hw'⟩ := hw.tail
  obtain ⟨m'', hw''⟩ := hw'.tail
  refine Expr.prints_call hname (prints_all_items hitems hw''.left hplain hitem)
    (fun hpart hopening hargs hclosing => ?_) _
  obtain ⟨args, hargs, hcores⟩ := hargs
  exact ⟨args, _, .callWith hpart hopening hargs (fun _ _ h => h) hclosing, hcores⟩

/-- Parentheses around an expression are left out, and put where they are needed. -/
theorem printsFrom_paren (h : e.PrintsFrom preview w) :
    e.PrintsFrom preview (opening :: (w ++ [closing])) := by
  intro m hw hplain
  obtain ⟨m', hw'⟩ := hw.tail
  exact h hw'.left hplain

/-- A list between parentheses. -/
theorem printsFrom_parenList (hitems : SepBy .comma item w (e :: e' :: es))
    (hitem : ∀ w e, item w e → e.PrintsFrom preview w) :
    (Expr.list (e :: e' :: es) .paren span).PrintsFrom preview (opening :: (w ++ [closing])) := by
  intro m hw hplain
  obtain ⟨m', hw'⟩ := hw.tail
  exact Expr.prints_parenList (prints_of_mem_items hitems hw'.left hplain hitem) _

/-- A list between brackets, without items. -/
theorem prints_emptyList : (Expr.list [] .bracket span).Prints preview := by
  have hitems : Token.Prints preview .expression id [] carriesOperand (· = []) :=
    Prints.nil.mono fun c hc => by cases hc
  refine Expr.prints_bracketList hitems (fun hopening hnil hclosing => ?_) _
  subst hnil
  exact ⟨[], _, .emptyList hopening hclosing, rfl⟩

/-- A list between brackets. -/
theorem printsFrom_bracketList (hitems : SepBy .comma item w es)
    (hitem : ∀ w e, item w e → e.PrintsFrom preview w) :
    (Expr.list es .bracket span).PrintsFrom preview (opening :: (w ++ [closing])) := by
  intro m hw hplain
  obtain ⟨m', hw'⟩ := hw.tail
  refine Expr.prints_bracketList (prints_all_items hitems hw'.left hplain hitem)
    (fun hopening hitems hclosing => ?_) _
  obtain ⟨items, hitems, hcores⟩ := hitems
  exact ⟨items, _, .bracketList hopening hitems (fun _ _ h => h) hclosing, hcores⟩

end

/-! ### All expressions -/

/-- An expression that is derived from lexemes of a text is rendered as a text that is read back.
The induction is on the derivation, with one lemma for each production. -/
theorem Parser.Derives.prints {level : Level} {w : List Lexeme} {e : Expr}
    (h : Derives level w e) : e.PrintsFrom preview w := by
  induction h with
  | up _ _ ih => exact ih
  | chain _ _ _ _ _ left right | compare _ _ _ _ left right =>
      exact printsFrom_binary left right
  | not _ _ ih | sign _ _ ih => exact printsFrom_unary ih
  | inList _ _ _ _ hitems _ _ ih ihitem => exact printsFrom_inList ih hitems ihitem
  | like _ _ _ hpattern ih => exact printsFrom_like ih hpattern
  | isNull _ _ _ _ ih =>
      exact fun hw hplain => Expr.prints_isNull (ih hw.left hplain).operand _ _
  | «match» _ hl hquery ih => exact printsFrom_match ih hl hquery
  | cast _ _ _ ih => exact fun hw hplain => Expr.prints_cast (ih hw.left hplain).operand _ _
  -- Leaves are printed as the words, numbers and names that they were read from.
  | nullWord =>
      exact fun _ _ =>
        Expr.prints_word_literal _ rfl (by decide) (by decide) (by decide) .nullWord
  | trueWord =>
      exact fun _ _ =>
        Expr.prints_word_literal _ rfl (by decide) (by decide) (by decide) .trueWord
  | falseWord =>
      exact fun _ _ =>
        Expr.prints_word_literal _ rfl (by decide) (by decide) (by decide) .falseWord
  | string hl => exact printsFrom_string hl
  | decimal hl =>
      exact fun hw _ => Expr.prints_decimal (forms_number hw hl (.inr rfl)).2 (.inl rfl) _
  | integer hl hfits =>
      exact fun hw _ => Expr.prints_integer (forms_number hw hl (.inl rfl)).2 hfits _
  | wideInteger hl hwide =>
      exact fun hw _ =>
        Expr.prints_decimal (forms_number hw hl (.inl rfl)).2 (.inr ⟨rfl, hwide⟩) _
  | quantity hl hfits hunit => exact printsFrom_quantity hl hfits hunit
  | parameter h =>
      exact fun hw _ => Expr.prints_parameter h (hw.head h.kind_ne_error).1 _
  | field h hname => exact fun hw _ => Expr.prints_field h hname hw _
  -- Brackets keep what is inside apart from what is around, so the items are taken as they are.
  | call h => exact printsFrom_call h
  | callStar h => exact printsFrom_callStar h
  | callWith h _ hitems _ _ ih => exact printsFrom_callWith h hitems ih
  | paren _ _ _ ih => exact printsFrom_paren ih
  | parenList _ hitems _ _ ih => exact printsFrom_parenList hitems ih
  | emptyList => exact fun _ _ => prints_emptyList
  | bracketList _ hitems _ _ ih => exact printsFrom_bracketList hitems ih

/-! ### Lexer and parser -/

/-- The lexing of a text that begins in a mode. -/
def Lexer.lexIn (preview : Bool) (mode : Mode) (text : String) : Lexing :=
  run ⟨preview, .ofText text, ModeStack.bottom.push mode⟩ [] []

/-- The steps of the parser that return an expression. -/
inductive Parser.ReadsTrees : Parse Expr → Prop where
  | expression (headroom : Nat) {p : Nat} (hp : p ≤ signPower) :
    ReadsTrees (expressionAt headroom p)
  | primary (headroom : Nat) : ReadsTrees (primary (expressionAt headroom))
  | constant (headroom : Nat) : ReadsTrees (constant (expressionAt headroom))
  | stringLiteral (what : String) : ReadsTrees (stringLiteral what)

/-- The parser can return the expression: one of its steps does so, somewhere in a text. -/
def Expr.IsReturned (preview : Bool) (e : Expr) : Prop :=
  ∃ text step s s', ReadsTrees step ∧ s.rest <:+ (Lexer.lex preview text).lexemes ∧
    step ((Lexer.lex preview text).context text) s = (.ok e, s')

/-- What the parser returns is derivable from a stretch of the lexemes of a text. -/
theorem Expr.IsReturned.derives {e : Expr} (h : e.IsReturned preview) :
    ∃ level m w, Derives level w e ∧ Lexed preview m w := by
  obtain ⟨text, step, s, s', hstep, hrest, h⟩ := h
  have hend : ((Lexer.lex preview text).context text).endToken.kind = .eof := by
    obtain ⟨tokens, diagnostics, l', -, heq⟩ := Lexer.exists_lex_eq preview text
    rw [Lexing.context, heq]
    rfl
  obtain ⟨level, w, hmoves, hderives⟩ : ∃ level w, Moves s w s' ∧ Derives level w e := by
    -- Whichever reader returned it, the expression is derived from the lexemes that it took.
    cases hstep with
    | expression headroom hp =>
        obtain ⟨w, level, hmoves, hderives, -⟩ := expressionAt_readsAll hend headroom hp h
        exact ⟨level, w, hmoves, hderives⟩
    | primary headroom =>
        obtain ⟨w, hmoves, hderives⟩ := primary_ok hend (expressionAt_readsAll hend headroom) h
        exact ⟨_, w, hmoves, hderives⟩
    | constant headroom =>
        obtain ⟨w, hmoves, hderives⟩ := constant_ok hend (expressionAt_readsAll hend headroom) h
        exact ⟨_, w, hmoves, hderives⟩
    | stringLiteral what =>
        obtain ⟨l, hl, rfl, hmoves⟩ := stringLiteral_ok h
        exact ⟨_, _, hmoves, .string hl⟩
  -- These are a stretch of the text's lexemes, and so were lexed in some mode.
  have hstretch : w <:+: (Lexer.lex preview text).lexemes := by
    refine List.IsInfix.trans ?_ hrest.isInfix
    rw [hmoves.rest_eq]
    exact (List.prefix_append _ _).isInfix
  obtain ⟨m, hw⟩ := (lexed_lexemes preview text).stretch hstretch
  exact ⟨level, m, w, hderives, hw⟩

/-- An expression that the parser can return, without a condition as an item of an `IN` list, is
rendered as a text in which lexer and parser find the same expression and nothing else: it has the
same core. The limit on nesting is above the number of lexemes, so it is not reached. -/
theorem Expr.reads_render {e : Expr} (h : e.IsReturned preview) (hplain : e.plainItems = true) :
    (Lexer.lexIn preview .expression e.render).diagnostics = [] ∧
      ∀ maxDepth, (Lexer.lexIn preview .expression e.render).lexemes.length < maxDepth →
        ∃ e' s', expressionAt maxDepth 0
            ((Lexer.lexIn preview .expression e.render).context e.render)
            (.initial (Lexer.lexIn preview .expression e.render).lexemes) = (.ok e', s') ∧
          s'.rest = [] ∧ e'.core = e.core := by
  obtain ⟨level, m, w, hderives, hw⟩ := h.derives
  let start : Lexer := ⟨preview, .ofText e.render, ModeStack.bottom.push .expression⟩
  obtain ⟨tokens, l', hreads, -, e', he', hcore⟩ :=
    @Prints.reads _ _ _ _ _ _ (hderives.prints hw hplain) start rfl rfl rfl
  have hlex : Lexer.lexIn preview .expression e.render = (l'.lexing tokens []).truncated :=
    Lexer.run_eq_of_reads hreads [] []
  rw [hlex]
  refine ⟨rfl, fun maxDepth hdepth => ?_⟩
  have hall : Derives .disjunction
      (State.initial (Lexeme.ofTokens false (tokens.map Token.truncated))).rest e' :=
    he'.widen e.disjunction_le_level
  obtain ⟨s', hs', hrest⟩ := expressionAt_of_derives hdepth hall
  exact ⟨e', s', hs', hrest, hcore⟩

/-- A sum in front of `IN` is put between parentheses, and so is the sign in it. -/
theorem Expr.reads_render_sum_in_list :
    ∃ e : Expr, e.render = "((-a) + 1) IN (b, 2::long)" ∧
      (Lexer.lexIn false .expression e.render).diagnostics = [] ∧
      ∃ e' s', expressionAt 20 0
          ((Lexer.lexIn false .expression e.render).context e.render)
          (.initial (Lexer.lexIn false .expression e.render).lexemes) = (.ok e', s') ∧
        s'.rest = [] ∧ e'.core = e.core := by
  let lexing := Lexer.lex false "WHERE -a + 1 IN (b, 2::long)"
  let result := expressionAt 9 0 (lexing.context "WHERE -a + 1 IN (b, 2::long)")
    (.initial (lexing.lexemes.drop 1))
  -- The expression is one that a reader returns behind `WHERE`, with its nesting inside the limit.
  have hresult : result.1.toOption.map (fun e => (e.render, e.plainItems)) =
      some ("((-a) + 1) IN (b, 2::long)", true) := by
    decide +kernel
  obtain ⟨e, he, hprops⟩ := Option.map_eq_some_iff.mp hresult
  obtain ⟨hrender, hplain⟩ := Prod.mk.inj hprops
  have hok : result = (.ok e, result.2) := by
    generalize result = r at he
    obtain ⟨r, s'⟩ := r
    cases r with
    | error d => cases he
    | ok e' => obtain rfl := Option.some.inj he; rfl
  have hreturned : e.IsReturned false :=
    ⟨_, _, _, _, .expression 9 (Nat.zero_le _), List.drop_suffix 1 _, hok⟩
  obtain ⟨hdiagnostics, hreads⟩ := Expr.reads_render hreturned hplain
  refine ⟨e, hrender, hdiagnostics, hreads 20 ?_⟩
  rw [hrender]
  decide +kernel

end PipeQuery
