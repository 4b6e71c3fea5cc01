import PipeQuery.Proofs.Expr.Grammar
import PipeQuery.Proofs.Query.Made

/-!
# `PipeQuery.Proofs.Expr.Made`: expressions are made of their lexemes

What is derivable has its place among the lexemes of the derivation, and so has every part of it
(`Derives.stretch`). It need not be all of them, since parentheses around an expression leave no
node. A span that two operands make together begins and ends inside the parentheses of either.
-/

set_option autoImplicit false

namespace PipeQuery.Parser

variable {α : Type} {w m : List Lexeme} {l : Lexeme} {kind : Token.Kind}

/-! ### Names -/

/-- An identifier is made of its token. -/
theorem IsIdentifier.plain {id : Identifier} (h : IsIdentifier l id) :
    Plain [l] (.identifier id) := by
  have hspan : id.span = l.token.span := by cases h <;> rfl
  refine .leaf ⟨l, rfl, h⟩ trivial rfl ?_ rfl
  rw [show Node.span (.identifier id) = l.token.span from hspan]
  exact .single l

/-- A source is made of its token. -/
theorem IsSource.plain {source : Source} (h : IsSource l source) : Plain [l] (.source source) := by
  have hspan : source.span = l.token.span := by cases h <;> rfl
  refine .leaf ⟨l, rfl, h⟩ trivial rfl ?_ rfl
  rw [show Node.span (.source source) = l.token.span from hspan]
  exact .single l

/-- A part of a name is made of its token. -/
theorem IsNamePart.plain {part : NamePart} (h : IsNamePart w part) : Plain w part.node := by
  cases h with
  | identifier h => exact h.plain
  | parameter => exact .leaf trivial trivial rfl (.single _) rfl

/-- A part of a pattern is made of its token. -/
theorem IsPatternPart.plain {part : PatternPart} (h : IsPatternPart w part) :
    Plain w part.node := by
  cases h with
  | pattern h => exact .leaf (.pattern h) trivial rfl (.single _) rfl
  | parameter => exact .leaf trivial trivial rfl (.single _) rfl

/-- Parts with separators between them have the span from the first of them on. -/
theorem SepBy.stretch {R : List Lexeme → α → Prop} {f : α → Node} {first : α} {rest : List α}
    (h : SepBy kind R w (first :: rest)) (hw : Placed w)
    (hitem : ∀ {w a}, R w a → Plain w (f a)) :
    Stretch w ((first :: rest).map f) (spanOver (f first).span w) := by
  have hscattered := h.scattered (f := f) hw fun h _ => .one (hitem h)
  obtain ⟨w₁, w₂, _, _, rfl, heq, hfirst, -⟩ := h.head
  obtain ⟨rfl, rfl⟩ := List.cons.inj heq
  have hspan := (hitem hfirst).spans
  obtain ⟨last, hlast⟩ := Option.ne_none_iff_exists'.mp
    (mt List.getLast?_eq_none_iff.mp (List.append_ne_nil_of_left_ne_nil hspan.ne_nil w₂))
  exact .of_spans (hspan.upTo hw hlast hlast) hscattered

/-- A name is made of its parts, and its span goes over them and the dots. -/
theorem IsFieldName.stretch {name : FieldName} (h : IsFieldName w name) (hw : Placed w) :
    Stretch w [.fieldName name] name.span := by
  obtain ⟨hparts⟩ := h
  have hstretch := hparts.stretch hw IsNamePart.plain
  rw [NamePart.span_node] at hstretch
  exact .wrap (.fieldName ⟨_, _⟩) hstretch ⟨fun _ => trivial, trivial, rfl⟩

/-- A field pattern is made of its parts, and its span goes over them and the dots. -/
theorem IsFieldPattern.stretch {p : FieldPattern} (h : IsFieldPattern w p) (hw : Placed w) :
    Stretch w [.fieldPattern p] p.span := by
  obtain ⟨hparts⟩ := h
  have hstretch := hparts.stretch hw IsPatternPart.plain
  rw [PatternPart.span_node] at hstretch
  exact .wrap (.fieldPattern ⟨_, _⟩) hstretch ⟨fun _ => trivial, trivial, rfl⟩

/-! ### Constants -/

/-- A string is made of its token. -/
theorem plain_stringOf (l : Lexeme) : Plain [l] (.expr (stringOf l.token)) :=
  .leaf ⟨l, rfl, rfl⟩ trivial rfl (.single l) rfl

/-- A decimal is made of its token. -/
theorem plain_decimalOf (l : Lexeme) : Plain [l] (.expr (decimalOf l.token)) :=
  .leaf ⟨l, rfl, rfl⟩ trivial rfl (.single l) rfl

/-- The star of `count(*)` is made of its lexeme, but it is not plain. -/
theorem made_star (l : Lexeme) : Made [l] (.expr (literalOf .star l.token)) :=
  .of (.single l) trivial trivial .nil

/-! ### Expressions -/

/-- The name of a call has the place of its lexeme. -/
theorem IsNamePart.spanOver_eq {part : NamePart} (h : IsNamePart [l] part) :
    spanOver part.span [l] = part.node.span := by
  have hspan : part.span = l.token.span := by
    cases h with
    | identifier h => cases h <;> rfl
    | parameter => rfl
  rw [NamePart.span_node, hspan, spanOver, lastStop_singleton, Nat.max_self]

/-- A part of a name stands in its one lexeme. -/
theorem IsNamePart.stretch {part : NamePart} (h : IsNamePart [l] part) :
    Stretch [l] [part.node] (spanOver part.span [l]) :=
  h.spanOver_eq ▸ .of_plain h.plain

/-- The star has its one place between the parentheses of a call. -/
theorem IsNamePart.plain_callStar {opening star closing : Lexeme} {part : NamePart}
    (h : IsNamePart [l] part) (hw : Placed [l, opening, star, closing]) :
    Plain [l, opening, star, closing]
      (.expr (.call part [literalOf .star star.token]
        (spanOver (spanOver part.span [l]) [closing]))) := by
  have hspan := h.plain.spans.upTo (m := [opening, star, closing]) (v := [closing]) hw rfl rfl
  rw [← h.spanOver_eq] at hspan
  have hchildren : Scattered Made ([l] ++ ([opening, star] ++ [closing]))
      [part.node, .expr (literalOf .star star.token)] :=
    (Scattered.one h.plain.made).one_cons (((Scattered.one (made_star star)).skip [opening]).pad _)
  refine ⟨.mk hspan trivial (fun e he hstar => ?_) trivial hchildren fun _ _ h => h, hspan, rfl⟩
  rcases List.mem_cons.mp he with hname | he
  · cases part <;> cases hname
  · obtain ⟨⟩ := List.mem_singleton.mp he
    exact ⟨part, _, rfl⟩

/-- An expression stands among the lexemes it is derived from. -/
theorem Derives.stretch {level : Level} {e : Expr} (h : Derives level w e) (hw : Placed w) :
    Stretch w [.expr e] e.span := by
  induction h with
  | up _ _ ih => exact ih hw
  | @chain _ _ l _ _ _ _ _ _ _ _ _ ihLeft ihRight =>
      exact .wrap (.expr (.binary ..))
        (.merge (m := [l]) (ihLeft hw.left) (ihRight hw.right.tail) hw)
        ⟨fun _ => trivial, trivial, rfl⟩
  | @compare _ l _ _ _ _ _ _ _ _ ihLeft ihRight =>
      exact .wrap (.expr (.binary ..))
        (.merge (m := [l]) (ihLeft hw.left) (ihRight hw.right.tail) hw)
        ⟨fun _ => trivial, trivial, rfl⟩
  | @not l _ _ _ _ ih | @sign _ l _ _ _ _ ih =>
      exact .wrap (.expr (.unary ..)) (.merge (m := []) (.lexeme l) (ih hw.tail) hw)
        ⟨fun _ => trivial, trivial, rfl⟩
  | @inList l opening closing _ n w' _ _ _ _ _ _ _ _ hitems _ _ ih ihItems =>
      have hscattered := hitems.scattered hw.right.right.tail.tail.left
        fun h hw => (ihItems _ _ h hw).scattered
      -- The closing bracket is split off, so that the operand and the items stand in what is in
      -- front of it.
      have heq : n ++ l :: opening :: (w' ++ [closing]) =
          (n ++ ([l, opening] ++ w')) ++ [closing] := by simp
      rw [heq] at hw ⊢
      exact .wrap (.expr (.inList ..))
        (.closed (ih hw.left) ((hscattered.skip [l, opening]).skip n) hw)
        ⟨fun _ => trivial, List.length_pos_iff.mpr hitems.ne_nil, rfl⟩
  | @like _ l pattern _ n _ _ _ _ _ _ ih =>
      have heq : n ++ [l, pattern] = (n ++ [l]) ++ [pattern] := by simp
      rw [heq] at hw ⊢
      exact .wrap (.expr (.like ..))
        (.merge (ih hw.left) (.of_plain (plain_stringOf pattern)) hw)
        ⟨fun _ => trivial, rfl, rfl⟩
  | @isNull l null _ n _ _ _ _ _ _ ih =>
      exact .wrap (.expr (.isNull ..))
        (.merge (m := l :: n) (ih hw.left) (.lexeme null) hw) ⟨fun _ => trivial, trivial, rfl⟩
  | @«match» l query _ _ _ _ _ ih =>
      exact .wrap (.expr (.«match» ..))
        (.merge (m := [l]) (ih hw.left) (.of_plain (plain_stringOf query)) hw)
        ⟨fun _ => trivial, rfl, rfl⟩
  | @cast l type _ _ _ _ _ hid ih =>
      exact .wrap (.expr (.cast ..))
        (.merge (m := [l]) (ih hw.left) (.of_plain hid.plain) hw)
        ⟨fun _ => trivial, trivial, rfl⟩
  -- The leaves stretch over the lexemes they are read off, and have nothing beneath.
  | nullWord | trueWord | falseWord =>
      exact .of_plain (.leaf trivial trivial rfl (.single _) rfl)
  | string => exact .of_plain (plain_stringOf _)
  | decimal | wideInteger => exact .of_plain (plain_decimalOf _)
  | @integer l _ hfits =>
      exact .of_plain (.leaf ⟨l, rfl, rfl, rfl, hfits⟩ trivial rfl (.single l) rfl)
  | @quantity l unit _ hfits _ =>
      exact .of_plain (.leaf ⟨l, unit, rfl, rfl, rfl, rfl, hfits⟩ trivial rfl
        (.merge (m := []) (.single l) (.single unit) hw) rfl)
  | parameter => exact .of_plain (.leaf trivial trivial rfl (.single _) rfl)
  | field h hname =>
      exact .wrap (.expr (.field ..)) (h.stretch hw) ⟨fun _ => trivial, hname, rfl⟩
  | call h _ _ =>
      exact .wrap (.expr (.call ..)) (.closed (m := [_]) h.stretch .nil hw)
        ⟨fun _ => trivial, trivial, rfl⟩
  | callStar h _ _ _ => exact .of_plain (h.plain_callStar hw)
  | @callWith l opening closing _ _ _ _ h _ hitems _ _ ihItems =>
      have hscattered := hitems.scattered hw.tail.tail.left
        fun h hw => (ihItems _ _ h hw).scattered
      exact .wrap (.expr (.call ..)) (.closed h.stretch (hscattered.skip [opening]) hw)
        ⟨fun _ => trivial, trivial, rfl⟩
  | @paren opening closing _ _ _ _ _ ih => exact (ih hw.tail.left).inside [opening] [closing]
  | @parenList opening closing _ _ _ _ _ _ hitems _ _ ihItems =>
      have hscattered := hitems.scattered hw.tail.left fun h hw => (ihItems _ _ h hw).scattered
      exact .wrap (.expr (.list ..)) (.closed (.lexeme opening) hscattered hw)
        ⟨fun _ => trivial, Nat.le_add_left _ _, rfl⟩
  | @emptyList opening closing _ _ =>
      exact .wrap (.expr (.list ..)) (.closed (m := []) (.lexeme opening) .nil hw)
        ⟨fun _ => trivial, trivial, rfl⟩
  | @bracketList opening closing _ _ _ _ hitems _ _ ihItems =>
      have hscattered := hitems.scattered hw.tail.left fun h hw => (ihItems _ _ h hw).scattered
      exact .wrap (.expr (.list ..)) (.closed (.lexeme opening) hscattered hw)
        ⟨fun _ => trivial, trivial, rfl⟩

end PipeQuery.Parser
