import PipeQuery.Proofs.Parser.Embedding
import PipeQuery.Proofs.Parser.Name
import PipeQuery.Proofs.Query.Spans

/-!
# `PipeQuery.Proofs.Parser.Carried`: names at two places

Each step of `PipeQuery.Parser.Name` carries states of a parser over a text to those over a longer
one, and the name read there is the same one, further on by the offset.
-/

set_option autoImplicit false

namespace PipeQuery.Parser.Embedding

variable {e : Embedding} {c c' : Context}

/-- An identifier is carried over. -/
theorem identifier_carries (hc : e.Contexts c c') (what : String) :
    e.Carries c c' (Image (Identifier.mapSpans (.shift e.offset))) (identifier what) := by
  intro n s s' hs
  refine hs.onCurrent hc (q := unexpected what) ?_ (hs.unexpected hc what) ?_
  · rintro t (h | h) <;> simp only [h]
  · rintro m l l' rfl hfront
    rw [hfront.moved.kind_eq]
    cases l.token.kind with
    | identifier | quotedIdentifier =>
        refine hfront.skip ?_
        rw [hfront.moved.text_eq, hfront.moved.span_eq]
        exact hfront.past.pure rfl
    | _ => exact hs.unexpected hc what

/-- A moved parameter has the same text behind its mark. -/
theorem parameterBody_moved {k : Nat} {t t' : Token} (h : t.Moved k t') :
    parameterBody t' = parameterBody t := by
  rw [parameterBody, parameterBody, h.text_eq]

/-- A parameter is carried over, and is well-formed in both parses or in neither. -/
theorem States.parameterOf {n : Nat} {s s' : State} (hs : e.States n s s') {t t' : Token}
    (ht : t.Moved e.offset t') : e.Agrees n Eq (parameterOf t c s) (parameterOf t' c' s') := by
  rw [Parser.parameterOf, Parser.parameterOf, ht.kind_eq, parameterBody_moved ht]
  split
  · exact hs.pure rfl
  · dsimp only
    split
    · cases bounded (Nat.pow 2 32) (parameterBody t) with
      | some index => exact hs.pure rfl
      | none => exact hs.stopAt rfl ht.span_eq
    · exact hs.pure rfl

/-- At the end there is no parameter. -/
theorem not_isParameter_of_atEnd {kind : Token.Kind} (h : AtEnd kind) :
    isParameter kind = false := by
  rcases h with rfl | rfl <;> rfl

/-- A part of a name is carried over. -/
theorem namePart_carries (hc : e.Contexts c c') :
    e.Carries c c' (Image (NamePart.mapSpans (.shift e.offset))) namePart := by
  intro n s s' hs
  have hname : e.Agrees n (Image (NamePart.mapSpans (.shift e.offset)))
      ((do return NamePart.identifier (← identifier "a field name")) c s)
      ((do return NamePart.identifier (← identifier "a field name")) c' s') := by
    refine (identifier_carries hc _ hs).bind ?_
    rintro id _ s₁ s₁' rfl hs₁
    exact hs₁.pure rfl
  refine hs.onCurrent hc ?_ hname ?_
  · intro t h
    simp only [not_isParameter_of_atEnd h, Bool.false_eq_true, if_false]
  · rintro m l l' rfl hfront
    rw [hfront.moved.kind_eq]
    split
    · refine hfront.skip ?_
      refine (hfront.past.parameterOf hfront.moved).bind ?_
      rintro param _ s₁ s₁' rfl hs₁
      rw [hfront.moved.span_eq]
      exact hs₁.pure rfl
    · exact hname

/-- A name is carried over, part by part. -/
theorem fieldName_carries (hc : e.Contexts c c') :
    e.Carries c c' (Image (FieldName.mapSpans (.shift e.offset))) fieldName := by
  intro n s s' hs
  refine (namePart_carries hc hs).bind ?_
  rintro first _ s₁ s₁' rfl hs₁
  refine ((namePart_carries hc).others (by decide) hs₁).bind ?_
  rintro rest _ s₂ s₂' rfl hs₂
  refine (hs₂.spanFrom (NamePart.span_mapSpans _ first)).bind ?_
  rintro span _ s₃ s₃' rfl hs₃
  exact hs₃.pure rfl

/-- A part of a pattern is carried over. -/
theorem patternPart_carries (hc : e.Contexts c c') :
    e.Carries c c' (Image (PatternPart.mapSpans (.shift e.offset))) patternPart := by
  intro n s s' hs
  refine hs.onCurrent hc (q := unexpected "a field name pattern") ?_ (hs.unexpected hc _) ?_
  · -- Where nothing more may be taken, the token is neither a pattern nor a parameter.
    intro t h
    have hpattern : t.kind ≠ .pattern := by
      intro heq
      rw [heq] at h
      exact absurd h (by decide)
    simp only [hpattern, not_isParameter_of_atEnd h, Bool.false_eq_true, if_false]
  · rintro m l l' rfl hfront
    rw [hfront.moved.kind_eq]
    split
    · refine hfront.skip ?_
      rw [hfront.moved.text_eq, hfront.moved.span_eq]
      exact hfront.past.pure rfl
    · split
      · refine hfront.skip ?_
        refine (hfront.past.parameterOf hfront.moved).bind ?_
        rintro param _ s₁ s₁' rfl hs₁
        rw [hfront.moved.span_eq]
        exact hs₁.pure rfl
      · exact hs.unexpected hc _

/-- A field pattern is carried over, part by part. -/
theorem fieldPattern_carries (hc : e.Contexts c c') :
    e.Carries c c' (Image (FieldPattern.mapSpans (.shift e.offset))) fieldPattern := by
  intro n s s' hs
  refine (patternPart_carries hc hs).bind ?_
  rintro first _ s₁ s₁' rfl hs₁
  refine ((patternPart_carries hc).others (by decide) hs₁).bind ?_
  rintro rest _ s₂ s₂' rfl hs₂
  refine (hs₂.spanFrom (PatternPart.span_mapSpans _ first)).bind ?_
  rintro span _ s₃ s₃' rfl hs₃
  exact hs₃.pure rfl

/-- A list of field patterns is carried over. -/
theorem fieldPatterns_carries (hc : e.Contexts c c') :
    e.Carries c c' (Image (List.map (FieldPattern.mapSpans (.shift e.offset)))) fieldPatterns :=
  (fieldPattern_carries hc).separated (by decide)

/-- A source is carried over. -/
theorem source_carries (hc : e.Contexts c c') :
    e.Carries c c' (Image (Source.mapSpans (.shift e.offset))) source := by
  intro n s s' hs
  refine hs.onCurrent hc (q := unexpected "an index pattern") ?_ (hs.unexpected hc _) ?_
  · rintro t (h | h) <;> simp only [h]
  · rintro m l l' rfl hfront
    rw [hfront.moved.kind_eq]
    cases l.token.kind with
    | source | quotedString =>
        refine hfront.skip ?_
        rw [hfront.moved.text_eq, hfront.moved.span_eq]
        exact hfront.past.pure rfl
    | _ => exact hs.unexpected hc _

/-- Blanks in front of a lexeme ahead are the same. At an end there may be others. -/
theorem States.spaced_eq {n : Nat} {s s' : State} (hs : e.States n s s') (hne : s.rest ≠ []) :
    s'.rest.head?.any Lexeme.spaced = s.rest.head?.any Lexeme.spaced := by
  rcases hs.front_or_end with ⟨m, l, l', -, hfront, hspaced⟩ | ⟨hrest, -⟩
  · obtain ⟨r, hrest⟩ := hfront.rest
    obtain ⟨r', hrest'⟩ := hfront.rest'
    simp [hrest, hrest', hspaced]
  · exact absurd hrest hne

/-- An index pattern is carried over, and the blanks around its colon are moved with it. -/
theorem indexPattern_carries (hc : e.Contexts c c') :
    e.Carries c c' (Image (IndexPattern.mapSpans (.shift e.offset))) indexPattern := by
  intro n s s' hs
  refine (source_carries hc hs).bind ?_
  rintro first _ s₁ s₁' rfl hs₁
  rw [isSpaced, bind_look, bind_look]
  have hcolon : ¬ AtEnd .colon := by decide
  rcases hs₁.eat_or c c' hcolon with ⟨m, l, l', rfl, hfront, -, heat, heat'⟩ | ⟨-, heat, heat'⟩
  · rw [bind_apply_of_ok heat, bind_apply_of_ok heat']
    simp only [if_true]
    rw [bind_look, bind_look]
    obtain ⟨r, hrest⟩ := hfront.rest
    rw [hs₁.spaced_eq (by simp [hrest])]
    refine ((source_carries hc hfront.past).bind_of_ok ?_).weaken
    rintro index _ s₂ s₂' hindex rfl hs₂
    -- A source behind the colon means that the text goes on there.
    obtain ⟨w, hw, hmoves⟩ := source_ok hc.eof hindex
    rw [hfront.past.spaced_eq (by simp [hmoves.rest_eq])]
    refine hs₂.reportIf hc Iff.rfl rfl (Span.shift_merge _ _ _).symm fun hs₃ => hs₃.pure ?_
    simp only [Image, IndexPattern.mapSpans, Span.shift_merge, Option.map_some]
    rfl
  · rw [bind_apply_of_ok heat, bind_apply_of_ok heat']
    exact hs₁.pure rfl

/-- A list of index patterns is carried over. -/
theorem indexPatterns_carries (hc : e.Contexts c c') :
    e.Carries c c' (Image (List.map (IndexPattern.mapSpans (.shift e.offset)))) indexPatterns :=
  (indexPattern_carries hc).separated (by decide)

end PipeQuery.Parser.Embedding
