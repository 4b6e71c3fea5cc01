import Mathlib.Algebra.Group.Nat.Defs
import PipeQuery.Proofs.Parser.Separated

/-!
# `PipeQuery.Proofs.Parser.Name`: the grammar of names

Which lexemes write an identifier, a parameter, a field name, a field pattern or an index pattern,
and that the steps of `PipeQuery.Parser.Name` read exactly these.
-/

set_option autoImplicit false

namespace PipeQuery.Parser

variable {c : Context} {s s' : State}

/-- The span from the start of `first` to the end of the lexemes. -/
def spanOver (first : Span) (w : List Lexeme) : Span :=
  ⟨first.start, max (lastStop w first.stop) first.stop⟩

/-- The span of a node ends with the last lexeme that was taken, wherever the ones before it end. -/
theorem spanFrom_eq {first : Span} {w : List Lexeme} (h : w ≠ []) (before : Nat) :
    (⟨first.start, max (lastStop w before) first.stop⟩ : Span) = spanOver first w := by
  rw [spanOver, lastStop_of_ne_nil h before first.stop]

/-! ### The grammar -/

/-- The lexeme is a name, bare or between backquotes. -/
inductive IsIdentifier (l : Lexeme) : Identifier → Prop where
  | bare (h : l.token.kind = .identifier) : IsIdentifier l ⟨l.token.text, false, l.token.span⟩
  | quoted (h : l.token.kind = .quotedIdentifier) :
    IsIdentifier l ⟨Text.Backquoted.decode l.token.text, true, l.token.span⟩

/-- The lexeme is a parameter. The index of a positional one fits in 32 bits. -/
inductive IsParameter (l : Lexeme) : Parameter → Prop where
  | anonymous (h : l.token.kind = .anonymousParam) : IsParameter l .anonymous
  | positional (h : l.token.kind = .param)
    (hdigits : (parameterBody l.token).all Char.isDigit = true)
    (hfits : Text.decimalValue (parameterBody l.token) < 2 ^ 32) :
    IsParameter l (.positional (Text.decimalValue (parameterBody l.token)))
  | named (h : l.token.kind = .param)
    (hdigits : (parameterBody l.token).all Char.isDigit = false) :
    IsParameter l (.named (String.ofList (parameterBody l.token)))

/-- A name or a parameter. -/
inductive IsNamePart : List Lexeme → NamePart → Prop where
  | identifier {l : Lexeme} {id : Identifier} (h : IsIdentifier l id) :
    IsNamePart [l] (.identifier id)
  | parameter {l : Lexeme} {param : Parameter} (h : IsParameter l param) :
    IsNamePart [l] (.parameter param l.token.span)

/-- Names and parameters with dots between them. -/
inductive IsFieldName (w : List Lexeme) : FieldName → Prop where
  | mk {first : NamePart} {rest : List NamePart} (h : SepBy .dot IsNamePart w (first :: rest)) :
    IsFieldName w ⟨first :: rest, spanOver first.span w⟩

/-- A pattern or a parameter. -/
inductive IsPatternPart : List Lexeme → PatternPart → Prop where
  | pattern {l : Lexeme} (h : l.token.kind = .pattern) :
    IsPatternPart [l]
      (.pattern ⟨Text.Backquoted.decode l.token.text, l.token.text, l.token.span⟩)
  | parameter {l : Lexeme} {param : Parameter} (h : IsParameter l param) :
    IsPatternPart [l] (.parameter param l.token.span)

/-- Patterns and parameters with dots between them. -/
inductive IsFieldPattern (w : List Lexeme) : FieldPattern → Prop where
  | mk {first : PatternPart} {rest : List PatternPart}
    (h : SepBy .dot IsPatternPart w (first :: rest)) :
    IsFieldPattern w ⟨first :: rest, spanOver first.span w⟩

/-- The name of an index, a table or a cluster, bare or as a string. -/
inductive IsSource (l : Lexeme) : Source → Prop where
  | bare (h : l.token.kind = .source) : IsSource l ⟨l.token.text, false, l.token.span⟩
  | quoted (h : l.token.kind = .quotedString) :
    IsSource l ⟨Text.Quoted.decode l.token.text, true, l.token.span⟩

/-- A source, or a cluster and an index with a colon and nothing else between them. -/
inductive IsIndexPattern : List Lexeme → IndexPattern → Prop where
  | plain {l : Lexeme} {index : Source} (h : IsSource l index) :
    IsIndexPattern [l] ⟨none, index, index.span⟩
  | remote {l colon l' : Lexeme} {cluster index : Source} (hcluster : IsSource l cluster)
    (hcolon : colon.token.kind = .colon) (hindex : IsSource l' index)
    (hglued : colon.spaced = false) (hglued' : l'.spaced = false) :
    IsIndexPattern [l, colon, l'] ⟨some cluster, index, cluster.span.merge index.span⟩

/-- A name has a lexeme. -/
theorem IsFieldName.ne_nil {w : List Lexeme} {name : FieldName} (h : IsFieldName w name) :
    w ≠ [] := by
  obtain ⟨h⟩ := h
  cases h with
  | one h => cases h <;> simp
  | more h _ _ => cases h <;> simp

/-- A field pattern has a lexeme. -/
theorem IsFieldPattern.ne_nil {w : List Lexeme} {p : FieldPattern} (h : IsFieldPattern w p) :
    w ≠ [] := by
  obtain ⟨h⟩ := h
  cases h with
  | one h => cases h <;> simp
  | more h _ _ => cases h <;> simp

/-! ### What is read is in the grammar -/

/-- Digits have a bounded value if theirs is below the bound. -/
theorem bounded_eq_some {bound value : Nat} {digits : List Char} :
    bounded bound digits = some value ↔
      Text.decimalValue digits = value ∧ Text.decimalValue digits < bound := by
  simp only [bounded]
  split
  · simp [*]
  · simp [*]

/-- They have none if it is not. -/
theorem bounded_eq_none {bound : Nat} {digits : List Char} :
    bounded bound digits = none ↔ bound ≤ Text.decimalValue digits := by
  simp [bounded]

/-- An identifier is read off its token. -/
theorem identifier_ok (hend : c.endToken.kind = .eof) {what : String} {id : Identifier}
    (h : identifier what c s = (.ok id, s')) : ∃ l, IsIdentifier l id ∧ Moves s [l] s' := by
  rw [identifier, bind_ok] at h
  obtain ⟨token, s₁, hcurrent, h⟩ := h
  obtain ⟨rfl, rfl⟩ := look_ok.mp hcurrent
  generalize hkind : (s.current c).kind = kind at h
  cases kind with
  | identifier =>
      obtain ⟨l, rest, hrest, hl, heq⟩ := current_eq hend hkind (by simp)
      simp only [bind_ok, pure_ok] at h
      obtain ⟨t, s₂, hadvance, rfl, rfl⟩ := h
      rw [heq]
      exact ⟨l, .bare hl, (advance_ok hrest hadvance).2⟩
  | quotedIdentifier =>
      obtain ⟨l, rest, hrest, hl, heq⟩ := current_eq hend hkind (by simp)
      simp only [bind_ok, pure_ok] at h
      obtain ⟨t, s₂, hadvance, rfl, rfl⟩ := h
      rw [heq]
      exact ⟨l, .quoted hl, (advance_ok hrest hadvance).2⟩
  | _ => exact (unexpected_ok.mp h).elim

/-- A parameter is read off its token, without moving. -/
theorem parameterOf_ok {l : Lexeme} (hkind : isParameter l.token.kind = true) {param : Parameter}
    (h : parameterOf l.token c s = (.ok param, s')) : IsParameter l param ∧ s' = s := by
  unfold parameterOf at h
  split at h
  case isTrue hanonymous =>
    obtain ⟨rfl, rfl⟩ := pure_ok.mp h
    exact ⟨.anonymous hanonymous, rfl⟩
  case isFalse hanonymous =>
    -- The token is no lone question mark, so it has a body: digits, which must fit, or a name.
    have hparam : l.token.kind = .param := by
      unfold isParameter at hkind
      split at hkind
      · exact absurd ‹_› hanonymous
      · assumption
      · exact absurd hkind (by simp)
    dsimp only at h
    split at h
    case isTrue hdigits =>
      cases hindex : bounded (Nat.pow 2 32) (parameterBody l.token) with
      | some index =>
          obtain ⟨rfl, hfits⟩ := bounded_eq_some.mp hindex
          rw [hindex] at h
          obtain ⟨rfl, rfl⟩ := pure_ok.mp h
          exact ⟨.positional hparam hdigits hfits, rfl⟩
      | none =>
          rw [hindex] at h
          simp only [bind_ok, stop_ok, and_false, exists_false] at h
    case isFalse hdigits =>
      obtain ⟨rfl, rfl⟩ := pure_ok.mp h
      exact ⟨.named hparam (by simpa using hdigits), rfl⟩

/-- A parameter ahead that was taken. -/
theorem parameter_ok (hend : c.endToken.kind = .eof)
    (hkind : isParameter (s.current c).kind = true) {t : Token} {s₁ : State} {param : Parameter}
    (hadvance : advance c s = (.ok t, s₁))
    (h : parameterOf (s.current c) c s₁ = (.ok param, s')) :
    ∃ l, s.current c = l.token ∧ IsParameter l param ∧ Moves s [l] s' := by
  have heof : (s.current c).kind ≠ .eof := fun heof => by rw [heof] at hkind; cases hkind
  obtain ⟨l, rest, hrest, -, heq⟩ := current_eq hend rfl heof
  rw [heq] at hkind h
  obtain ⟨hparam, rfl⟩ := parameterOf_ok hkind h
  exact ⟨l, heq, hparam, (advance_ok hrest hadvance).2⟩

/-- A part of a name is read off its token. -/
theorem namePart_ok (hend : c.endToken.kind = .eof) {part : NamePart}
    (h : namePart c s = (.ok part, s')) :
    ∃ l, IsNamePart [l] part ∧ Moves s [l] s' := by
  rw [namePart, bind_ok] at h
  obtain ⟨token, s₁, hcurrent, h⟩ := h
  obtain ⟨rfl, rfl⟩ := look_ok.mp hcurrent
  split at h
  case isTrue hkind =>
    simp only [bind_ok, pure_ok] at h
    obtain ⟨t, s₂, hadvance, param, s₃, hparam, rfl, rfl⟩ := h
    obtain ⟨l, heq, hparam, hmoves⟩ := parameter_ok hend hkind hadvance hparam
    rw [heq]
    exact ⟨l, .parameter hparam, hmoves⟩
  case isFalse =>
    simp only [bind_ok, pure_ok] at h
    obtain ⟨id, s₂, hid, rfl, rfl⟩ := h
    obtain ⟨l, hid, hmoves⟩ := identifier_ok hend hid
    exact ⟨l, .identifier hid, hmoves⟩

/-- A name is read off its parts with dots between. -/
theorem fieldName_ok (hend : c.endToken.kind = .eof) {name : FieldName}
    (h : fieldName c s = (.ok name, s')) :
    ∃ w, IsFieldName w name ∧ Moves s w s' := by
  simp only [fieldName, bind_ok, pure_ok, spanFrom_ok] at h
  obtain ⟨first, s₁, hfirst, rest, s₂, hrest, _, _, ⟨rfl, rfl⟩, rfl, rfl⟩ := h
  obtain ⟨l, hpart, hmoves⟩ := namePart_ok hend hfirst
  obtain ⟨w, hmoves', hothers⟩ := others_ok (g := fun _ => True) (R := IsNamePart)
    (by simp) (fun _ h => h) (fun h => by
      obtain ⟨l, hpart, hmoves⟩ := namePart_ok hend h
      exact ⟨[l], hmoves, fun _ => hpart⟩) hrest
  have hall := hmoves.trans hmoves'
  refine ⟨[l] ++ w, ?_, hall⟩
  rw [hall.prevEnd_eq, spanFrom_eq (by simp)]
  exact .mk ((hothers trivial).cons hpart)

/-- A part of a pattern is read off its token. -/
theorem patternPart_ok (hend : c.endToken.kind = .eof) {part : PatternPart}
    (h : patternPart c s = (.ok part, s')) :
    ∃ l, IsPatternPart [l] part ∧ Moves s [l] s' := by
  rw [patternPart, bind_ok] at h
  obtain ⟨token, s₁, hcurrent, h⟩ := h
  obtain ⟨rfl, rfl⟩ := look_ok.mp hcurrent
  split at h
  case isTrue hkind =>
    simp only [bind_ok, pure_ok] at h
    obtain ⟨t, s₂, hadvance, rfl, rfl⟩ := h
    obtain ⟨l, rest, hrest, hl, heq⟩ := current_eq hend hkind (by simp)
    rw [heq]
    exact ⟨l, .pattern hl, (advance_ok hrest hadvance).2⟩
  case isFalse =>
    split at h
    case isTrue hkind =>
      simp only [bind_ok, pure_ok] at h
      obtain ⟨t, s₂, hadvance, param, s₃, hparam, rfl, rfl⟩ := h
      obtain ⟨l, heq, hparam, hmoves⟩ := parameter_ok hend hkind hadvance hparam
      rw [heq]
      exact ⟨l, .parameter hparam, hmoves⟩
    case isFalse => exact (unexpected_ok.mp h).elim

/-- A field pattern is read off its parts with dots between. -/
theorem fieldPattern_ok (hend : c.endToken.kind = .eof) {p : FieldPattern}
    (h : fieldPattern c s = (.ok p, s')) :
    ∃ w, IsFieldPattern w p ∧ Moves s w s' := by
  simp only [fieldPattern, bind_ok, pure_ok, spanFrom_ok] at h
  obtain ⟨first, s₁, hfirst, rest, s₂, hrest, _, _, ⟨rfl, rfl⟩, rfl, rfl⟩ := h
  obtain ⟨l, hpart, hmoves⟩ := patternPart_ok hend hfirst
  obtain ⟨w, hmoves', hothers⟩ := others_ok (g := fun _ => True) (R := IsPatternPart)
    (by simp) (fun _ h => h) (fun h => by
      obtain ⟨l, hpart, hmoves⟩ := patternPart_ok hend h
      exact ⟨[l], hmoves, fun _ => hpart⟩) hrest
  have hall := hmoves.trans hmoves'
  refine ⟨[l] ++ w, ?_, hall⟩
  rw [hall.prevEnd_eq, spanFrom_eq (by simp)]
  exact .mk ((hothers trivial).cons hpart)

/-- A source is read off its token. -/
theorem source_ok (hend : c.endToken.kind = .eof) {source : Source}
    (h : Parser.source c s = (.ok source, s')) : ∃ l, IsSource l source ∧ Moves s [l] s' := by
  rw [Parser.source, bind_ok] at h
  obtain ⟨token, s₁, hcurrent, h⟩ := h
  obtain ⟨rfl, rfl⟩ := look_ok.mp hcurrent
  generalize hkind : (s.current c).kind = kind at h
  cases kind with
  | source =>
      obtain ⟨l, rest, hrest, hl, heq⟩ := current_eq hend hkind (by simp)
      simp only [bind_ok, pure_ok] at h
      obtain ⟨t, s₂, hadvance, rfl, rfl⟩ := h
      rw [heq]
      exact ⟨l, .bare hl, (advance_ok hrest hadvance).2⟩
  | quotedString =>
      obtain ⟨l, rest, hrest, hl, heq⟩ := current_eq hend hkind (by simp)
      simp only [bind_ok, pure_ok] at h
      obtain ⟨t, s₂, hadvance, rfl, rfl⟩ := h
      rw [heq]
      exact ⟨l, .quoted hl, (advance_ok hrest hadvance).2⟩
  | _ => exact (unexpected_ok.mp h).elim

/-! ### What is in the grammar is read -/

/-- An identifier is read in full. -/
theorem identifier_apply {l : Lexeme} {rest : List Lexeme} (hs : s.rest = l :: rest)
    {id : Identifier} (h : IsIdentifier l id) (what : String) :
    identifier what c s = (.ok id, s.past [l]) := by
  rw [identifier, bind_apply_of_ok (current_apply hs)]
  cases h with
  | bare h =>
      rw [h]
      dsimp only
      rw [bind_apply_of_ok (advance_apply hs), Parse.pure_apply]
  | quoted h =>
      rw [h]
      dsimp only
      rw [bind_apply_of_ok (advance_apply hs), Parse.pure_apply]

/-- A parameter has a kind of parameters. -/
theorem IsParameter.isParameter {l : Lexeme} {param : Parameter} (h : IsParameter l param) :
    isParameter l.token.kind = true := by
  cases h with
  | anonymous h | positional h | named h => rw [h]; rfl

/-- A well-formed parameter is read without a report. -/
theorem parameterOf_apply {l : Lexeme} {param : Parameter} (h : IsParameter l param) :
    parameterOf l.token c s = (.ok param, s) := by
  cases h with
  | anonymous h => rw [parameterOf, if_pos h, Parse.pure_apply]
  | positional h hdigits hfits =>
      have hindex : bounded (Nat.pow 2 32) (parameterBody l.token) =
          some (Text.decimalValue (parameterBody l.token)) := bounded_eq_some.mpr ⟨rfl, hfits⟩
      rw [parameterOf, if_neg (by rw [h]; simp), if_pos hdigits, hindex]
      rfl
  | named h hdigits =>
      rw [parameterOf, if_neg (by rw [h]; simp), if_neg (by rw [hdigits]; simp),
        Parse.pure_apply]

/-- A part of a name is read in full. -/
theorem namePart_apply {w rest : List Lexeme} (hs : s.rest = w ++ rest) {part : NamePart}
    (h : IsNamePart w part) : namePart c s = (.ok part, s.past w) := by
  cases h with
  | @identifier l _ h =>
      have hkind : ¬ isParameter l.token.kind = true := by
        cases h with
        | bare h | quoted h => rw [h]; simp [isParameter]
      rw [namePart, bind_apply_of_ok (current_apply hs), if_neg hkind,
        bind_apply_of_ok (identifier_apply hs h _), Parse.pure_apply]
  | parameter h =>
      rw [namePart, bind_apply_of_ok (current_apply hs), if_pos h.isParameter,
        bind_apply_of_ok (advance_apply hs), bind_apply_of_ok (parameterOf_apply h),
        Parse.pure_apply]

/-- A name is read in full if no dot follows. -/
theorem fieldName_apply {w rest : List Lexeme} (hs : s.rest = w ++ rest) {name : FieldName}
    (h : IsFieldName w name) (hrest : kindIn rest 0 ≠ .dot) :
    fieldName c s = (.ok name, s.past w) := by
  have hne := h.ne_nil
  obtain ⟨hparts⟩ := h
  obtain ⟨w₁, w₂, part, parts, rfl, hcons, hpart, hothers⟩ := hparts.head
  obtain ⟨rfl, rfl⟩ := List.cons.inj hcons
  have hs₁ : s.rest = w₁ ++ (w₂ ++ rest) := by rw [hs, List.append_assoc]
  rw [fieldName, bind_apply_of_ok (namePart_apply hs₁ hpart),
    bind_apply_of_ok (others_apply (q := fun _ => True) (fun h hs _ => namePart_apply hs h)
      (fun _ => trivial) hothers trivial hrest (past_rest hs₁)),
    bind_apply_of_ok (spanFrom_apply _), Parse.pure_apply, past_past, past_prevEnd,
    spanFrom_eq hne]

/-- A part of a pattern is read in full. -/
theorem patternPart_apply {w rest : List Lexeme} (hs : s.rest = w ++ rest) {part : PatternPart}
    (h : IsPatternPart w part) : patternPart c s = (.ok part, s.past w) := by
  cases h with
  | pattern h =>
      rw [patternPart, bind_apply_of_ok (current_apply hs), if_pos h,
        bind_apply_of_ok (advance_apply hs), Parse.pure_apply]
  | @parameter l _ h =>
      have hkind : ¬ l.token.kind = .pattern := by
        have := h.isParameter
        intro heq
        rw [heq] at this
        exact absurd this (by simp [isParameter])
      rw [patternPart, bind_apply_of_ok (current_apply hs), if_neg hkind, if_pos h.isParameter,
        bind_apply_of_ok (advance_apply hs), bind_apply_of_ok (parameterOf_apply h),
        Parse.pure_apply]

/-- A field pattern is read in full if no dot follows. -/
theorem fieldPattern_apply {w rest : List Lexeme} (hs : s.rest = w ++ rest) {p : FieldPattern}
    (h : IsFieldPattern w p) (hrest : kindIn rest 0 ≠ .dot) :
    fieldPattern c s = (.ok p, s.past w) := by
  have hne := h.ne_nil
  obtain ⟨hparts⟩ := h
  obtain ⟨w₁, w₂, part, parts, rfl, hcons, hpart, hothers⟩ := hparts.head
  obtain ⟨rfl, rfl⟩ := List.cons.inj hcons
  have hs₁ : s.rest = w₁ ++ (w₂ ++ rest) := by rw [hs, List.append_assoc]
  rw [fieldPattern, bind_apply_of_ok (patternPart_apply hs₁ hpart),
    bind_apply_of_ok (others_apply (q := fun _ => True) (fun h hs _ => patternPart_apply hs h)
      (fun _ => trivial) hothers trivial hrest (past_rest hs₁)),
    bind_apply_of_ok (spanFrom_apply _), Parse.pure_apply, past_past, past_prevEnd,
    spanFrom_eq hne]

/-- A source is read in full. -/
theorem source_apply {l : Lexeme} {rest : List Lexeme} (hs : s.rest = l :: rest)
    {source : Source} (h : IsSource l source) :
    Parser.source c s = (.ok source, s.past [l]) := by
  rw [Parser.source, bind_apply_of_ok (current_apply hs)]
  cases h with
  | bare h =>
      rw [h]
      dsimp only
      rw [bind_apply_of_ok (advance_apply hs), Parse.pure_apply]
  | quoted h =>
      rw [h]
      dsimp only
      rw [bind_apply_of_ok (advance_apply hs), Parse.pure_apply]

end PipeQuery.Parser
