import PipeQuery.Proofs.Token.LineFeed

/-!
# `PipeQuery.Proofs.Token.Ending`: steps in front of a line feed

A line feed behind a text ends its last token where the end of the text did. `step_lineFeed` says so
of one step: it takes the same token, or a blank or a line comment at the end of the text that now
has one more character.
-/

set_option autoImplicit false

namespace PipeQuery

namespace Token

namespace Step

variable {preview : Bool} {modes : ModeStack} {cs : List Char}

/-- A text that begins with no such character does not do so with others behind it. -/
theorem head_ne (hne : cs ≠ []) {ds : List Char} {c : Char} (h : ∀ rest, cs = c :: rest → False) :
    ∀ rest, cs ++ ds = c :: rest → False := by
  intro rest heq
  cases cs with
  | nil => exact hne rfl
  | cons d cs => exact h cs (by rw [(List.cons.inj heq).1])

/-- A word that is no error ends in front of a line feed as it does at the end of the text. -/
theorem word_lineFeed {length : List Char → Nat} {decide : String → Kind × ModeStack}
    {tail : List Char} (hle : length cs ≤ cs.length)
    (hlength : length (cs ++ '\n' :: tail) = length cs)
    (hkind : (word modes cs (length cs) decide).kind ≠ .error) :
    word modes (cs ++ '\n' :: tail) (length (cs ++ '\n' :: tail)) decide =
      word modes cs (length cs) decide := by
  have hpos : length cs ≠ 0 := by
    intro hzero
    rw [word, if_pos hzero] at hkind
    exact hkind rfl
  rw [hlength, word, word, if_neg hpos, if_neg hpos, List.take_append_of_le_length hle]

/-- A string literal that was closed is closed wherever the text goes on. -/
theorem quotedString_lineFeed (hne : cs ≠ []) (hkind : (quotedString modes cs).kind ≠ .error)
    (tail : List Char) : quotedString modes (cs ++ '\n' :: tail) = quotedString modes cs := by
  rcases quotedString_cases modes cs with ⟨_, _, _, heq⟩ | ⟨hclosed, -⟩
  · rw [heq] at hkind
    exact absurd rfl hkind
  · simp only [quotedString, Text.Quoted.extent_lineFeed hne hclosed, hclosed]

/-- So is a quoted name. -/
theorem quotedIdentifier_lineFeed (hkind : (quotedIdentifier modes cs).kind ≠ .error)
    (tail : List Char) :
    quotedIdentifier modes (cs ++ '\n' :: tail) = quotedIdentifier modes cs := by
  rcases quotedIdentifier_cases modes cs with ⟨_, _, _, heq⟩ | ⟨length, hlength, -⟩
  · rw [heq] at hkind
    exact absurd rfl hkind
  · rw [quotedIdentifier, quotedIdentifier, hlength,
      Text.Backquoted.length?_lineFeed hlength tail]

/-- A parameter ends in front of a line feed. -/
theorem parameter_lineFeed (hne : cs ≠ []) (tail : List Char) :
    parameter modes (cs ++ '\n' :: tail) = parameter modes cs := by
  rw [parameter, parameter, Shape.drop_lineFeed (List.length_pos_iff.mpr hne),
    Shape.parameter_lineFeed]

/-- A pattern that is no error ends in front of a line feed. -/
theorem pattern_lineFeed {decide : String → Kind} (hkind : (pattern modes cs decide).kind ≠ .error)
    (tail : List Char) : pattern modes (cs ++ '\n' :: tail) decide = pattern modes cs decide := by
  cases hpattern : Shape.pattern cs with
  | unterminated =>
      rw [pattern, hpattern] at hkind
      exact absurd rfl hkind
  | whole length =>
      rw [pattern, hpattern] at hkind
      rw [pattern, pattern, hpattern, Shape.pattern_lineFeed hpattern tail]
      -- The length is that of the pattern in both texts.
      let found : List Char → Nat := fun _ => length
      have hle : found cs ≤ cs.length := Shape.pattern_le_length hpattern
      exact word_lineFeed hle rfl hkind

/-- An operator that was found is found in front of a line feed. -/
theorem operator?_lineFeed {kind : Kind} {length : Nat} (h : operator? cs = some (kind, length))
    (tail : List Char) : operator? (cs ++ '\n' :: tail) = some (kind, length) := by
  unfold operator? at h
  split at h
  case h_19 => cases h
  case h_3 rest _ _ | h_6 rest _ | h_8 rest _ =>
    -- The character behind the sign makes no longer operator with it.
    cases rest with
    | nil => exact h
    | cons d rest => simp_all [operator?]
  all_goals exact h

/-- Whether a number begins is told by its first characters, none of them a line feed. -/
theorem beginsNumber_lineFeed (hne : cs ≠ []) (tail : List Char) :
    Shape.beginsNumber (cs ++ '\n' :: tail) = Shape.beginsNumber cs := by
  rw [Shape.beginsNumber, Shape.beginsNumber, Shape.startsWith_lineFeed rfl,
    Shape.startsWith_lineFeed rfl, Shape.drop_lineFeed (List.length_pos_iff.mpr hne),
    Shape.startsWith_lineFeed rfl]

/-- The words of the mode are sources. -/
def hasSources : Mode → Bool
  | .sources | .lookup | .metrics => true
  | _ => false

/-! #### Mode by mode

In each mode the first character of the text decides which rule applies, and it is the same with a
line feed behind the text. -/

section

variable (hne : cs ≠ []) (tail : List Char)

include hne

/-- In the default mode a token that is no error does not go on in a line feed. -/
theorem inDefault_lineFeed (hkind : (inDefault preview modes cs).kind ≠ .error) :
    inDefault preview modes (cs ++ '\n' :: tail) = inDefault preview modes cs := by
  unfold inDefault at hkind
  split at hkind
  · rfl
  · rw [inDefault, inDefault]
    · exact word_lineFeed (Shape.run_le_length _ _) (Shape.run_lineFeed rfl _ _) hkind
    all_goals first | assumption | exact head_ne hne ‹_›

/-- In an expression it does not. -/
theorem inExpression_lineFeed (hkind : (inExpression preview modes cs).kind ≠ .error) :
    inExpression preview modes (cs ++ '\n' :: tail) = inExpression preview modes cs := by
  -- The rule that reads the token is the same with a line feed behind the text, case by case.
  unfold inExpression at hkind
  split at hkind
  · exact quotedString_lineFeed hne hkind tail
  · exact quotedIdentifier_lineFeed hkind tail
  · exact parameter_lineFeed hne tail
  · rfl
  · rfl
  · rw [inExpression, inExpression]
    · have hnumber := beginsNumber_lineFeed hne tail
      rw [Shape.beginsNumber, Shape.beginsNumber] at hnumber
      rw [hnumber, Shape.startsWith_lineFeed rfl]
      split at hkind
      case isTrue hdigit => rw [if_pos hdigit, if_pos hdigit, number, number, Shape.number_lineFeed]
      case isFalse hdigit =>
        rw [if_neg hdigit, if_neg hdigit]
        split at hkind
        case isTrue hname =>
          rw [if_pos hname, if_pos hname]
          exact word_lineFeed (Shape.identifier_le_length _) (Shape.identifier_lineFeed _ _) hkind
        case isFalse hname =>
          rw [if_neg hname, if_neg hname]
          split at hkind
          · rename_i hoperator
            rw [operator?_lineFeed hoperator]
          · exact absurd rfl hkind
    all_goals first | assumption | exact head_ne hne ‹_›

/-- In `EXPLAIN` it does not. -/
theorem inExplain_lineFeed (hkind : (inExplain modes cs).kind ≠ .error) :
    inExplain modes (cs ++ '\n' :: tail) = inExplain modes cs := by
  unfold inExplain at hkind
  split at hkind
  · rfl
  · rfl
  · exact absurd rfl hkind

/-- Nor does a source, if no slash at the end of the text would take the line feed with it. -/
theorem inSources_lineFeed (hslash : cs.drop (Shape.source cs) ≠ ['/'])
    (hkind : (inSources modes cs).kind ≠ .error) :
    inSources modes (cs ++ '\n' :: tail) = inSources modes cs := by
  unfold inSources at hkind
  split at hkind
  · rfl
  · rfl
  · rfl
  · rfl
  · rfl
  · exact quotedString_lineFeed hne hkind tail
  · rw [inSources, inSources]
    · exact word_lineFeed (Shape.source_le_length _) (Shape.source_lineFeed hslash _) hkind
    all_goals first | assumption | exact head_ne hne ‹_›

/-- In `KEEP` and `DROP` a token that is no error does not go on in a line feed. -/
theorem inProject_lineFeed (hkind : (inProject modes cs).kind ≠ .error) :
    inProject modes (cs ++ '\n' :: tail) = inProject modes cs := by
  unfold inProject at hkind
  split at hkind
  · rfl
  · rfl
  · exact parameter_lineFeed hne tail
  · rw [inProject, inProject]
    · exact pattern_lineFeed hkind tail
    all_goals first | assumption | exact head_ne hne ‹_›

/-- In `RENAME` it does not. -/
theorem inRename_lineFeed (hkind : (inRename modes cs).kind ≠ .error) :
    inRename modes (cs ++ '\n' :: tail) = inRename modes cs := by
  unfold inRename at hkind
  split at hkind
  · rfl
  · rfl
  · exact parameter_lineFeed hne tail
  · rfl
  · rw [inRename, inRename]
    · exact pattern_lineFeed hkind tail
    all_goals first | assumption | exact head_ne hne ‹_›

/-- In `ENRICH` it does not. -/
theorem inEnrich_lineFeed (hkind : (inEnrich modes cs).kind ≠ .error) :
    inEnrich modes (cs ++ '\n' :: tail) = inEnrich modes cs := by
  unfold inEnrich at hkind
  split at hkind
  · rfl
  · rw [inEnrich, inEnrich]
    · exact word_lineFeed (Shape.policy_le_length _) (Shape.policy_lineFeed _ _) hkind
    all_goals first | assumption | exact head_ne hne ‹_›

/-- In the fields of `ENRICH` it does not. -/
theorem inEnrichField_lineFeed (hkind : (inEnrichField modes cs).kind ≠ .error) :
    inEnrichField modes (cs ++ '\n' :: tail) = inEnrichField modes cs := by
  unfold inEnrichField at hkind
  split at hkind
  · rfl
  · rfl
  · rfl
  · exact parameter_lineFeed hne tail
  · rw [inEnrichField, inEnrichField]
    · exact pattern_lineFeed hkind tail
    all_goals first | assumption | exact head_ne hne ‹_›

/-- In `MV_EXPAND` it does not. -/
theorem inMvExpand_lineFeed (hkind : (inMvExpand modes cs).kind ≠ .error) :
    inMvExpand modes (cs ++ '\n' :: tail) = inMvExpand modes cs := by
  unfold inMvExpand at hkind
  split at hkind
  · rfl
  · exact parameter_lineFeed hne tail
  · exact quotedIdentifier_lineFeed hkind tail
  · rw [inMvExpand, inMvExpand]
    · exact word_lineFeed (Shape.identifier_le_length _) (Shape.identifier_lineFeed _ _) hkind
    all_goals first | assumption | exact head_ne hne ‹_›

/-- In a setting it does not. -/
theorem inSetting_lineFeed (hkind : (inSetting modes cs).kind ≠ .error) :
    inSetting modes (cs ++ '\n' :: tail) = inSetting modes cs := by
  unfold inSetting at hkind
  split at hkind
  · rfl
  · rfl
  · rw [inSetting, inSetting]
    · exact word_lineFeed (Shape.run_le_length _ _) (Shape.run_lineFeed rfl _ _) hkind
    all_goals first | assumption | exact head_ne hne ‹_›

/-- In `LOOKUP` it does not, the slash at the end of a source apart. -/
theorem inLookup_lineFeed (hslash : cs.drop (Shape.source cs) ≠ ['/'])
    (hkind : (inLookup modes cs).kind ≠ .error) :
    inLookup modes (cs ++ '\n' :: tail) = inLookup modes cs := by
  unfold inLookup at hkind
  split at hkind
  · rfl
  · rfl
  · exact quotedString_lineFeed hne hkind tail
  · rw [inLookup, inLookup]
    · exact word_lineFeed (Shape.source_le_length _) (Shape.source_lineFeed hslash _) hkind
    all_goals first | assumption | exact head_ne hne ‹_›

/-- In the fields of `LOOKUP` it does not. -/
theorem inLookupField_lineFeed (hkind : (inLookupField modes cs).kind ≠ .error) :
    inLookupField modes (cs ++ '\n' :: tail) = inLookupField modes cs := by
  unfold inLookupField at hkind
  split at hkind
  · rfl
  · rfl
  · rw [inLookupField, inLookupField]
    · exact pattern_lineFeed hkind tail
    all_goals first | assumption | exact head_ne hne ‹_›

/-- In `METRICS` it does not, the slash at the end of a source apart. -/
theorem inMetrics_lineFeed (hslash : cs.drop (Shape.source cs) ≠ ['/'])
    (hkind : (inMetrics modes cs).kind ≠ .error) :
    inMetrics modes (cs ++ '\n' :: tail) = inMetrics modes cs := by
  unfold inMetrics at hkind
  dsimp only at hkind
  split at hkind
  · rename_i rest
    have hliteral : (quotedString modes ('\x22' :: rest)).kind ≠ .error := by
      intro herror
      rw [if_pos herror] at hkind
      exact hkind herror
    have hsame := quotedString_lineFeed hne hliteral tail
    rw [List.cons_append] at hsame ⊢
    simp only [inMetrics, hsame]
  · rename_i hquote
    unfold inMetrics
    dsimp only
    split
    · rename_i heq
      exact (head_ne hne hquote _ heq).elim
    · exact word_lineFeed (Shape.source_le_length _) (Shape.source_lineFeed hslash _) hkind

/-- Behind the sources of `METRICS` it does not. -/
theorem inClosingMetrics_lineFeed (hkind : (inClosingMetrics modes cs).kind ≠ .error) :
    inClosingMetrics modes (cs ++ '\n' :: tail) = inClosingMetrics modes cs := by
  -- The first character is the same, so the first rules fail here as well.
  unfold inClosingMetrics at hkind
  dsimp only at hkind
  split at hkind
  · rfl
  · rfl
  · rename_i rest
    have hname : (quotedIdentifier modes ('\x60' :: rest)).kind ≠ .error := by
      intro herror
      rw [if_pos herror] at hkind
      exact hkind herror
    have hsame := quotedIdentifier_lineFeed hname tail
    rw [List.cons_append] at hsame ⊢
    simp only [inClosingMetrics, hsame]
  · rename_i hcolon hcomma hquote
    unfold inClosingMetrics
    dsimp only
    split
    · rename_i heq
      exact (head_ne hne hcolon _ heq).elim
    · rename_i heq
      exact (head_ne hne hcomma _ heq).elim
    · rename_i heq
      exact (head_ne hne hquote _ heq).elim
    · exact word_lineFeed (Shape.identifier_le_length _) (Shape.identifier_lineFeed _ _) hkind

end

/-- In `SHOW` it does not. -/
theorem inInfo_lineFeed (tail : List Char) (hkind : (inInfo modes cs).kind ≠ .error) :
    inInfo modes (cs ++ '\n' :: tail) = inInfo modes cs := by
  unfold inInfo at hkind
  split at hkind
  case isTrue h =>
    obtain ⟨hspells, hbehind⟩ := Bool.and_eq_true_iff.mp h
    have hlength := four_le_of_spells_info hspells
    rw [inInfo, inInfo, List.take_append_of_le_length hlength, Shape.drop_lineFeed hlength,
      Shape.startsWith_lineFeed rfl]
    rw [if_pos h, if_pos h]
  case isFalse => exact absurd rfl hkind

/-- In every mode the token at the start of a text ends in front of a line feed. Only the slash of
a source could take the line feed with it. -/
theorem inMode_lineFeed (hne : cs ≠ [])
    (hslash : hasSources modes.current = true → cs.drop (Shape.source cs) ≠ ['/'])
    (hkind : (inMode preview modes cs).kind ≠ .error) (tail : List Char) :
    inMode preview modes (cs ++ '\n' :: tail) = inMode preview modes cs := by
  unfold inMode at hkind ⊢
  generalize modes.current = mode at hkind hslash ⊢
  cases mode with
  | default => exact inDefault_lineFeed hne tail hkind
  | expression => exact inExpression_lineFeed hne tail hkind
  | explain => exact inExplain_lineFeed hne tail hkind
  | sources => exact inSources_lineFeed hne tail (hslash rfl) hkind
  | project => exact inProject_lineFeed hne tail hkind
  | rename => exact inRename_lineFeed hne tail hkind
  | enrich => exact inEnrich_lineFeed hne tail hkind
  | enrichField => exact inEnrichField_lineFeed hne tail hkind
  | mvExpand => exact inMvExpand_lineFeed hne tail hkind
  | info => exact inInfo_lineFeed tail hkind
  | setting => exact inSetting_lineFeed hne tail hkind
  | lookup => exact inLookup_lineFeed hne tail (hslash rfl) hkind
  | lookupField => exact inLookupField_lineFeed hne tail hkind
  | metrics => exact inMetrics_lineFeed hne tail (hslash rfl) hkind
  | closingMetrics => exact inClosingMetrics_lineFeed hne tail hkind

end Step

section

variable {preview : Bool} {modes : ModeStack} {cs : List Char}

open Step (hasSources)

/-- Behind a source no token begins with a slash at the end of the text. -/
theorem step_slash_behind (h : hasSources modes.current = true) (text : String) :
    (step preview (modes.behind (wordKind preview modes.current text)) ['/']).kind = .error := by
  -- A word of these modes may change the mode; the slash is looked at in the mode behind it.
  cases hmode : modes.current with
  | sources =>
      rw [ModeStack.behind_of_isSteady (by rw [hmode]; rfl) (wordKind_shifts _ _ _),
        step_eq_inMode _ _ rfl, Step.inMode, hmode]
      rfl
  | lookup =>
      obtain hon | hother : modes.behind (wordKind preview .lookup text) = modes.push .lookupField ∨
          modes.behind (wordKind preview .lookup text) = modes := by
        rw [wordKind]
        split
        · exact .inr (by simp [ModeStack.behind, hmode, Mode.entered, Mode.switched])
        · split
          · exact .inl (by simp [ModeStack.behind, hmode, Mode.entered])
          · exact .inr (by simp [ModeStack.behind, hmode, Mode.entered, Mode.switched])
      · -- Behind `ON` the words are patterns, and no slash begins one.
        have hpattern : Shape.pattern ['/'] = .whole 0 := Shape.pattern_stop rfl
        have hstep : Step.inMode preview (modes.push .lookupField) ['/'] =
            Step.pattern (modes.push .lookupField) ['/'] fun _ => .pattern := rfl
        rw [hon, step_eq_inMode _ _ rfl, hstep, Step.pattern, hpattern]
        rfl
      · rw [hother, step_eq_inMode _ _ rfl, Step.inMode, hmode]
        rfl
  | metrics =>
      have hswitched :
          (modes.behind (wordKind preview .metrics text)).current = .closingMetrics := by
        obtain ⟨above⟩ := modes
        cases above with
        | nil => cases hmode
        | cons frame above =>
            obtain ⟨mode, bracket⟩ := frame
            obtain rfl : mode = .metrics := hmode
            rfl
      rw [step_eq_inMode _ _ rfl, Step.inMode, hswitched]
      rfl
  | _ => rw [hmode] at h; cases h

/-- A source that is read with a token behind it does not end in a slash of its own. -/
theorem source_slash_free (hplain : plainStart cs = true) (hmode : hasSources modes.current = true)
    (hkind : (step preview modes cs).kind ≠ .error)
    (hnext : cs.drop (step preview modes cs).length ≠ [] →
      (step preview (step preview modes cs).modes (cs.drop (step preview modes cs).length)).kind ≠
        .error) : cs.drop (Shape.source cs) ≠ ['/'] := by
  intro hslash
  have hscan : scan modes.current cs = Shape.source cs := by
    cases hcurrent : modes.current <;> first | rfl | (rw [hcurrent] at hmode; cases hmode)
  rw [step_eq_inMode _ _ hplain] at hkind hnext
  by_cases hzero : Shape.source cs = 0
  · rw [hzero, List.drop_zero] at hslash
    subst hslash
    refine hkind ?_
    rw [Step.inMode]
    cases hcurrent : modes.current <;> first | rfl | (rw [hcurrent] at hmode; cases hmode)
  · rw [inMode_word (by rwa [hscan]), hscan] at hnext
    rw [Step.token_length, hslash] at hnext
    exact hnext (by simp) (step_slash_behind hmode _)

/-- Whether a blank or a comment starts is told by the first characters. -/
theorem plainStart_lineFeed (hne : cs ≠ []) (tail : List Char) :
    plainStart (cs ++ '\n' :: tail) = plainStart cs := by
  match cs, hne with
  | [c], _ => by_cases hslash : c = '/' <;> by_cases hpipe : c = '|' <;> simp [plainStart, *]
  | c :: d :: cs, _ =>
      by_cases hslash : c = '/' <;> by_cases hpipe : c = '|' <;> by_cases hslash' : d = '/' <;>
        by_cases hstar : d = '*' <;> simp [plainStart, *]

/-- All of a text that is blank is passed over, and a line feed behind it as well. -/
theorem run_blank_lineFeed (tail : List Char) :
    Shape.run Text.isBlank (cs ++ '\n' :: '|' :: tail) =
      if cs.all Text.isBlank then cs.length + 1 else Shape.run Text.isBlank cs := by
  induction cs with
  | nil => rfl
  | cons c cs ih =>
      rw [List.cons_append]
      simp only [Shape.run, List.takeWhile_cons, List.all_cons] at ih ⊢
      by_cases hc : Text.isBlank c = true
      · simp only [hc, if_true, List.length_cons, ih, Bool.true_and]
        split <;> rfl
      · simp [hc]

/-- The token at the start of a text ends in front of a line feed, blanks and line comments at the
end of the text apart, which take the line feed with them. -/
theorem step_lineFeed (hne : cs ≠ []) (hkind : (step preview modes cs).kind ≠ .error)
    (hnext : cs.drop (step preview modes cs).length ≠ [] →
      (step preview (step preview modes cs).modes (cs.drop (step preview modes cs).length)).kind ≠
        .error) (tail : List Char) :
    step preview modes (cs ++ '\n' :: '|' :: tail) = step preview modes cs ∨
      ∃ kind, kind.isTrivia = true ∧ step preview modes cs = .token modes kind cs.length ∧
        step preview modes (cs ++ '\n' :: '|' :: tail) = .token modes kind (cs.length + 1) := by
  cases hplain : plainStart cs with
  | true =>
      have hplain' := plainStart_lineFeed hne ('|' :: tail)
      rw [hplain] at hplain'
      have hslash := fun hmode => source_slash_free hplain hmode hkind hnext
      rw [step_eq_inMode _ _ hplain] at hkind ⊢
      rw [step_eq_inMode _ _ hplain']
      exact .inl (Step.inMode_lineFeed hne hslash hkind _)
  | false =>
      unfold plainStart at hplain
      split at hplain
      · -- A line comment ends in front of the first line feed, which may be the new one.
        rename_i rest
        have hlength := Text.lineCommentLength_lineFeed ('/' :: '/' :: rest) ('|' :: tail)
        simp only [step, List.cons_append] at hlength ⊢
        by_cases hmem : '\n' ∈ '/' :: '/' :: rest
        · rw [if_pos hmem] at hlength
          exact .inl (by rw [hlength])
        · rw [if_neg hmem] at hlength
          exact .inr ⟨.lineComment, rfl, by rw [Text.lineCommentLength_of_notMem hmem],
            by rw [hlength]⟩
      · -- A block comment that is closed has its end in the text.
        rename_i rest
        simp only [step, List.cons_append, Step.blockComment] at hkind ⊢
        cases hlength : Text.blockCommentLength? ('/' :: '*' :: rest) with
        | none => rw [hlength] at hkind; exact absurd rfl hkind
        | some length =>
            rw [Text.blockCommentLength?_eq] at hlength
            have := Text.blockCommentEnd?_append hlength ('\n' :: '|' :: tail)
            simp only [Text.blockCommentLength?_eq, List.cons_append] at this ⊢
            rw [this]
            exact .inl rfl
      · exact .inl rfl
      · -- Blanks go on over the line feed if there is nothing else in the text.
        have hblank : Shape.startsWith Text.isBlank cs = true := by simpa using hplain
        have hblank' : Shape.startsWith Text.isBlank (cs ++ '\n' :: '|' :: tail) = true := by
          cases cs with
          | nil => exact absurd rfl hne
          | cons c cs => exact hblank
        have hrun : Shape.run Text.isBlank (cs ++ '\n' :: '|' :: tail) = _ :=
          run_blank_lineFeed tail
        rw [step_blank _ _ hblank, step_blank _ _ hblank']
        by_cases hall : cs.all Text.isBlank = true
        · rw [if_pos hall] at hrun
          have hcs : Shape.run Text.isBlank cs = cs.length := by
            rw [Shape.run, List.takeWhile_eq_self_iff.mpr (List.all_eq_true.mp hall)]
          exact .inr ⟨.whitespace, rfl, by rw [hcs], by rw [hrun]⟩
        · rw [if_neg hall] at hrun
          exact .inl (by rw [hrun])

end

end Token

end PipeQuery
