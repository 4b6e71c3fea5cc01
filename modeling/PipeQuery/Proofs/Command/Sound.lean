import PipeQuery.Proofs.Command.Part

/-!
# `PipeQuery.Proofs.Command.Sound`: a command that is read without a report is in the grammar

Each reader of a command takes its verb, reads the parts behind it and makes the command of them at
the span of all that was taken. `ReadsVerb` says that for a clean state, and there is one lemma for
each verb. `EXPLAIN` reads a pipeline, so its lemma comes with the pipelines, in
`PipeQuery.Proofs.Command.Pipeline`.
-/

set_option autoImplicit false

namespace PipeQuery.Parser

variable {α : Type} {c : Context} {s s' : State} {sub : Nat → Parse Expr}

/-- From `s` to a clean `s'`, a verb and a body of it were read, which made the command. -/
def ReadsVerb (item : List Lexeme → Command → Prop) (verb : Verb) (l : Lexeme) (s : State)
    (command : Command) (s' : State) : Prop :=
  s'.IsClean → ∃ w make, Moves s (l :: w) s' ∧ IsBody item verb w make ∧
    command = make (spanOver l.token.span (l :: w))

section

variable {item : List Lexeme → Command → Prop} {l : Lexeme} {rest : List Lexeme}
  {command : Command}

/-- Every command begins by taking its verb. -/
theorem verb_ok (hrest : s.rest = l :: rest) {k : Token → Parse α} {a : α}
    (h : (do let t ← advance; k t) c s = (.ok a, s')) :
    ∃ s₁, Moves s [l] s₁ ∧ k l.token c s₁ = (.ok a, s') := by
  obtain ⟨t, s₁, hadvance, h⟩ := bind_ok.mp h
  obtain ⟨rfl, hmoves⟩ := advance_ok hrest hadvance
  exact ⟨s₁, hmoves, h⟩

/-- Every command ends by taking its span. -/
theorem ReadsVerb.of {verb : Verb} {s₁ s₂ : State} {w : List Lexeme} {make : Span → Command}
    (hverb : Moves s [l] s₂) (hmoves : Moves s₂ w s₁)
    (h : (do return make (← spanFrom l.token.span)) c s₁ = (.ok command, s'))
    (hbody : s₁.IsClean → IsBody item verb w make) : ReadsVerb item verb l s command s' := by
  simp only [bind_ok, pure_ok, spanFrom_ok] at h
  obtain ⟨_, _, ⟨rfl, rfl⟩, rfl, rfl⟩ := h
  have hall := hverb.trans hmoves
  refine fun hclean => ⟨w, make, hall, hbody hclean, ?_⟩
  rw [hall.prevEnd_eq, spanFrom_eq (by simp)]
  rfl

/-- A `FROM` that left a clean state was read off its sources and its metadata. -/
theorem fromCommand_ok (hend : c.endToken.kind = .eof) (herr : c.errorStarts = [])
    (hrest : s.rest = l :: rest) (h : fromCommand c s = (.ok command, s')) :
    ReadsVerb item .«from» l s command s' := by
  obtain ⟨s₁, hmoves, h⟩ := verb_ok hrest h
  obtain ⟨sources, s₂, hsources, h⟩ := bind_ok.mp h
  obtain ⟨m, s₃, hmetadata, h⟩ := bind_ok.mp h
  obtain ⟨w, hmoves₁, hall⟩ := indexPatterns_ok hend herr hsources
  obtain ⟨w', hmoves₂, hmetadata⟩ := metadata_ok hend hmetadata
  exact .of hmoves (hmoves₁.trans hmoves₂) h
    fun hclean => .«from» (hall (hmoves₂.isClean hclean)) hmetadata

/-- A `ROW` was read off its assignments. -/
theorem rowCommand_ok (hend : c.endToken.kind = .eof) (hsub : ReadsAll c sub)
    (hrest : s.rest = l :: rest) (h : rowCommand sub c s = (.ok command, s')) :
    ReadsVerb item .row l s command s' := by
  obtain ⟨s₁, hmoves, h⟩ := verb_ok hrest h
  obtain ⟨fields, s₂, hfields, h⟩ := bind_ok.mp h
  obtain ⟨w, hmoves₁, hall⟩ := assignments_ok hend hsub hfields
  exact .of hmoves hmoves₁ h fun _ => .row hall

/-- A `SHOW` was read off its word. -/
theorem showCommand_ok (hrest : s.rest = l :: rest) (h : showCommand c s = (.ok command, s')) :
    ReadsVerb item .«show» l s command s' := by
  obtain ⟨s₁, hmoves, h⟩ := verb_ok hrest h
  obtain ⟨t, s₂, hexpect, h⟩ := bind_ok.mp h
  obtain ⟨info, hinfo, -, hmoves₁⟩ := expect_ok (by simp) hexpect
  exact .of hmoves hmoves₁ h fun _ => .showInfo hinfo

/-- A `METRICS` was read off its sources, its aggregations and its groupings. -/
theorem metricsCommand_ok (hend : c.endToken.kind = .eof) (herr : c.errorStarts = [])
    (hsub : ReadsAll c sub) (hrest : s.rest = l :: rest)
    (h : metricsCommand sub c s = (.ok command, s')) : ReadsVerb item .metrics l s command s' := by
  obtain ⟨s₁, hmoves, h⟩ := verb_ok hrest h
  obtain ⟨sources, s₂, hsources, h⟩ := bind_ok.mp h
  obtain ⟨parts, s₃, hparts, h⟩ := bind_ok.mp h
  obtain ⟨w, hmoves₁, hall⟩ := indexPatterns_ok hend herr hsources
  obtain ⟨w', hmoves₂, hparts⟩ := statsParts_ok hend hsub hparts
  exact .of hmoves (hmoves₁.trans hmoves₂) h
    fun hclean => .metrics (hall (hmoves₂.isClean hclean)) hparts

/-- An `EVAL` was read off its assignments. -/
theorem evalCommand_ok (hend : c.endToken.kind = .eof) (hsub : ReadsAll c sub)
    (hrest : s.rest = l :: rest) (h : evalCommand sub c s = (.ok command, s')) :
    ReadsVerb item .eval l s command s' := by
  obtain ⟨s₁, hmoves, h⟩ := verb_ok hrest h
  obtain ⟨fields, s₂, hfields, h⟩ := bind_ok.mp h
  obtain ⟨w, hmoves₁, hall⟩ := assignments_ok hend hsub hfields
  exact .of hmoves hmoves₁ h fun _ => .eval hall

/-- A `WHERE` was read off its condition. -/
theorem whereCommand_ok (hsub : ReadsAll c sub) (hrest : s.rest = l :: rest)
    (h : whereCommand sub c s = (.ok command, s')) : ReadsVerb item .«where» l s command s' := by
  obtain ⟨s₁, hmoves, h⟩ := verb_ok hrest h
  obtain ⟨e, s₂, he, h⟩ := bind_ok.mp h
  obtain ⟨w, hmoves₁, hderives⟩ := (hsub (Nat.zero_le _) he).derives .disjunction (Nat.le_refl 1)
  exact .of hmoves hmoves₁ h fun _ => .«where» hderives

/-- A `STATS` was read off its two parts, and one of them is there. -/
theorem statsCommand_ok (hend : c.endToken.kind = .eof) (herr : c.errorStarts = [])
    (hsub : ReadsAll c sub) (hrest : s.rest = l :: rest)
    (h : statsCommand sub c s = (.ok command, s')) : ReadsVerb item .stats l s command s' := by
  obtain ⟨s₁, hmoves, h⟩ := verb_ok hrest h
  obtain ⟨⟨aggregations, groupings⟩, s₂, hparts, h⟩ := bind_ok.mp h
  obtain ⟨w, hmoves₁, hparts⟩ := statsParts_ok hend hsub hparts
  obtain ⟨s₃, hmoves₂, hne, h⟩ := reportIf_ok h
  refine .of hmoves (hmoves₁.trans hmoves₂) h fun hclean => ?_
  rw [List.append_nil]
  refine .stats hparts ?_
  rcases Bool.and_eq_false_iff.mp (hne herr hclean) with hne | hne
  · exact .inl (by simpa using hne)
  · exact .inr (by simpa using hne)

/-- An `INLINESTATS` was read off its two parts, and the aggregations are there. -/
theorem inlineStatsCommand_ok (hend : c.endToken.kind = .eof) (herr : c.errorStarts = [])
    (hsub : ReadsAll c sub) (hrest : s.rest = l :: rest)
    (h : inlineStatsCommand sub c s = (.ok command, s')) :
    ReadsVerb item .inlineStats l s command s' := by
  obtain ⟨s₁, hmoves, h⟩ := verb_ok hrest h
  obtain ⟨⟨aggregations, groupings⟩, s₂, hparts, h⟩ := bind_ok.mp h
  obtain ⟨w, hmoves₁, hparts⟩ := statsParts_ok hend hsub hparts
  obtain ⟨s₃, hmoves₂, hne, h⟩ := reportIf_ok h
  refine .of hmoves (hmoves₁.trans hmoves₂) h fun hclean => ?_
  rw [List.append_nil]
  exact .inlineStats hparts (by simpa using hne herr hclean)

/-- A `SORT` was read off its keys. -/
theorem sortCommand_ok (hsub : ReadsAll c sub) (hrest : s.rest = l :: rest)
    (h : sortCommand sub c s = (.ok command, s')) : ReadsVerb item .sort l s command s' := by
  obtain ⟨s₁, hmoves, h⟩ := verb_ok hrest h
  obtain ⟨keys, s₂, hkeys, h⟩ := bind_ok.mp h
  obtain ⟨w, hmoves₁, hall⟩ := separated_clean (R := IsSortKey) (by simp) (fun h => by
    obtain ⟨w, hmoves, hkey⟩ := sortKey_ok hsub h
    exact ⟨w, hmoves, fun _ => hkey⟩) hkeys
  exact .of hmoves hmoves₁ h fun hclean => .sort (hall hclean)

/-- A `LIMIT` was read off its number. -/
theorem limitCommand_ok (hrest : s.rest = l :: rest)
    (h : limitCommand c s = (.ok command, s')) : ReadsVerb item .limit l s command s' := by
  obtain ⟨s₁, hmoves, h⟩ := verb_ok hrest h
  obtain ⟨t, s₂, hexpect, h⟩ := bind_ok.mp h
  obtain ⟨count, hcount, rfl, hmoves₁⟩ := expect_ok (by simp) hexpect
  cases hvalue : integerValue count.token with
  | none =>
      rw [hvalue] at h
      simp only [bind_ok, stop_ok, and_false, exists_false] at h
  | some value =>
      rw [hvalue] at h
      obtain ⟨rfl, hfits⟩ := bounded_eq_some.mp hvalue
      exact .of hmoves hmoves₁ h fun _ => .limit hcount hfits

/-- A `KEEP` was read off its patterns. -/
theorem keepCommand_ok (hend : c.endToken.kind = .eof) (hrest : s.rest = l :: rest)
    (h : keepCommand c s = (.ok command, s')) : ReadsVerb item .keep l s command s' := by
  obtain ⟨s₁, hmoves, h⟩ := verb_ok hrest h
  obtain ⟨fields, s₂, hfields, h⟩ := bind_ok.mp h
  obtain ⟨w, hmoves₁, hall⟩ := fieldPatterns_ok hend hfields
  exact .of hmoves hmoves₁ h fun _ => .keep hall

/-- To refuse stars takes no lexemes. They are reported, so in a clean state there is none among the
patterns. -/
theorem refuseStars_ok {fields : List FieldPattern} {u : Unit}
    (h : refuseStars fields c s = (.ok u, s')) :
    Moves s [] s' ∧
      (c.errorStarts = [] → s'.IsClean → ∀ field ∈ fields, field.isStar = false) := by
  induction fields generalizing s with
  | nil =>
      obtain ⟨-, rfl⟩ := pure_ok.mp h
      exact ⟨.refl s, fun _ _ field hmem => absurd hmem List.not_mem_nil⟩
  | cons field fields ih =>
      rw [refuseStars] at h
      obtain ⟨s₁, hmoves, hstar, h⟩ := reportIf_ok h
      obtain ⟨hmoves', hall⟩ := ih h
      refine ⟨hmoves.trans hmoves', fun herr hclean field' hmem => ?_⟩
      rcases List.mem_cons.mp hmem with rfl | hmem
      · exact hstar herr (hmoves'.isClean hclean)
      · exact hall herr hclean field' hmem

/-- A `DROP` was read off its patterns, and no star is among them. -/
theorem dropCommand_ok (hend : c.endToken.kind = .eof) (herr : c.errorStarts = [])
    (hrest : s.rest = l :: rest) (h : dropCommand c s = (.ok command, s')) :
    ReadsVerb item .drop l s command s' := by
  obtain ⟨s₁, hmoves, h⟩ := verb_ok hrest h
  obtain ⟨fields, s₂, hfields, h⟩ := bind_ok.mp h
  obtain ⟨u, s₃, hrefuse, h⟩ := bind_ok.mp h
  obtain ⟨w, hmoves₁, hall⟩ := fieldPatterns_ok hend hfields
  obtain ⟨hmoves₂, hstar⟩ := refuseStars_ok hrefuse
  refine .of hmoves (hmoves₁.trans hmoves₂) h fun hclean => ?_
  rw [List.append_nil]
  exact .drop hall (hstar herr hclean)

/-- A `RENAME` was read off its clauses. -/
theorem renameCommand_ok (hend : c.endToken.kind = .eof) (herr : c.errorStarts = [])
    (hrest : s.rest = l :: rest) (h : renameCommand c s = (.ok command, s')) :
    ReadsVerb item .rename l s command s' := by
  obtain ⟨s₁, hmoves, h⟩ := verb_ok hrest h
  obtain ⟨clauses, s₂, hclauses, h⟩ := bind_ok.mp h
  obtain ⟨w, hmoves₁, hall⟩ := separated_clean (by simp) (renameClause_ok hend herr) hclauses
  exact .of hmoves hmoves₁ h fun hclean => .rename (hall hclean)

/-- A `DISSECT` was read off its input, its pattern and its options. -/
theorem dissectCommand_ok (hend : c.endToken.kind = .eof) (herr : c.errorStarts = [])
    (hsub : ReadsAll c sub) (hrest : s.rest = l :: rest)
    (h : dissectCommand sub c s = (.ok command, s')) : ReadsVerb item .dissect l s command s' := by
  obtain ⟨s₁, hmoves, h⟩ := verb_ok hrest h
  obtain ⟨input, s₂, hinput, h⟩ := bind_ok.mp h
  obtain ⟨pattern, s₃, hpattern, h⟩ := bind_ok.mp h
  obtain ⟨options, s₄, hoptions, h⟩ := bind_ok.mp h
  obtain ⟨w, hmoves₁, hderives⟩ := primary_ok hend hsub hinput
  obtain ⟨l', hl', rfl, hmoves₂⟩ := stringLiteral_ok hpattern
  obtain ⟨w', hmoves₃, hoptions⟩ := dissectOptions_ok hend herr hsub hoptions
  exact .of hmoves (hmoves₁.trans (hmoves₂.trans hmoves₃)) h
    fun hclean => .dissect hderives hl' (hoptions hclean)

/-- A `GROK` was read off its input and its pattern. -/
theorem grokCommand_ok (hend : c.endToken.kind = .eof) (hsub : ReadsAll c sub)
    (hrest : s.rest = l :: rest) (h : grokCommand sub c s = (.ok command, s')) :
    ReadsVerb item .grok l s command s' := by
  obtain ⟨s₁, hmoves, h⟩ := verb_ok hrest h
  obtain ⟨input, s₂, hinput, h⟩ := bind_ok.mp h
  obtain ⟨pattern, s₃, hpattern, h⟩ := bind_ok.mp h
  obtain ⟨w, hmoves₁, hderives⟩ := primary_ok hend hsub hinput
  obtain ⟨l', hl', rfl, hmoves₂⟩ := stringLiteral_ok hpattern
  exact .of hmoves (hmoves₁.trans hmoves₂) h fun _ => .grok hderives hl'

/-- An `MV_EXPAND` was read off its name. -/
theorem mvExpandCommand_ok (hend : c.endToken.kind = .eof) (hrest : s.rest = l :: rest)
    (h : mvExpandCommand c s = (.ok command, s')) : ReadsVerb item .mvExpand l s command s' := by
  obtain ⟨s₁, hmoves, h⟩ := verb_ok hrest h
  obtain ⟨field, s₂, hfield, h⟩ := bind_ok.mp h
  obtain ⟨w, hfield, hmoves₁⟩ := fieldName_ok hend hfield
  exact .of hmoves hmoves₁ h fun _ => .mvExpand hfield

/-- A `MATCH` was read off its text. -/
theorem matchCommand_ok (hrest : s.rest = l :: rest) (h : matchCommand c s = (.ok command, s')) :
    ReadsVerb item .«match» l s command s' := by
  obtain ⟨s₁, hmoves, h⟩ := verb_ok hrest h
  obtain ⟨query, s₂, hquery, h⟩ := bind_ok.mp h
  obtain ⟨l', hl', rfl, hmoves₁⟩ := stringLiteral_ok hquery
  exact .of hmoves hmoves₁ h fun _ => .«match» hl'

/-- An `ENRICH` was read off its settings, its policy and the clauses behind it. -/
theorem enrichCommand_ok (hend : c.endToken.kind = .eof) (herr : c.errorStarts = [])
    (hrest : s.rest = l :: rest) (h : enrichCommand c s = (.ok command, s')) :
    ReadsVerb item .enrich l s command s' := by
  obtain ⟨s₁, hmoves, h⟩ := verb_ok hrest h
  obtain ⟨_, _, hremaining, h⟩ := bind_ok.mp h
  obtain ⟨rfl, rfl⟩ := look_ok.mp hremaining
  obtain ⟨given, s₂, hsettings, h⟩ := bind_ok.mp h
  obtain ⟨name, s₃, hpolicy, h⟩ := bind_ok.mp h
  obtain ⟨w, hmoves₁, hsettings, -⟩ := settings_ok herr hsettings
  obtain ⟨l', hmoves₂, hpolicy⟩ := policy_ok herr hpolicy
  -- The added fields, behind the field that rows are matched on.
  have hfields : ∀ {on w₁ s₄}, Moves s₃ w₁ s₄ → IsMatchField w₁ on → (do
      if ← eat (.keyword .«with») then
        let fields ← separated .comma enrichField
        return Command.enrich given name on fields (← spanFrom l.token.span)
      else
        let fields ← pure []
        return Command.enrich given name on fields (← spanFrom l.token.span)) c s₄ =
        (.ok command, s') → ReadsVerb item .enrich l s command s' := by
    intro on w₁ s₄ hmoves₃ hon h
    obtain ⟨fields, w₂, s₅, hmoves₄, hclause, h⟩ :=
      clause_ok (separated_clean (by simp) (enrichField_ok hend herr)) h
    have hmoves₅ := hmoves₃.trans hmoves₄
    refine .of hmoves (hmoves₁.trans (hmoves₂.trans hmoves₅)) h fun hclean => ?_
    have hclean₃ := hmoves₅.isClean hclean
    show IsBody item .enrich (w ++ l' :: (w₁ ++ w₂)) _
    exact .enrich (hsettings (hmoves₂.isClean hclean₃) rfl) (hpolicy hclean₃) hon (hclause hclean)
  rw [bind_ok] at h
  obtain ⟨b, s₄, heat, h⟩ := h
  rcases eat_ok (by simp) heat with ⟨rfl, word, hword, hmoves₃⟩ | ⟨rfl, -, rfl⟩
  · simp only [if_true] at h
    rw [bind_ok] at h
    obtain ⟨on, s₅, hon, h⟩ := h
    obtain ⟨field, _, hfield, heq⟩ := bind_ok.mp hon
    obtain ⟨rfl, rfl⟩ := pure_ok.mp heq
    obtain ⟨w₁, hfield, hmoves₄⟩ := fieldPattern_ok hend hfield
    exact hfields (hmoves₃.trans hmoves₄) (.present hword hfield) h
  · exact hfields (.refl _) .absent h

/-- A `LOOKUP` was read off its join, its source and its fields. -/
theorem lookupCommand_ok (hend : c.endToken.kind = .eof) (herr : c.errorStarts = [])
    (hrest : s.rest = l :: rest) (h : lookupCommand c s = (.ok command, s')) :
    ReadsVerb item .lookup l s command s' := by
  obtain ⟨s₁, hmoves, h⟩ := verb_ok hrest h
  simp only [current, peekSecond] at h
  obtain ⟨_, _, hlook, h⟩ := bind_ok.mp h
  obtain ⟨rfl, rfl⟩ := look_ok.mp hlook
  obtain ⟨_, _, hlook, h⟩ := bind_ok.mp h
  obtain ⟨rfl, rfl⟩ := look_ok.mp hlook
  -- The table and the fields, behind the word `JOIN`.
  have htable : ∀ {join j s₂}, Moves s₁ j s₂ → IsJoin j join → (do
      let table ← indexPattern
      let _ ← expect (.keyword .on) "ON"
      let matchFields ← fieldPatterns
      return Command.lookup table matchFields join (← spanFrom l.token.span)) c s₂ =
        (.ok command, s') → ReadsVerb item .lookup l s command s' := by
    intro join j s₂ hmoves₁ hjoin h
    obtain ⟨table, s₃, htable, h⟩ := bind_ok.mp h
    obtain ⟨t, s₄, hexpect, h⟩ := bind_ok.mp h
    obtain ⟨fields, s₅, hfields, h⟩ := bind_ok.mp h
    obtain ⟨w, hmoves₂, htable⟩ := indexPattern_ok hend herr htable
    obtain ⟨on, hon, -, hmoves₃⟩ := expect_ok (by simp) hexpect
    obtain ⟨w', hmoves₄, hall⟩ := fieldPatterns_ok hend hfields
    have hmoves₅ := hmoves₃.trans hmoves₄
    exact .of hmoves (hmoves₁.trans (hmoves₂.trans hmoves₅)) h
      fun hclean => .lookup hjoin (htable (hmoves₅.isClean hclean)) hon hall
  split at h
  case isTrue hjoin =>
    obtain ⟨t, s₂, hadvance, hread⟩ := bind_ok.mp h
    simp only [Bool.and_eq_true, decide_eq_true_eq] at hjoin
    obtain ⟨word, rest', hrest', hword, heq⟩ := current_eq hend hjoin.1.1 (by simp)
    obtain ⟨rfl, hmoves₁⟩ := advance_ok hrest' hadvance
    refine htable hmoves₁ (.present hword (heq ▸ hjoin.1.2)) ?_
    simpa only [hjoin, decide_true, Bool.true_and] using hread
  case isFalse hjoin =>
    refine htable (.refl s₁) .absent ?_
    rw [Bool.not_eq_true] at hjoin
    rwa [hjoin] at h

end

end PipeQuery.Parser
