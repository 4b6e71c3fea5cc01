import PipeQuery.Proofs.Token.Taking

/-!
# `PipeQuery.Proofs.Token.LineFeed`: words in front of a line feed

No word, pattern, number or source goes on over a line feed, and no comment or literal that is
closed depends on what stands behind it. So the scanners find the same in a text and in the text
with a line feed and more behind it, even at the end of the text. The one exception is a source
with a slash at its end, which would take the line feed with it.
-/

set_option autoImplicit false

namespace PipeQuery

namespace Token.Shape

/-- A line feed behind a text does not change what begins it, unless it begins something itself. -/
theorem startsWith_lineFeed {p : Char → Bool} (hp : p '\n' = false) (cs tail : List Char) :
    startsWith p (cs ++ '\n' :: tail) = startsWith p cs := by
  cases cs with
  | nil => exact hp
  | cons c cs => rfl

/-- Characters are taken up to the line feed as to the end. -/
theorem takeWhile_lineFeed {p : Char → Bool} (hp : p '\n' = false) (cs tail : List Char) :
    (cs ++ '\n' :: tail).takeWhile p = cs.takeWhile p := by
  induction cs with
  | nil => simp [hp]
  | cons c cs ih => rw [List.cons_append, List.takeWhile_cons, List.takeWhile_cons, ih]

/-- A run ends at a line feed as at the end. -/
theorem run_lineFeed {p : Char → Bool} (hp : p '\n' = false) (cs tail : List Char) :
    run p (cs ++ '\n' :: tail) = run p cs := by
  rw [run, takeWhile_lineFeed hp, run]

/-- To drop characters of the text leaves the line feed. -/
theorem drop_lineFeed {cs : List Char} {n : Nat} (hn : n ≤ cs.length) (tail : List Char) :
    (cs ++ '\n' :: tail).drop n = cs.drop n ++ '\n' :: tail :=
  List.drop_append_of_le_length hn

/-- A word behind a sigil ends at a line feed. -/
theorem sigilWord_lineFeed {p : Char → Bool} (hp : p '\n' = false) (cs tail : List Char) :
    sigilWord p (cs ++ '\n' :: tail) = sigilWord p cs := by
  have hdrop := drop_lineFeed (run_le_length isSigil cs) tail
  rw [run] at hdrop
  simp only [sigilWord, takeWhile_lineFeed (show isSigil '\n' = false from rfl), hdrop,
    startsWith_lineFeed hp, run_lineFeed hp]

/-- An identifier ends at a line feed. -/
theorem identifier_lineFeed (cs tail : List Char) :
    identifier (cs ++ '\n' :: tail) = identifier cs := by
  cases cs with
  | nil => exact sigilWord_lineFeed (p := isNameChar) rfl [] tail
  | cons c cs =>
      have hsigil := sigilWord_lineFeed (p := isNameChar) rfl (c :: cs) tail
      rw [List.cons_append] at hsigil
      rw [List.cons_append, identifier, identifier, run_lineFeed rfl, hsigil]

/-- A bare part of a pattern ends at a line feed. -/
theorem barePart_lineFeed (cs tail : List Char) :
    barePart (cs ++ '\n' :: tail) = barePart cs := by
  cases cs with
  | nil => exact sigilWord_lineFeed (p := isPatternChar) rfl [] tail
  | cons c cs =>
      have hsigil := sigilWord_lineFeed (p := isPatternChar) rfl (c :: cs) tail
      rw [List.cons_append] at hsigil
      rw [List.cons_append, barePart, barePart, run_lineFeed rfl, hsigil]

/-- The name or number of a parameter ends at a line feed. -/
theorem parameter_lineFeed (cs tail : List Char) :
    parameter (cs ++ '\n' :: tail) = parameter cs := by
  rw [parameter, parameter, startsWith_lineFeed rfl, run_lineFeed rfl, run_lineFeed rfl]

/-- A policy ends at a line feed. -/
theorem policy_lineFeed (cs tail : List Char) : policy (cs ++ '\n' :: tail) = policy cs := by
  have hdrop := drop_lineFeed (run_le_length isPolicyChar cs) tail
  simp only [policy, run_lineFeed (show isPolicyChar '\n' = false from rfl), hdrop]
  generalize cs.drop (run isPolicyChar cs) = behind
  cases behind with
  | nil => rfl
  | cons c behind =>
      rw [List.cons_append]
      by_cases hc : c = ':'
      · subst hc
        simp only [startsWith_lineFeed (show isPolicyChar '\n' = false from rfl),
          run_lineFeed (show isPolicyChar '\n' = false from rfl)]
      · simp [hc]

/-- A number ends at a line feed. -/
theorem number_lineFeed (cs tail : List Char) : number (cs ++ '\n' :: tail) = number cs := by
  -- A line feed is neither a digit nor a part of a fraction or an exponent.
  have hfraction : ∀ n cs, fraction n (cs ++ '\n' :: tail) = fraction n cs := by
    intro n cs
    cases cs with
    | nil => rfl
    | cons c cs =>
        rw [List.cons_append]
        by_cases hc : c = '.'
        · subst hc
          simp only [fraction, startsWith_lineFeed (show Char.isDigit '\n' = false from rfl),
            run_lineFeed (show Char.isDigit '\n' = false from rfl)]
        · simp [fraction, hc]
  have hexponent : ∀ cs, exponent (cs ++ '\n' :: tail) = exponent cs := by
    intro cs
    rcases cs with _ | ⟨e, _ | ⟨sign, cs⟩⟩
    · cases tail <;> rfl
    · simp [exponent]
    · simp only [List.cons_append, exponent,
        startsWith_lineFeed (show Char.isDigit '\n' = false from rfl),
        run_lineFeed (show Char.isDigit '\n' = false from rfl)]
  have hdigits := run_le_length Char.isDigit cs
  have hlength := number_length_le cs
  simp only [Number.length, number] at hlength
  simp only [number, run_lineFeed (show Char.isDigit '\n' = false from rfl), drop_lineFeed hdigits,
    hfraction]
  rw [drop_lineFeed (by omega), hexponent]

/-- A line feed carries nothing on, so a text begins alike in front of it. -/
theorem sameStart_lineFeed {more : Char → Bool} (hmore : more '\n' = false) (cs tail : List Char) :
    SameStart more cs (cs ++ '\n' :: tail) := by
  cases cs with
  | nil => exact .inr hmore
  | cons c cs => exact .inl rfl

/-- The first part of a pattern, if it is closed. -/
theorem patternPart?_lineFeed {cs : List Char} {n : Nat} (h : patternPart? cs = some n)
    (tail : List Char) : patternPart? (cs ++ '\n' :: tail) = some n := by
  have hle := patternPart?_le_length h
  by_cases hn : n = 0
  · subst hn
    unfold patternPart? at h ⊢
    rw [startsWith_lineFeed (by rfl)]
    split at h
    · simp [Text.Backquoted.length?] at h
    · rename_i hquote
      rw [if_neg hquote, barePart_lineFeed, h]
  · have hpart : cs.take n ≠ [] := by
      intro hnil
      rcases List.take_eq_nil_iff.mp hnil with hzero | rfl
      · exact hn hzero
      · exact hn (Nat.le_zero.mp hle)
    have hlen := List.length_take_of_le hle
    have hsplit : patternPart? (cs.take n ++ cs.drop n) = some (cs.take n).length := by
      rw [List.take_append_drop, hlen, h]
    have := patternPart?_sameStart hpart (sameStart_lineFeed rfl (cs.drop n) tail) hsplit
    rwa [← List.append_assoc, List.take_append_drop, hlen] at this

/-- A pattern that was whole ends at a line feed. -/
theorem pattern_lineFeed {cs : List Char} {n : Nat} (h : pattern cs = .whole n)
    (tail : List Char) : pattern (cs ++ '\n' :: tail) = .whole n := by
  induction hk : cs.length using Nat.strong_induction_on generalizing cs n with
  | _ k ih =>
      by_cases hn : n = 0
      · subst hn
        -- No part begins here, and none does in front of a line feed.
        have hpart : patternPart? cs = some 0 := by
          rw [pattern] at h
          split at h
          · cases h
          · assumption
          · split at h
            · simp [patternPart?, barePart] at *
            · split at h
              · cases h
              · exact absurd (Pattern.whole.inj h) (by omega)
        have hpart' := patternPart?_lineFeed hpart tail
        rw [pattern, hpart']
      · obtain ⟨part, rest, more, hpart, rfl, hnext, hmore, rfl⟩ := of_pattern_whole h hn
        have hshort : rest.length < k := by
          rw [← hk, List.length_append]
          have := List.length_pos_iff.mpr hpart
          omega
        have hrest := ih _ hshort hmore rfl
        have hnext' := patternPart?_sameStart hpart (sameStart_lineFeed rfl rest tail) hnext
        rw [List.append_assoc, pattern_append hpart hnext', hrest]

/-- Any character but a slash is taken alone. -/
theorem source_cons {c : Char} (hc : c ≠ '/') (rest : List Char) :
    source (c :: rest) = if endsSource c then 0 else source rest + 1 := by
  rw [source]
  · exact fun h => absurd h hc
  · exact fun _ _ h => absurd h hc

/-- A source ends in front of a line feed, unless a slash takes the line feed with it. -/
theorem source_lineFeed {cs : List Char} (h : cs.drop (source cs) ≠ ['/']) (tail : List Char) :
    source (cs ++ '\n' :: tail) = source cs := by
  induction cs using source.induct with
  | case1 => cases tail <;> rfl
  | case2 => exact absurd rfl h
  | case3 c rest hc => simp [source, hc]
  | case4 c rest hc ih =>
      rw [source, if_neg hc] at h ⊢
      rw [List.cons_append, List.cons_append, source, if_neg hc, ih h]
  | case5 c rest hslash hslash' hc =>
      have hne := not_slash hslash hslash'
      rw [List.cons_append, source_cons hne, source_cons hne, if_pos hc, if_pos hc]
  | case6 c rest hslash hslash' hc ih =>
      have hne := not_slash hslash hslash'
      rw [source_cons hne, if_neg hc] at h ⊢
      rw [List.cons_append, source_cons hne, if_neg hc, ih h]
where
  not_slash {c : Char} {rest : List Char} (h : c = '/' → rest = [] → False)
      (h' : ∀ d rest', c = '/' → rest = d :: rest' → False) : c ≠ '/' := by
    intro hc
    cases rest with
    | nil => exact h hc rfl
    | cons d rest => exact h' d rest hc rfl

end Token.Shape

/-! ### Literals and comments -/

namespace Text

/-- A quoted name that was closed stays as long when a line feed follows. -/
theorem Backquoted.length?_lineFeed {cs : List Char} {n : Nat}
    (h : Backquoted.length? cs = some n) (tail : List Char) :
    Backquoted.length? (cs ++ '\n' :: tail) = some n := by
  obtain ⟨m, hm, rfl⟩ := Option.map_eq_some_iff.mp h
  obtain ⟨hpos, hle⟩ := Token.Shape.close?_le_length hm
  have hlen := List.length_take_of_le hle
  have hsplit : close? ((cs.drop 1).take m ++ (cs.drop 1).drop m) =
      some ((cs.drop 1).take m).length := by
    rw [List.take_append_drop, hlen, hm]
  have := Token.Shape.close?_sameStart
    (Token.Shape.sameStart_lineFeed rfl ((cs.drop 1).drop m) tail) hsplit
  rw [← List.append_assoc, List.take_append_drop, hlen] at this
  rw [List.length_drop] at hle
  rw [length?, Token.Shape.drop_lineFeed (by omega), this]
  rfl

namespace Quoted

/-- Three quotes are told by the first three characters, none of them a line feed. -/
theorem isTriple_lineFeed (cs tail : List Char) :
    isTriple (cs ++ '\n' :: tail) = isTriple cs := by
  match cs with
  | [] => rfl
  | [a] => simp [isTriple]
  | [a, b] => simp [isTriple]
  | a :: b :: c :: cs =>
      unfold isTriple
      split <;> split <;> simp_all

/-- The quotes at the end of a triple-quoted string end at a line feed. -/
theorem extraQuotes_lineFeed (cs tail : List Char) :
    extraQuotes (cs ++ '\n' :: tail) = extraQuotes cs := by
  match cs with
  | [] => rfl
  | [a] => by_cases ha : a = '\x22' <;> simp [extraQuotes, ha]
  | a :: b :: cs =>
      by_cases ha : a = '\x22' <;> by_cases hb : b = '\x22' <;> simp [extraQuotes, ha, hb]

/-- A body that was closed stays closed when a line feed follows. -/
theorem body_lineFeed {pending bad : Bool} {cs : List Char}
    (h : (body pending bad cs).verdict = .closed) (tail : List Char) :
    body pending bad (cs ++ '\n' :: tail) = body pending bad cs := by
  induction cs generalizing pending bad with
  | nil => cases h
  | cons c cs ih =>
      rw [List.cons_append]
      unfold body at h ⊢
      split
      · rw [if_pos ‹_›] at h
        rw [ih h]
      · rw [if_neg ‹_›] at h
        split
        · rfl
        · rw [if_neg ‹_›] at h
          split
          · rfl
          · rw [if_neg ‹_›] at h
            rw [ih h]

/-- So does the body of a triple-quoted string. -/
theorem verbatim_lineFeed {cs : List Char} (h : (verbatim cs).verdict = .closed)
    (tail : List Char) : verbatim (cs ++ '\n' :: tail) = verbatim cs := by
  induction cs using verbatim.induct with
  | case1 => cases h
  | case2 rest => simp only [List.cons_append, verbatim, extraQuotes_lineFeed]
  | case3 c rest hquotes hline =>
      rw [verbatim] at h
      · rw [if_pos hline] at h; exact absurd h (by decide)
      · assumption
  | case4 c rest hquotes hline ih =>
      have hstep : verbatim (c :: rest) = (verbatim rest).grow 1 := by
        rw [verbatim]
        · rw [if_neg hline]
        · exact hquotes
      rw [hstep, Extent.grow_verdict] at h
      have hthree := three_le_verbatim_length h
      have hle := verbatim_le_length rest
      rw [hstep, List.cons_append, verbatim]
      · rw [if_neg hline, ih h]
      · -- The two characters behind `c` are inside the literal.
        rintro r rfl heq
        rcases rest with _ | ⟨a, _ | ⟨b, rest⟩⟩
        · simp only [List.length_nil] at hle
          omega
        · simp only [List.length_cons, List.length_nil] at hle
          omega
        · simp only [List.cons_append, List.cons.injEq] at heq
          exact hquotes rest rfl (by rw [heq.1, heq.2.1])

/-- So does a whole string. -/
theorem extent_lineFeed {cs : List Char} (hne : cs ≠ []) (h : (extent cs).verdict = .closed)
    (tail : List Char) : extent (cs ++ '\n' :: tail) = extent cs := by
  obtain ⟨c, cs, rfl⟩ := List.exists_cons_of_ne_nil hne
  unfold extent at h ⊢
  rw [isTriple_lineFeed]
  split
  · rw [if_pos ‹_›] at h
    rename_i htriple
    match cs with
    | [] => simp [isTriple] at htriple
    | [b] => simp [isTriple] at htriple
    | a :: b :: cs =>
        have := verbatim_lineFeed h tail
        simp at this ⊢
        rw [this]
  · rw [if_neg ‹_›] at h
    have hclosed : (body false false cs).verdict = .closed := h
    have := body_lineFeed hclosed tail
    simp at this ⊢
    rw [this]

end Quoted

/-- A comment that ends is found again, whatever stands behind it. -/
theorem blockCommentEnd?_append {depth : Nat} {cs : List Char} {n : Nat}
    (h : blockCommentEnd? depth cs = some n) (tail : List Char) :
    blockCommentEnd? depth (cs ++ tail) = some n := by
  induction depth, cs using blockCommentEnd?.induct generalizing n with
  | case1 => cases h
  | case2 depth rest ih =>
      rw [blockCommentEnd?] at h
      obtain ⟨m, hm, rfl⟩ := Option.map_eq_some_iff.mp h
      simp only [List.cons_append]
      rw [blockCommentEnd?, ih hm]
      rfl
  | case3 depth rest hdepth =>
      rw [blockCommentEnd?, if_pos hdepth] at h
      simp only [List.cons_append]
      rw [blockCommentEnd?, if_pos hdepth, h]
  | case4 depth rest hdepth ih =>
      rw [blockCommentEnd?, if_neg hdepth] at h
      obtain ⟨m, hm, rfl⟩ := Option.map_eq_some_iff.mp h
      simp only [List.cons_append]
      rw [blockCommentEnd?, if_neg hdepth, ih hm]
      rfl
  | case5 depth c rest hopen hclose ih =>
      rw [blockCommentEnd?] at h
      · obtain ⟨m, hm, rfl⟩ := Option.map_eq_some_iff.mp h
        -- The comment ends further on, so the next character is the same.
        cases rest with
        | nil => cases hm
        | cons d rest =>
            rw [List.cons_append, blockCommentEnd?, ih hm]
            · rfl
            · rintro r rfl heq
              exact hopen rest rfl (by rw [(List.cons.inj heq).1])
            · rintro r rfl heq
              exact hclose rest rfl (by rw [(List.cons.inj heq).1])
      all_goals assumption

/-- A line comment ends behind its line feed, or takes in the one that is put at the end. -/
theorem lineCommentLength_lineFeed (cs tail : List Char) :
    lineCommentLength (cs ++ '\n' :: tail) =
      if '\n' ∈ cs then lineCommentLength cs else cs.length + 1 := by
  induction cs with
  | nil => rfl
  | cons c cs ih =>
      rw [List.cons_append, lineCommentLength, lineCommentLength, ih]
      by_cases hc : c = '\n'
      · simp [hc]
      · simp only [hc, if_false, List.mem_cons, Ne.symm hc, false_or, List.length_cons]
        split <;> rfl

/-- A line comment without a line feed goes to the end of the text. -/
theorem lineCommentLength_of_notMem {cs : List Char} (h : '\n' ∉ cs) :
    lineCommentLength cs = cs.length := by
  induction cs with
  | nil => rfl
  | cons c cs ih =>
      obtain ⟨hc, hcs⟩ := not_or.mp fun hor => h (List.mem_cons.mpr hor)
      rw [lineCommentLength, if_neg (Ne.symm hc), ih hcs, List.length_cons]

end Text

end PipeQuery
