import PipeQuery.Proofs.Token.Reading
import PipeQuery.Proofs.Token.Taking

/-!
# `PipeQuery.Proofs.Token.Numeral`: numbers are lexed by longest match

The lexer reads a number in three parts, looks up to three characters ahead, and never goes back.
Here the numerals are given by a grammar that says nothing of reading:

    numeral  := mantissa [exponent]
    mantissa := digits ['.' digit*] | '.' digits
    exponent := ('e' | 'E') ['+' | '-'] digits
    digits   := digit digit*

That what the lexer takes is the longest beginning of the text that is a numeral has two sides.

* Nothing wrong is taken: `isNumeral_take`.
* Nothing is left: `IsNumeral.length_le`. A mantissa reaches no further than the one that is read
  (`IsMantissa.length_le`), and one that an exponent follows is all of it (`IsMantissa.eq_length`),
  so an exponent can begin only where the lexer looks for it.

`Lexer.next_numeral` is the result, for every text and every place in it.
-/

set_option autoImplicit false

namespace PipeQuery

namespace Token.Shape

variable {cs w m e ds : List Char}

/-! ### The grammar -/

/-- One digit or more. -/
structure IsDigits (ds : List Char) : Prop where
  ne_nil : ds ≠ []
  isDigit : ∀ c ∈ ds, c.isDigit = true

/-- A number without an exponent. -/
inductive IsMantissa : List Char → Prop where
  | whole {ds : List Char} (h : IsDigits ds) : IsMantissa ds
  | point {ds fs : List Char} (h : IsDigits ds) (hfs : ∀ c ∈ fs, c.isDigit = true) :
    IsMantissa (ds ++ '.' :: fs)
  | bare {fs : List Char} (h : IsDigits fs) : IsMantissa ('.' :: fs)

/-- An exponent with its mark. -/
inductive IsExponent : List Char → Prop where
  | plain {mark : Char} {ds : List Char} (hmark : mark = 'e' ∨ mark = 'E') (h : IsDigits ds) :
    IsExponent (mark :: ds)
  | signed {mark sign : Char} {ds : List Char} (hmark : mark = 'e' ∨ mark = 'E')
    (hsign : sign = '+' ∨ sign = '-') (h : IsDigits ds) : IsExponent (mark :: sign :: ds)

/-- A number as it may be written. -/
inductive IsNumeral : List Char → Prop where
  | plain {m : List Char} (h : IsMantissa m) : IsNumeral m
  | scaled {m e : List Char} (h : IsMantissa m) (he : IsExponent e) : IsNumeral (m ++ e)

/-- The numeral has an exponent. -/
def HasExponent (w : List Char) : Prop :=
  ∃ m e, w = m ++ e ∧ IsMantissa m ∧ IsExponent e

/-- The numeral is the longest beginning of the text that is one. -/
structure IsLongestNumeral (cs w : List Char) : Prop where
  begins : w <+: cs
  isNumeral : IsNumeral w
  length_le : ∀ w', w' <+: cs → IsNumeral w' → w'.length ≤ w.length

/-! ### Runs of digits -/

/-- A run goes on as far as the rest of the text carries it. -/
theorem run_append_add {p : Char → Bool} {part : List Char} (hpart : ∀ c ∈ part, p c = true)
    (tail : List Char) : run p (part ++ tail) = part.length + run p tail := by
  rw [run, List.takeWhile_append_of_pos hpart, List.length_append]
  rfl

/-- Digits begin with a digit, whatever stands behind them. -/
theorem IsDigits.startsWith_append (h : IsDigits ds) (tail : List Char) :
    startsWith Char.isDigit (ds ++ tail) = true := by
  cases ds with
  | nil => exact absurd rfl h.ne_nil
  | cons d ds => exact h.isDigit d List.mem_cons_self

/-- The digits that a text begins with. -/
theorem isDigits_takeWhile (h : startsWith Char.isDigit cs = true) :
    IsDigits (cs.takeWhile Char.isDigit) where
  ne_nil := by
    intro hnil
    have hrun := Step.run_pos h
    rw [run, hnil] at hrun
    exact absurd hrun (Nat.lt_irrefl 0)
  isDigit := fun _ hc => List.mem_takeWhile_imp hc

/-! ### The mantissa -/

/-- How far the integer digits and the fraction at the start of a text reach. -/
def mantissa (cs : List Char) : Nat :=
  run Char.isDigit cs + fraction (run Char.isDigit cs) (cs.drop (run Char.isDigit cs))

/-- A number is as long as its mantissa and the exponent behind it. -/
theorem number_length (cs : List Char) :
    (number cs).length = mantissa cs + exponent (cs.drop (mantissa cs)) := rfl

/-- Without a point there is no fraction. -/
theorem fraction_eq_zero {n : Nat} (h : startsWith (· = '.') cs = false) : fraction n cs = 0 := by
  unfold fraction
  split
  · cases h
  · rfl

/-- A point with digits in front or behind takes the digits behind it. -/
theorem fraction_point {n : Nat} {rest : List Char}
    (h : 0 < n ∨ startsWith Char.isDigit rest = true) :
    fraction n ('.' :: rest) = run Char.isDigit rest + 1 := by
  rw [fraction, if_pos (by simpa using h)]

/-- What a fraction is made of: a point and digits, on one side of it at least. -/
theorem of_fraction_ne_zero {n : Nat} (h : fraction n cs ≠ 0) :
    ∃ rest, cs = '.' :: rest ∧ (0 < n ∨ startsWith Char.isDigit rest = true) ∧
      fraction n cs = run Char.isDigit rest + 1 := by
  unfold fraction at h
  split at h
  case h_2 => exact absurd rfl h
  case h_1 rest =>
    split at h
    case isFalse => exact absurd rfl h
    case isTrue hdigit =>
      have hdigit' : 0 < n ∨ startsWith Char.isDigit rest = true := by simpa using hdigit
      exact ⟨rest, rfl, hdigit', fraction_point hdigit'⟩

/-- Digits and what stands behind them. -/
theorem mantissa_digits (hds : ∀ c ∈ ds, c.isDigit = true) {tail : List Char}
    (htail : startsWith Char.isDigit tail = false) :
    mantissa (ds ++ tail) = ds.length + fraction ds.length tail := by
  rw [mantissa, run_append hds htail, List.drop_left]

/-- A point with digits on one side of it at least. -/
theorem mantissa_point {fs : List Char} (hds : ∀ c ∈ ds, c.isDigit = true)
    (hfs : ∀ c ∈ fs, c.isDigit = true) (h : ds ≠ [] ∨ fs ≠ []) (tail : List Char) :
    mantissa (ds ++ '.' :: (fs ++ tail)) = ds.length + (fs.length + run Char.isDigit tail + 1) := by
  have hside : 0 < ds.length ∨ startsWith Char.isDigit (fs ++ tail) = true :=
    h.imp List.length_pos_iff.mpr fun hne => IsDigits.startsWith_append ⟨hne, hfs⟩ tail
  rw [mantissa_digits hds rfl, fraction_point hside, run_append_add hfs]

/-- A point with digits behind it only. -/
theorem mantissa_bare {fs : List Char} (hfs : IsDigits fs) (tail : List Char) :
    mantissa ('.' :: (fs ++ tail)) = fs.length + run Char.isDigit tail + 1 := by
  have hnone : ∀ c ∈ ([] : List Char), c.isDigit = true := nofun
  have hpoint := mantissa_point hnone hfs.isDigit (.inr hfs.ne_nil) tail
  rw [List.nil_append, List.length_nil, Nat.zero_add] at hpoint
  exact hpoint

/-- The mantissa that is read is no shorter than any that the text begins with. -/
theorem IsMantissa.length_le (h : IsMantissa m) (tail : List Char) :
    m.length ≤ mantissa (m ++ tail) := by
  cases h with
  | whole hds =>
      rw [mantissa, run_append_add hds.isDigit]
      omega
  | @point ds fs hds hfs =>
      rw [List.append_assoc, List.cons_append, mantissa_point hds.isDigit hfs (.inl hds.ne_nil),
        List.length_append, List.length_cons]
      omega
  | @bare fs hfs =>
      rw [List.cons_append, mantissa_bare hfs, List.length_cons]
      omega

/-- A mantissa with neither a digit nor a point behind it is the one that is read. -/
theorem IsMantissa.eq_length (h : IsMantissa m) {tail : List Char}
    (hdigit : startsWith Char.isDigit tail = false) (hpoint : startsWith (· = '.') tail = false) :
    mantissa (m ++ tail) = m.length := by
  have hrun : run Char.isDigit tail = 0 := by
    have hnone : ∀ c ∈ ([] : List Char), c.isDigit = true := nofun
    exact run_append hnone hdigit
  cases h with
  | whole hds => rw [mantissa_digits hds.isDigit hdigit, fraction_eq_zero hpoint, Nat.add_zero]
  | @point ds fs hds hfs =>
      rw [List.append_assoc, List.cons_append, mantissa_point hds.isDigit hfs (.inl hds.ne_nil),
        List.length_append, List.length_cons, hrun, Nat.add_zero]
  | @bare fs hfs =>
      rw [List.cons_append, mantissa_bare hfs, List.length_cons, hrun, Nat.add_zero]

/-- What is read as a mantissa: digits, and a part of what stands behind them. -/
theorem take_mantissa (cs : List Char) :
    cs.take (mantissa cs) = cs.takeWhile Char.isDigit ++
      (cs.dropWhile Char.isDigit).take
        (fraction (run Char.isDigit cs) (cs.dropWhile Char.isDigit)) := by
  rw [mantissa, List.take_add, take_run, drop_run]

/-- Where a number begins, what is read is a mantissa. -/
theorem isMantissa_take (h : beginsNumber cs = true) : IsMantissa (cs.take (mantissa cs)) := by
  rw [take_mantissa]
  by_cases hzero : fraction (run Char.isDigit cs) (cs.dropWhile Char.isDigit) = 0
  · rw [hzero, List.take_zero, List.append_nil]
    rcases Bool.or_eq_true_iff.mp h with hdigit | hpoint
    · exact .whole (isDigits_takeWhile hdigit)
    · -- A point that begins a number has a digit behind it, and so it begins a fraction.
      obtain ⟨hdot, hdigit⟩ := Bool.and_eq_true_iff.mp hpoint
      cases cs with
      | nil => cases hdot
      | cons c rest =>
          obtain rfl : c = '.' := by simpa using hdot
          have hfraction := fraction_point (n := run Char.isDigit ('.' :: rest)) (.inr hdigit)
          exact absurd (hfraction.symm.trans hzero) (Nat.succ_ne_zero _)
  · obtain ⟨rest, hbehind, hside, hlength⟩ := of_fraction_ne_zero hzero
    rw [hlength, hbehind, List.take_succ_cons, take_run]
    have hdigits : ∀ c ∈ cs.takeWhile Char.isDigit, c.isDigit = true :=
      fun _ hc => List.mem_takeWhile_imp hc
    by_cases hnil : cs.takeWhile Char.isDigit = []
    · have hdigit : startsWith Char.isDigit rest = true :=
        hside.resolve_left (by rw [run, hnil]; exact Nat.lt_irrefl 0)
      rw [hnil]
      exact .bare (isDigits_takeWhile hdigit)
    · exact .point ⟨hnil, hdigits⟩ fun _ hc => List.mem_takeWhile_imp hc

/-! ### The exponent -/

/-- The exponent that is read is no shorter than any that the text begins with. -/
theorem IsExponent.length_le (h : IsExponent e) (tail : List Char) :
    e.length ≤ exponent (e ++ tail) := by
  cases h with
  | @plain mark ds hmark hds =>
      cases ds with
      | nil => exact absurd rfl hds.ne_nil
      | cons d ds =>
          have hd : d.isDigit = true := hds.isDigit d List.mem_cons_self
          have hds' : ∀ c ∈ ds, c.isDigit = true :=
            fun c hc => hds.isDigit c (List.mem_cons_of_mem d hc)
          -- The first digit is not taken for a sign.
          have hsign : ¬ (d = '+' ∨ d = '-') := by
            rintro (rfl | rfl) <;> exact absurd hd (by decide)
          rw [List.cons_append, List.cons_append, exponent, if_pos (by simpa using hmark),
            if_neg (by simpa using hsign), if_pos hd, run_append_add hds', List.length_cons,
            List.length_cons]
          omega
  | @signed mark sign ds hmark hsign hds =>
      rw [List.cons_append, List.cons_append, exponent, if_pos (by simpa using hmark),
        if_pos (by simpa using hsign), if_pos (hds.startsWith_append tail),
        run_append_add hds.isDigit, List.length_cons, List.length_cons]
      omega

/-- What is read as an exponent is one. -/
theorem isExponent_take (h : exponent cs ≠ 0) : IsExponent (cs.take (exponent cs)) := by
  obtain ⟨mark, sign, rest, rfl, hmark, hsign, hlength⟩ := of_exponent_ne_zero h
  rw [hlength, List.take_succ_cons, List.take_succ_cons, take_run]
  rcases hsign with ⟨hsign, hdigit⟩ | hdigit
  · exact .signed hmark hsign (isDigits_takeWhile hdigit)
  · refine .plain hmark ⟨List.cons_ne_nil _ _, fun c hc => ?_⟩
    rcases List.mem_cons.mp hc with rfl | hc
    · exact hdigit
    · exact List.mem_takeWhile_imp hc

/-- No exponent begins with a digit or a point. -/
theorem IsExponent.startsWith_eq_false (h : IsExponent e) {p : Char → Bool} (he : p 'e' = false)
    (hE : p 'E' = false) (tail : List Char) : startsWith p (e ++ tail) = false := by
  cases h with
  | plain hmark _ | signed hmark _ _ =>
      rcases hmark with rfl | rfl
      · exact he
      · exact hE

/-- An exponent has its mark in it. -/
theorem IsExponent.exists_mark (h : IsExponent e) :
    ∃ mark, (mark = 'e' ∨ mark = 'E') ∧ mark ∈ e := by
  cases h with
  | plain hmark _ | signed hmark _ _ => exact ⟨_, hmark, List.mem_cons_self⟩

/-! ### The number -/

/-- What is taken as a number is the mantissa and then the exponent. -/
theorem take_number (cs : List Char) :
    cs.take (number cs).length =
      cs.take (mantissa cs) ++ (cs.drop (mantissa cs)).take (exponent (cs.drop (mantissa cs))) := by
  rw [number_length, List.take_add]

/-- Where a number begins, what is read is a numeral. -/
theorem isNumeral_take (h : beginsNumber cs = true) : IsNumeral (cs.take (number cs).length) := by
  rw [take_number]
  by_cases hzero : exponent (cs.drop (mantissa cs)) = 0
  · rw [hzero, List.take_zero, List.append_nil]
    exact .plain (isMantissa_take h)
  · exact .scaled (isMantissa_take h) (isExponent_take hzero)

/-- No numeral at the start of a text is longer than what is read. -/
theorem IsNumeral.length_le (h : IsNumeral w) (tail : List Char) :
    w.length ≤ (number (w ++ tail)).length := by
  cases h with
  | plain hm =>
      have hle := hm.length_le tail
      rw [number_length]
      omega
  | @scaled m e hm he =>
      -- The mark of the exponent is neither a digit nor a point, so it ends the mantissa.
      have hmantissa : mantissa (m ++ (e ++ tail)) = m.length :=
        hm.eq_length (he.startsWith_eq_false (by decide) (by decide) tail)
          (he.startsWith_eq_false (by decide) (by decide) tail)
      have hle := he.length_le tail
      rw [List.append_assoc, number_length, hmantissa, List.drop_left, List.length_append]
      omega

/-- What is read is the longest numeral that the text begins with. -/
theorem isLongestNumeral_take (h : beginsNumber cs = true) :
    IsLongestNumeral cs (cs.take (number cs).length) where
  begins := List.take_prefix _ _
  isNumeral := isNumeral_take h
  length_le := by
    rintro w' ⟨tail, rfl⟩ hw'
    rw [List.length_take_of_le (number_length_le _)]
    exact hw'.length_le tail

/-- What is read has a point or an exponent just if it counts as a decimal. -/
theorem isDecimal_iff (h : beginsNumber cs = true) :
    (number cs).isDecimal = true ↔
      '.' ∈ cs.take (number cs).length ∨ HasExponent (cs.take (number cs).length) := by
  constructor
  · intro hdecimal
    have hparts : (number cs).fraction ≠ 0 ∨ (number cs).exponent ≠ 0 := by
      simpa [Number.isDecimal] using hdecimal
    rw [take_number]
    rcases hparts with hfraction | hexponent
    · -- The fraction begins with the point.
      rw [number] at hfraction
      simp only [drop_run] at hfraction
      obtain ⟨rest, hbehind, -, hlength⟩ := of_fraction_ne_zero hfraction
      refine .inl (List.mem_append_left _ ?_)
      rw [take_mantissa, hlength, hbehind, List.take_succ_cons]
      exact List.mem_append_right _ List.mem_cons_self
    · exact .inr ⟨_, _, rfl, isMantissa_take h, isExponent_take hexponent⟩
  · intro hmarked
    by_contra hwhole
    -- Otherwise there are digits only, and neither a point nor a mark of an exponent is one.
    have hdigits := (isNumber_take cs).isDigit (by simpa using hwhole)
    rcases hmarked with hpoint | ⟨m, e, heq, -, hexponent⟩
    · exact absurd (hdigits '.' hpoint) (by decide)
    · rw [heq] at hdigits
      obtain ⟨mark, hmark, hmem⟩ := hexponent.exists_mark
      have hdigit := hdigits mark (List.mem_append_right m hmem)
      rcases hmark with rfl | rfl <;> exact absurd hdigit (by decide)

end Token.Shape

/-! ### The token -/

open Token.Shape (beginsNumber IsLongestNumeral HasExponent)

/-- Where expressions begin a number, the token is the longest numeral that the text goes on with.
It is a decimal if there is a point or an exponent in it and an integer if not, all behind it is
still ahead, the modes are as before, and nothing is wrong. -/
theorem Lexer.next_numeral (l : Lexer) (hmode : l.modes.current = .expression)
    (hstart : beginsNumber l.cursor.rest = true) :
    IsLongestNumeral l.cursor.rest l.next.1.text.toList ∧
      (l.next.1.kind = .decimal ↔
        '.' ∈ l.next.1.text.toList ∨ HasExponent l.next.1.text.toList) ∧
      (l.next.1.kind = .integer ↔
        ¬ ('.' ∈ l.next.1.text.toList ∨ HasExponent l.next.1.text.toList)) ∧
      l.cursor.rest = l.next.1.text.toList ++ l.next.2.2.cursor.rest ∧
      l.next.2.2.modes = l.modes ∧ l.next.2.1 = none := by
  have hne : l.cursor.rest ≠ [] := by
    intro hnil
    rw [hnil] at hstart
    cases hstart
  have hnext := next_of_rest_ne_nil hne
  have hstep : l.step = .number l.modes l.cursor.rest := Token.step_eq_number hmode hstart
  have htext : l.next.1.text.toList =
      l.cursor.rest.take (Token.Shape.number l.cursor.rest).length := by
    rw [hnext, stepToken, hstep]
    exact String.toList_ofList
  have hkind : l.next.1.kind =
      if (Token.Shape.number l.cursor.rest).isDecimal then .decimal else .integer := by
    rw [hnext, stepToken, hstep]
    rfl
  have hdecimal := Token.Shape.isDecimal_iff hstart
  -- The kind is read off the shape, and the shape's own lemmas speak of the text that it takes.
  rw [htext, hkind, ← hdecimal]
  refine ⟨Token.Shape.isLongestNumeral_take hstart, ?_, ?_, ?_, ?_, ?_⟩
  · split <;> simp [*]
  · split <;> simp [*]
  · rw [hnext, afterStep, hstep]
    exact (List.take_append_drop _ _).symm
  · rw [hnext, afterStep, hstep]
    rfl
  · rw [hnext, stepDiagnostic?, hstep]
    rfl

/-- A point without digits behind it, an exponent with a sign, and then a mark that turns out to be
no exponent. -/
theorem Lexer.next_numeral_twoMarks :
    let l : Lexer := ⟨false, .ofText "7.e+5e-x", ModeStack.bottom.push .expression⟩
    IsLongestNumeral "7.e+5e-x".toList "7.e+5".toList ∧ l.next.1.kind = .decimal ∧
      l.next.2.2.cursor.rest = "e-x".toList := by
  intro l
  obtain ⟨hlongest, hdecimal, -, -, -, -⟩ := next_numeral l rfl (by decide)
  have htext : l.next.1.text.toList = "7.e+5".toList := by decide
  rw [htext] at hlongest hdecimal
  exact ⟨hlongest, hdecimal.mpr (.inl (by decide)), by decide⟩

end PipeQuery
