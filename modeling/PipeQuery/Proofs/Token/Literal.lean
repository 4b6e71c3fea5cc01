import PipeQuery.Proofs.Token.Word

/-!
# `PipeQuery.Proofs.Token.Literal`: numbers, parameters and quoted texts

What `PipeQuery.Proofs.Token.Word` says of names, for the words of constants. A number looks three
characters ahead, for the exponent, and a literal between quotes one, for another quote; neither
depends on what it looked at in vain (`number_cut`, `extent_cut`, `close?_sameStart`).
-/

set_option autoImplicit false

namespace PipeQuery.Token.Shape

/-! ### Parameters -/

/-- A digit is no letter, so no identifier begins with one. -/
theorem not_isAlpha_of_isDigit {c : Char} (h : c.isDigit = true) : c.isAlpha = false := by
  have halpha : c.isAlpha = (decide (c.val ≥ 'A'.val ∧ c.val ≤ 'Z'.val) ||
      decide (c.val ≥ 'a'.val) && decide (c.val ≤ 'z'.val)) := rfl
  simp only [Char.isDigit, Bool.and_eq_true, decide_eq_true_eq] at h
  simp only [halpha, Bool.or_eq_false_iff, Bool.and_eq_false_iff, decide_eq_false_iff_not]
  simp only [ge_iff_le, UInt32.le_iff_toNat_le] at h ⊢
  have h9 : '9'.val.toNat = 57 := rfl
  have hA : 'A'.val.toNat = 65 := rfl
  have ha : 'a'.val.toNat = 97 := rfl
  omega

/-- A digit may stand in a name. -/
theorem isNameChar_of_isDigit {c : Char} (h : c.isDigit = true) : isNameChar c = true := by
  simp [isNameChar, Char.isAlphanum, h]

/-- The name or number of a parameter is scanned, carried on by characters of names. -/
theorem parameter_scans : Scans parameter isNameChar where
  le_length cs := by
    have hname := run_le_length isNameChar cs
    have hdigit := run_le_length Char.isDigit cs
    simp only [parameter]
    split <;> assumption
  cut cs tail htail := by
    have hdigit : startsWith Char.isDigit tail = false :=
      startsWith_mono (fun c hc => isNameChar_of_isDigit hc) htail
    have hstart : startsWith (fun c => c.isAlpha || c = '_') tail = false :=
      startsWith_mono (fun c hc => by
        rcases Bool.or_eq_true_iff.mp hc with ha | hu
        · exact isNameChar_of_isAlpha ha
        · simp [isNameChar, hu]) htail
    by_cases hname : startsWith (fun c => c.isAlpha || c = '_') cs = true
    · -- A name: its first character is among those taken, so what is cut off begins as before.
      have hlen : parameter cs = run isNameChar cs := by rw [parameter, if_pos hname]
      have hkeep : startsWith (fun c => c.isAlpha || c = '_') (cs.takeWhile isNameChar ++ tail) =
          true := by
        cases cs with
        | nil => simp at hname
        | cons c cs =>
            have hc : isNameChar c = true := by
              rcases Bool.or_eq_true_iff.mp hname with ha | hu
              · exact isNameChar_of_isAlpha ha
              · simp [isNameChar, hu]
            rw [List.takeWhile_cons_of_pos hc]
            exact hname
      rw [hlen, take_run, parameter, if_pos hkeep]
      exact run_append (fun c hc => List.mem_takeWhile_imp hc) htail
    · -- No name: the digits taken do not begin one, and neither does the text put behind them.
      have hlen : parameter cs = run Char.isDigit cs := by rw [parameter, if_neg hname]
      have hkeep : ¬ startsWith (fun c => c.isAlpha || c = '_') (cs.takeWhile Char.isDigit ++ tail) =
          true := by
        rw [startsWith_eq_any_head?]
        cases hrun : cs.takeWhile Char.isDigit with
        | nil => rw [List.nil_append, ← startsWith_eq_any_head?, hstart]; decide
        | cons c rest =>
            have hc : c.isDigit = true := List.mem_takeWhile_imp (l := cs) (by rw [hrun]; simp)
            have hu : c ≠ '_' := by rintro rfl; exact absurd hc (by decide)
            simp [not_isAlpha_of_isDigit hc, hu]
      rw [hlen, take_run, parameter, if_neg hkeep]
      exact run_append (fun c hc => List.mem_takeWhile_imp hc) hdigit

/-! ### Numbers -/

/-- The characters that carry a number on. -/
def carriesNumber (c : Char) : Bool :=
  c.isAlphanum || c = '.'

/-- A digit carries on a number. -/
theorem carriesNumber_of_isDigit {c : Char} (h : c.isDigit = true) : carriesNumber c = true := by
  simp [carriesNumber, Char.isAlphanum, h]

/-- An exponent stays inside the text. -/
theorem exponent_le_length (cs : List Char) : exponent cs ≤ cs.length := by
  unfold exponent
  split
  · rename_i e sign rest
    have := run_le_length Char.isDigit rest
    simp only [List.length_cons]
    split
    · split
      · split <;> omega
      · split <;> omega
    · omega
  · exact Nat.zero_le _

/-- A fraction stays inside the text. -/
theorem fraction_le_length (n : Nat) (cs : List Char) : fraction n cs ≤ cs.length := by
  unfold fraction
  split
  · rename_i rest
    have := run_le_length Char.isDigit rest
    simp only [List.length_cons]
    split <;> omega
  · exact Nat.zero_le _

/-- Where nothing carries on a number there is no exponent. -/
theorem exponent_eq_zero {cs : List Char} (h : startsWith carriesNumber cs = false) :
    exponent cs = 0 := by
  unfold exponent
  split
  · rename_i e sign rest
    rw [if_neg]
    rintro hc
    have : carriesNumber e = true := by
      rcases Bool.or_eq_true_iff.mp hc with he | he
      · rw [of_decide_eq_true he]; decide
      · rw [of_decide_eq_true he]; decide
    rw [startsWith_cons, this] at h
    exact absurd h (by decide)
  · rfl

/-- What an exponent is made of: its mark, perhaps a sign, and digits. -/
theorem of_exponent_ne_zero {cs : List Char} (h : exponent cs ≠ 0) :
    ∃ e sign rest, cs = e :: sign :: rest ∧ (e = 'e' ∨ e = 'E') ∧
      ((sign = '+' ∨ sign = '-') ∧ startsWith Char.isDigit rest = true ∨ sign.isDigit = true) ∧
      exponent cs = run Char.isDigit rest + 2 := by
  unfold exponent at h ⊢
  split at h
  case h_2 => exact absurd rfl h
  case h_1 e sign rest =>
    split at h
    case isFalse => exact absurd rfl h
    -- The letter alone is not enough: a digit is to follow, behind a sign or at once.
    case isTrue he =>
      refine ⟨e, sign, rest, rfl, by simpa using he, ?_⟩
      rw [if_pos he]
      split at h
      case isTrue hsign =>
        split at h
        case isFalse => exact absurd rfl h
        case isTrue hdigit =>
          rw [if_pos hsign, if_pos hdigit]
          exact ⟨.inl ⟨by simpa using hsign, hdigit⟩, rfl⟩
      case isFalse hsign =>
        split at h
        case isFalse => exact absurd rfl h
        case isTrue hdigit =>
          rw [if_neg hsign, if_pos hdigit]
          exact ⟨.inr hdigit, rfl⟩

/-- An exponent is found again before a text that carries on no number. -/
theorem exponent_cut (cs : List Char) {tail : List Char}
    (htail : startsWith carriesNumber tail = false) :
    exponent (cs.take (exponent cs) ++ tail) = exponent cs := by
  by_cases hzero : exponent cs = 0
  · rw [hzero, List.take_zero, List.nil_append]
    exact exponent_eq_zero htail
  · obtain ⟨e, sign, rest, rfl, he, hsign, hlen⟩ := of_exponent_ne_zero hzero
    have hdigit : startsWith Char.isDigit tail = false :=
      startsWith_mono (fun c hc => carriesNumber_of_isDigit hc) htail
    -- The digits end where they did, since the text put behind them begins with none.
    have hrun : run Char.isDigit (rest.takeWhile Char.isDigit ++ tail) = run Char.isDigit rest :=
      run_append (fun c hc => List.mem_takeWhile_imp hc) hdigit
    have he' : (decide (e = 'e') || decide (e = 'E')) = true := by simpa using he
    rw [hlen, List.take_succ_cons, List.take_succ_cons, take_run, List.cons_append,
      List.cons_append, exponent, if_pos he']
    rcases hsign with ⟨hsign, hstart⟩ | hsign
    · have hsign' : (decide (sign = '+') || decide (sign = '-')) = true := by simpa using hsign
      have hstart' : startsWith Char.isDigit (rest.takeWhile Char.isDigit ++ tail) = true := by
        cases rest with
        | nil => simp at hstart
        | cons c rest => simp_all
      rw [if_pos hsign', if_pos hstart', hrun]
    · have hsign' : ¬ (decide (sign = '+') || decide (sign = '-')) = true := by
        simp only [Bool.or_eq_true, decide_eq_true_eq, not_or]
        constructor <;> (rintro rfl; exact absurd hsign (by decide))
      rw [if_neg hsign', if_pos hsign, hrun]

/-- An exponent begins with no digit and no point. -/
theorem startsWith_exponent {p : Char → Bool} (he : p 'e' = false) (hE : p 'E' = false)
    (cs : List Char) {tail : List Char} (htail : startsWith p tail = false) :
    startsWith p (cs.take (exponent cs) ++ tail) = false := by
  by_cases hzero : exponent cs = 0
  · rw [hzero]; exact htail
  · obtain ⟨e, sign, rest, rfl, hmark, -, hlen⟩ := of_exponent_ne_zero hzero
    rw [hlen, List.take_succ_cons, List.cons_append, startsWith_cons]
    rcases hmark with rfl | rfl
    · exact he
    · exact hE

/-- A fraction in front of an exponent or of a text that carries no number on. -/
theorem fraction_cut (n : Nat) (cs : List Char) {tail : List Char}
    (hdigit : startsWith Char.isDigit tail = false) (hpoint : startsWith (· = '.') tail = false) :
    fraction n (cs.take (fraction n cs) ++ tail) = fraction n cs := by
  by_cases hzero : fraction n cs = 0
  · rw [hzero, List.take_zero, List.nil_append]
    unfold fraction
    split
    · simp at hpoint
    · rfl
  · unfold fraction at hzero
    split at hzero
    case h_2 => exact absurd rfl hzero
    case h_1 rest =>
      split at hzero
      case isFalse => exact absurd rfl hzero
      case isTrue hcond =>
        have hlen : fraction n ('.' :: rest) = run Char.isDigit rest + 1 := by
          rw [fraction, if_pos hcond]
        -- The point was taken for a digit in front of it or behind it, and both stay.
        have hcond' : (decide (0 < n) ||
            startsWith Char.isDigit (rest.takeWhile Char.isDigit ++ tail)) = true := by
          cases rest with
          | nil => simp at hcond; simp [hcond]
          | cons c rest =>
              cases hc : c.isDigit <;> simp_all
        rw [hlen, List.take_succ_cons, take_run, List.cons_append, fraction, if_pos hcond',
          run_append (fun c hc => List.mem_takeWhile_imp hc) hdigit]
        rfl

/-- A number stays inside the text. -/
theorem number_length_le (cs : List Char) : (number cs).length ≤ cs.length := by
  have hdigits := run_le_length Char.isDigit cs
  have hfraction := fraction_le_length (run Char.isDigit cs) (cs.drop (run Char.isDigit cs))
  have hexponent := exponent_le_length (cs.drop (run Char.isDigit cs +
    fraction (run Char.isDigit cs) (cs.drop (run Char.isDigit cs))))
  simp only [List.length_drop] at hfraction hexponent
  simp only [number, Number.length]
  omega

/-- The text goes on with a digit, or with a point and a digit. -/
def beginsNumber (cs : List Char) : Bool :=
  startsWith Char.isDigit cs || (startsWith (· = '.') cs && startsWith Char.isDigit (cs.drop 1))

/-- Whether a number begins is told by characters of the text, and more text behind does not matter.
-/
theorem beginsNumber_append {cs : List Char} (h : beginsNumber cs = true) (rest : List Char) :
    beginsNumber (cs ++ rest) = true := by
  unfold beginsNumber at h ⊢
  match cs, h with
  | [c], h => simp only [startsWith_cons, List.drop_one, List.tail_cons, startsWith_nil,
      Bool.and_false, Bool.or_false] at h; simp [h]
  | c :: d :: cs, h => exact h

/-- The beginning of a number is part of the number. -/
theorem beginsNumber_take {cs : List Char} (h : beginsNumber cs = true) :
    beginsNumber (cs.take (number cs).length) = true := by
  unfold beginsNumber at h
  -- What begins a number, a digit or a point and a digit, is within what the number takes.
  rcases Bool.or_eq_true_iff.mp h with hdigit | hpoint
  · cases cs with
    | nil => simp at hdigit
    | cons c cs =>
        rw [startsWith_cons] at hdigit
        have hrun : run Char.isDigit (c :: cs) = run Char.isDigit cs + 1 := by simp [run, hdigit]
        have hlength : (number (c :: cs)).length = (number (c :: cs)).length - 1 + 1 := by
          simp only [number, Number.length, hrun]
          omega
        rw [hlength, List.take_succ_cons]
        simp [beginsNumber, hdigit]
  · obtain ⟨hdot, hdigit⟩ := Bool.and_eq_true_iff.mp hpoint
    rcases cs with _ | ⟨c, _ | ⟨d, cs⟩⟩
    · cases hdot
    · cases hdigit
    · obtain rfl : c = '.' := by simpa using hdot
      rw [List.drop_one, List.tail_cons, startsWith_cons] at hdigit
      have hrun : run Char.isDigit ('.' :: d :: cs) = 0 := by simp [run]
      have hrun' : run Char.isDigit (d :: cs) = run Char.isDigit cs + 1 := by simp [run, hdigit]
      have hfraction : fraction 0 ('.' :: d :: cs) = run Char.isDigit cs + 1 + 1 := by
        rw [fraction, if_pos (by simp [hdigit]), hrun']
      have hlength : (number ('.' :: d :: cs)).length =
          (number ('.' :: d :: cs)).length - 2 + 1 + 1 := by
        simp only [number, Number.length, hrun, List.drop_zero, hfraction]
        omega
      rw [hlength, List.take_succ_cons, List.take_succ_cons]
      simp [beginsNumber, hdigit]

/-- A number is found again, with the same parts, in front of a text that does not carry it on. -/
theorem number_cut (cs : List Char) {tail : List Char}
    (htail : startsWith carriesNumber tail = false) :
    number (cs.take (number cs).length ++ tail) = number cs := by
  have hdigit : startsWith Char.isDigit tail = false :=
    startsWith_mono (fun c hc => carriesNumber_of_isDigit hc) htail
  have hpoint : startsWith (· = '.') tail = false :=
    startsWith_mono (fun c hc => by simp_all [carriesNumber]) htail
  obtain ⟨digits, after, rfl, hdigits, hafter⟩ : ∃ digits after, cs = digits ++ after ∧
      (∀ c ∈ digits, c.isDigit = true) ∧ startsWith Char.isDigit after = false :=
    ⟨_, _, List.takeWhile_append_dropWhile.symm, fun c hc => List.mem_takeWhile_imp hc,
      startsWith_dropWhile Char.isDigit cs⟩
  have hnumber : ∀ rest, startsWith Char.isDigit rest = false →
      number (digits ++ rest) = ⟨digits.length, fraction digits.length rest,
        exponent (rest.drop (fraction digits.length rest))⟩ := by
    intro rest hrest
    simp only [number, run_append hdigits hrest, List.drop_left, List.drop_length_add_append]
  -- What follows the digits is cut into the fraction, the exponent and the rest.
  let f := fraction digits.length after
  let behind := (after.drop f).take (exponent (after.drop f)) ++ tail
  have hbehind : startsWith Char.isDigit behind = false :=
    startsWith_exponent (by decide) (by decide) _ hdigit
  have hbehind' : startsWith (· = '.') behind = false :=
    startsWith_exponent (by decide) (by decide) _ hpoint
  have hfraction : fraction digits.length (after.take f ++ behind) = f :=
    fraction_cut digits.length after hbehind hbehind'
  have hf : (after.take f).length = f :=
    List.length_take_of_le (fraction_le_length digits.length after)
  have hstart : startsWith Char.isDigit (after.take f ++ behind) = false := by
    cases hcut : after.take f with
    | nil => exact hbehind
    | cons c rest =>
        have : after = c :: (rest ++ after.drop f) := by
          rw [← List.cons_append, ← hcut, List.take_append_drop]
        rw [this] at hafter
        exact hafter
  have htake : (digits ++ after).take (number (digits ++ after)).length ++ tail =
      digits ++ (after.take f ++ behind) := by
    rw [hnumber after hafter]
    simp only [Number.length, Nat.add_assoc]
    rw [List.take_length_add_append, List.take_add, List.append_assoc, List.append_assoc]
  rw [htake, hnumber _ hstart, hnumber after hafter, hfraction]
  have hdrop : (after.take f ++ behind).drop f = behind := by
    conv => lhs; arg 1; rw [← hf]
    exact List.drop_left
  rw [hdrop]
  exact congrArg _ (exponent_cut (after.drop f) htail)

/-- A text that is one number with the given parts, whatever stands behind it that does not carry
it on. -/
structure IsNumber (n : Number) (text : List Char) : Prop where
  length_eq : text.length = n.length
  number_append : ∀ rest, startsWith carriesNumber rest = false → number (text ++ rest) = n

/-- What is taken as a number is one. -/
theorem isNumber_take (cs : List Char) :
    IsNumber (number cs) (cs.take (number cs).length) where
  length_eq := List.length_take_of_le (number_length_le cs)
  number_append _ hrest := number_cut cs hrest

/-- A number without a point and an exponent is nothing but digits. -/
theorem IsNumber.isDigit {n : Number} {text : List Char} (h : IsNumber n text)
    (hwhole : n.isDecimal = false) : ∀ c ∈ text, c.isDigit = true := by
  obtain rfl : number text = n := by simpa using h.number_append [] rfl
  have hparts : (number text).fraction = 0 ∧ (number text).exponent = 0 := by
    simpa [Number.isDecimal] using hwhole
  have hrun : run Char.isDigit (text ++ []) = text.length := by
    rw [List.append_nil, h.length_eq, Number.length, hparts.1, hparts.2]
    rfl
  exact (of_run_append hrun).1

end PipeQuery.Token.Shape

namespace PipeQuery.Text

open Token.Shape (startsWith SameStart)

/-! ### Quoted names -/

namespace Backquoted

/-- A quoted name is found again unless another backquote stands right behind it. -/
theorem length?_cut {cs : List Char} {n : Nat} (h : length? cs = some n) {tail : List Char}
    (htail : startsWith (· = '\x60') tail = false) : length? (cs.take n ++ tail) = some n := by
  obtain ⟨m, hm, rfl⟩ := Option.map_eq_some_iff.mp h
  cases cs with
  | nil => simp [close?] at hm
  | cons c rest =>
      simp only [List.drop_one, List.tail_cons] at hm
      have hlen : (rest.take m).length = m :=
        List.length_take_of_le (Token.Shape.close?_le_length hm).2
      have hclose : close? (rest.take m ++ tail) = some (rest.take m).length := by
        refine Token.Shape.close?_sameStart (.inr htail : SameStart _ (rest.drop m) tail) ?_
        rw [List.take_append_drop, hlen, hm]
      simp only [length?, List.take_succ_cons, List.cons_append, List.drop_one, List.tail_cons,
        hclose, hlen, Option.map_some]

end Backquoted

/-! ### String literals -/

namespace Quoted

/-- An extent moved on by some characters is longer by these. -/
@[simp]
theorem Extent.grow_length (n : Nat) (e : Extent) : (e.grow n).length = e.length + n := rfl

/-- It is closed, open or ill-formed as before. -/
@[simp]
theorem Extent.grow_verdict (n : Nat) (e : Extent) : (e.grow n).verdict = e.verdict := rfl

/-- The body of a string stays inside the text. -/
theorem body_le_length (pending bad : Bool) (cs : List Char) :
    (body pending bad cs).length ≤ cs.length := by
  induction cs generalizing pending bad with
  | nil => exact Nat.le_refl 0
  | cons c rest ih =>
      have h1 := ih false bad
      have h2 := ih (c = '\\') (bad || pending)
      simp only [body, List.length_cons]
      split
      · rw [Extent.grow_length]; omega
      · split
        · exact Nat.zero_le _
        · split
          · simp
          · rw [Extent.grow_length]; omega

/-- A literal that is closed is found again, closed, whatever follows. -/
theorem body_cut {pending bad : Bool} {cs : List Char}
    (h : (body pending bad cs).verdict = .closed) (tail : List Char) :
    body pending bad (cs.take (body pending bad cs).length ++ tail) = body pending bad cs := by
  induction cs generalizing pending bad with
  | nil => simp [body] at h
  | cons c rest ih =>
      simp only [body] at h ⊢
      split
      case isTrue hescape =>
        rw [if_pos hescape, Extent.grow_verdict] at h
        rw [Extent.grow_length, List.take_succ_cons, List.cons_append, body, if_pos hescape, ih h]
      case isFalse hescape =>
        rw [if_neg hescape] at h
        split
        -- A literal that a line end breaks is not closed.
        case isTrue hline => rw [if_pos hline] at h; exact absurd h (by decide)
        case isFalse hline =>
          rw [if_neg hline] at h
          split
          -- At the closing quote nothing behind it is looked at.
          case isTrue hquote =>
            simp only [List.take_succ_cons, List.take_zero, List.cons_append, List.nil_append]
            rw [body, if_neg hescape, if_neg hline, if_pos hquote]
          case isFalse hquote =>
            rw [if_neg hquote, Extent.grow_verdict] at h
            rw [Extent.grow_length, List.take_succ_cons, List.cons_append, body, if_neg hescape,
              if_neg hline, if_neg hquote, ih h]

/-- The quotes at the end of a triple-quoted string are found again before a text without quotes. -/
theorem extraQuotes_cut (cs : List Char) {tail : List Char}
    (htail : startsWith (· = '\x22') tail = false) :
    extraQuotes (cs.take (extraQuotes cs) ++ tail) = extraQuotes cs := by
  have hzero : extraQuotes tail = 0 := by
    unfold extraQuotes
    split
    · simp at htail
    · simp at htail
    · rfl
  -- At most two quotes count, so the first two characters decide, and where one is taken the next
  -- is the tail's.
  match cs with
  | [] => exact hzero
  | [c] =>
      by_cases hc : c = '\x22'
      · subst hc
        cases tail with
        | nil => rfl
        | cons d tail =>
            have hd : d ≠ '\x22' := by simpa using htail
            simp [extraQuotes, hd]
      · simpa [extraQuotes, hc] using hzero
  | c :: d :: rest =>
      by_cases hc : c = '\x22'
      · subst hc
        by_cases hd : d = '\x22'
        · subst hd
          rfl
        · have hone : extraQuotes ('\x22' :: d :: rest) = 1 := by simp [extraQuotes, hd]
          rw [hone]
          cases tail with
          | nil => rfl
          | cons e tail =>
              have he : e ≠ '\x22' := by simpa using htail
              simp [extraQuotes, he]
      · simpa [extraQuotes, hc] using hzero

/-- They stay inside the text. -/
theorem extraQuotes_le_length (cs : List Char) : extraQuotes cs ≤ cs.length := by
  unfold extraQuotes
  split <;> simp

/-- The body of a triple-quoted string stays inside the text. -/
theorem verbatim_le_length (cs : List Char) : (verbatim cs).length ≤ cs.length := by
  induction cs using verbatim.induct with
  | case1 => exact Nat.le_refl 0
  | case2 rest =>
      have := extraQuotes_le_length rest
      simp only [verbatim, List.length_cons]
      omega
  | case3 c rest _ hc =>
      rw [verbatim]
      · simp [hc]
      · assumption
  | case4 c rest _ hc ih =>
      rw [verbatim]
      · rw [if_neg hc, Extent.grow_length, List.length_cons]; omega
      · assumption

/-- A verbatim literal has its closing quotes. -/
theorem three_le_verbatim_length {cs : List Char} (h : (verbatim cs).verdict = .closed) :
    3 ≤ (verbatim cs).length := by
  induction cs using verbatim.induct with
  | case1 => simp [verbatim] at h
  | case2 rest => simp [verbatim]
  | case3 c rest _ hc =>
      rw [verbatim] at h
      · rw [if_pos hc] at h; exact absurd h (by decide)
      · assumption
  | case4 c rest _ hc ih =>
      rw [verbatim] at h ⊢
      · rw [if_neg hc] at h ⊢
        have := ih h
        rw [Extent.grow_length]
        omega
      all_goals assumption

/-- A verbatim literal that is closed is found again unless another quote stands right behind. -/
theorem verbatim_cut {cs : List Char} (h : (verbatim cs).verdict = .closed) {tail : List Char}
    (htail : startsWith (· = '\x22') tail = false) :
    verbatim (cs.take (verbatim cs).length ++ tail) = verbatim cs := by
  induction cs using verbatim.induct with
  | case1 => simp [verbatim] at h
  | case2 rest =>
      rw [verbatim, show 3 + extraQuotes rest = extraQuotes rest + 1 + 1 + 1 by omega]
      simp only [List.take_succ_cons, List.cons_append]
      rw [verbatim, extraQuotes_cut rest htail]
      simp only [Extent.mk.injEq, and_true]
      omega
  | case3 c rest _ hc =>
      rw [verbatim] at h
      · rw [if_pos hc] at h; exact absurd h (by decide)
      · assumption
  | case4 c rest hc hline ih =>
      have hstep : verbatim (c :: rest) = (verbatim rest).grow 1 := by
        rw [verbatim]
        · rw [if_neg hline]
        · exact hc
      rw [hstep, Extent.grow_verdict] at h
      have hthree := three_le_verbatim_length h
      have hle := verbatim_le_length rest
      rw [hstep, Extent.grow_length, List.take_succ_cons, List.cons_append, verbatim]
      · rw [if_neg hline, ih h]
      · -- The two characters behind `c` are inside the literal, so they are still the same.
        rintro r rfl heq
        match rest, hle with
        | a :: b :: rest, _ =>
            refine hc rest rfl ?_
            rw [show (verbatim (a :: b :: rest)).length =
              (verbatim (a :: b :: rest)).length - 2 + 1 + 1 by omega] at heq
            simp only [List.take_succ_cons, List.cons_append, List.cons.injEq] at heq
            rw [heq.1, heq.2.1]
        | [_], hle => simp only [List.length_cons, List.length_nil] at hle; omega
        | [], hle => simp only [List.length_nil] at hle; omega

/-- A string stays inside the text. -/
theorem extent_le_length {cs : List Char} (hcs : cs ≠ []) : (extent cs).length ≤ cs.length := by
  have hpos := List.length_pos_iff.mpr hcs
  unfold extent
  split
  case isTrue h =>
    have := verbatim_le_length (cs.drop 3)
    rw [List.length_drop] at this
    have : 3 ≤ cs.length := by
      unfold isTriple at h
      split at h
      · simp
      · exact absurd h (by decide)
    rw [Extent.grow_length]
    omega
  case isFalse =>
    have := body_le_length false false (cs.drop 1)
    rw [List.length_drop] at this
    rw [Extent.grow_length]
    omega

/-- A body that is closed has its closing quote in it. -/
theorem body_length_pos {pending bad : Bool} {cs : List Char}
    (h : (body pending bad cs).verdict = .closed) : 0 < (body pending bad cs).length := by
  cases cs with
  | nil => simp [body] at h
  | cons c rest =>
      simp only [body] at h ⊢
      split
      · simp
      · split
        · simp_all
        · split <;> simp

/-- A string literal that is closed is found again unless another quote stands right behind. -/
theorem extent_cut {cs : List Char} (h : (extent cs).verdict = .closed) {tail : List Char}
    (htail : startsWith (· = '\x22') tail = false) :
    extent (cs.take (extent cs).length ++ tail) = extent cs := by
  by_cases htriple : isTriple cs = true
  · unfold isTriple at htriple
    split at htriple
    case h_2 => exact absurd htriple (by decide)
    case h_1 rest =>
      have hextent : ∀ r, extent ('\x22' :: '\x22' :: '\x22' :: r) = (verbatim r).grow 3 :=
        fun r => rfl
      rw [hextent] at h ⊢
      rw [Extent.grow_length]
      simp only [List.take_succ_cons, List.cons_append]
      rw [hextent, verbatim_cut h htail]
  · have hextent : extent cs = (body false false (cs.drop 1)).grow 1 := by
      rw [extent, if_neg htriple]
    rw [hextent] at h
    rw [hextent, Extent.grow_length]
    cases cs with
    | nil => simp [body] at h
    | cons c rest =>
        simp only [List.drop_one, List.tail_cons] at h ⊢
        have hcut := body_cut h tail
        -- Cutting makes no triple quote: the literal keeps the quotes that it has.
        have htriple' : ¬ isTriple (c :: (rest.take (body false false rest).length ++ tail)) =
            true := by
          have hpos := body_length_pos h
          have hle := body_le_length false false rest
          intro hnew
          unfold isTriple at hnew
          split at hnew
          case h_2 => exact absurd hnew (by decide)
          case h_1 r heq =>
            obtain ⟨rfl, heq⟩ := List.cons.inj heq
            match rest, hle with
            | [], _ => simp [body] at hpos
            | [a], hle =>
                have hone : (body false false [a]).length = 1 := by
                  simp only [List.length_singleton] at hle; omega
                rw [hone] at heq
                simp only [List.take_succ_cons, List.take_nil, List.cons_append, List.nil_append,
                  List.cons.injEq] at heq
                rw [heq.2.2] at htail
                exact absurd htail (by simp)
            | a :: b :: rest, _ =>
                by_cases hone : (body false false (a :: b :: rest)).length = 1
                · rw [hone] at heq
                  simp only [List.take_succ_cons, List.take_zero, List.cons_append,
                    List.nil_append, List.cons.injEq] at heq
                  rw [heq.2.2] at htail
                  exact absurd htail (by simp)
                · rw [show (body false false (a :: b :: rest)).length =
                    (body false false (a :: b :: rest)).length - 2 + 1 + 1 by omega] at heq
                  simp only [List.take_succ_cons, List.cons_append, List.cons.injEq] at heq
                  obtain ⟨-, rfl, rfl, -⟩ := heq
                  exact htriple rfl
        rw [List.take_succ_cons, List.cons_append, extent, if_neg htriple', List.drop_one,
          List.tail_cons, hcut]

/-- A text that is one string literal, whatever stands behind it but another quote. -/
structure IsLiteral (text : List Char) : Prop where
  opened : text.head? = some '\x22'
  extent_append : ∀ rest, startsWith (· = '\x22') rest = false →
    extent (text ++ rest) = ⟨text.length, .closed⟩

/-- What is taken as a closed string is a literal. -/
theorem isLiteral_take {cs : List Char} (h : (extent cs).verdict = .closed)
    (hopened : cs.head? = some '\x22') : IsLiteral (cs.take (extent cs).length) := by
  have hne : cs ≠ [] := by rintro rfl; simp at hopened
  have hpos : (extent cs).length ≠ 0 := by
    unfold extent
    split <;> simp
  refine ⟨by rw [List.head?_take, if_neg hpos, hopened], fun rest hrest => ?_⟩
  rw [extent_cut h hrest, List.length_take_of_le (extent_le_length hne), ← h]

end Quoted

end PipeQuery.Text
