import Mathlib.Data.List.TakeWhile
import PipeQuery.Token.Shape
import PipeQuery.Text.Quoted

/-!
# `PipeQuery.Proofs.Token.Word`: words end where they end

The scanners of `PipeQuery.Token.Shape` look at a text that goes on behind the word they find. This
module says how little of what follows they depend on: a word that is cut out of its text is found
again, whole, in front of any text that does not carry it on. `Scans` states this for a scanner, and
`IsWord` for a text; the theorem for a scanner `f` is `f_scans`.

`length_part` is the finer fact that field patterns need, whose parts are glued together: a bare
part looks one character ahead and no further.
-/

set_option autoImplicit false

namespace PipeQuery.Token.Shape

/-- A scanner that depends on a word only: it stays inside the text, and it finds the word again
when what stands behind is replaced by a text that no character of `more` begins. -/
structure Scans (length : List Char → Nat) (more : Char → Bool) : Prop where
  le_length : ∀ cs, length cs ≤ cs.length
  cut : ∀ cs rest, startsWith more rest = false → length (cs.take (length cs) ++ rest) = length cs

/-- A text that a scanner takes as one word, whatever stands behind it that does not carry it on. -/
structure IsWord (length : List Char → Nat) (more : Char → Bool) (text : List Char) : Prop where
  ne_nil : text ≠ []
  length_append : ∀ rest, startsWith more rest = false → length (text ++ rest) = text.length

/-- What a scanner takes is a word of it, if it takes anything. -/
theorem Scans.isWord_take {length : List Char → Nat} {more : Char → Bool} (h : Scans length more)
    {cs : List Char} (hpos : length cs ≠ 0) : IsWord length more (cs.take (length cs)) := by
  have hlen : (cs.take (length cs)).length = length cs :=
    List.length_take_of_le (h.le_length cs)
  refine ⟨?_, fun rest hrest => ?_⟩
  · intro hnil
    rw [hnil] at hlen
    exact hpos hlen.symm
  · rw [hlen]
    exact h.cut cs rest hrest

/-- No character begins the empty text. -/
@[simp]
theorem startsWith_nil (p : Char → Bool) : startsWith p [] = false := rfl

/-- The first character begins a text. -/
@[simp]
theorem startsWith_cons (p : Char → Bool) (c : Char) (cs : List Char) :
    startsWith p (c :: cs) = p c := rfl

/-- A text begins with a character just if its head does. -/
theorem startsWith_eq_any_head? (p : Char → Bool) (cs : List Char) :
    startsWith p cs = cs.head?.any p := by
  cases cs <;> rfl

/-- A text begins with one of two sorts of characters if it begins with either. -/
theorem startsWith_or (p q : Char → Bool) (cs : List Char) :
    startsWith (fun c => p c || q c) cs = (startsWith p cs || startsWith q cs) := by
  cases cs <;> rfl

/-- A text that begins with no character of `q` begins with none of a smaller class. -/
theorem startsWith_mono {p q : Char → Bool} (hpq : ∀ c, p c = true → q c = true) {cs : List Char}
    (h : startsWith q cs = false) : startsWith p cs = false := by
  cases cs with
  | nil => rfl
  | cons c rest =>
      cases hp : p c with
      | false => exact hp
      | true => rw [startsWith_cons, hpq c hp] at h; exact absurd h (by decide)

/-! ### Runs -/

/-- A run stays inside the text. -/
theorem run_le_length (p : Char → Bool) (cs : List Char) : run p cs ≤ cs.length :=
  (List.takeWhile_sublist p).length_le

/-- A run takes the characters up to the first that is not of its kind. -/
theorem take_run (p : Char → Bool) (cs : List Char) : cs.take (run p cs) = cs.takeWhile p := by
  have h := congrArg (List.take (run p cs))
    (List.takeWhile_append_dropWhile (p := p) (l := cs))
  rw [← h]
  exact List.take_left

/-- What a run leaves begins where its characters end. -/
theorem drop_run (p : Char → Bool) (cs : List Char) : cs.drop (run p cs) = cs.dropWhile p := by
  have h := congrArg (List.drop (run p cs))
    (List.takeWhile_append_dropWhile (p := p) (l := cs))
  rw [← h]
  exact List.drop_left

/-- And so it begins with a character of another kind. -/
theorem startsWith_dropWhile (p : Char → Bool) (cs : List Char) :
    startsWith p (cs.dropWhile p) = false := by
  induction cs with
  | nil => rfl
  | cons c cs ih =>
      cases hc : p c with
      | true => rw [List.dropWhile_cons_of_pos hc]; exact ih
      | false =>
          rw [List.dropWhile_cons_of_neg (by simp [hc])]
          exact hc

/-- A run is a maximal stretch: its characters satisfy `p`, and the next one does not. -/
theorem run_append {p : Char → Bool} {part tail : List Char} (hpart : ∀ c ∈ part, p c = true)
    (htail : startsWith p tail = false) : run p (part ++ tail) = part.length := by
  rw [run, List.takeWhile_append_of_pos hpart]
  cases tail with
  | nil => simp
  | cons c rest =>
      have hc : ¬ p c = true := by rw [startsWith_cons] at htail; simp [htail]
      simp [List.takeWhile_cons_of_neg hc]

/-- A run over a part and no further has only characters of its kind in the part and none behind. -/
theorem of_run_append {p : Char → Bool} {part tail : List Char}
    (h : run p (part ++ tail) = part.length) :
    (∀ c ∈ part, p c = true) ∧ startsWith p tail = false := by
  have htake := take_run p (part ++ tail)
  have hdrop := drop_run p (part ++ tail)
  rw [h, List.take_left] at htake
  rw [h, List.drop_left] at hdrop
  refine ⟨fun c hc => ?_, ?_⟩
  · rw [htake] at hc
    exact List.mem_takeWhile_imp hc
  · rw [hdrop]
    exact startsWith_dropWhile p _

/-- A run is a scanner that is carried on by its own characters. -/
theorem run_scans (p : Char → Bool) : Scans (run p) p where
  le_length := run_le_length p
  cut cs rest hrest := by
    rw [take_run]
    exact run_append (fun c hc => List.mem_takeWhile_imp hc) hrest

/-! ### Names -/

/-- A letter may stand in a name. -/
theorem isNameChar_of_isAlpha {c : Char} (h : c.isAlpha = true) : isNameChar c = true := by
  simp [isNameChar, Char.isAlphanum, h]

/-- A character of names may stand in a pattern. -/
theorem isPatternChar_of_isNameChar {c : Char} (h : isNameChar c = true) :
    isPatternChar c = true := by
  simp [isPatternChar, h]

/-- The word at the start of some sigils and a text without a sigil in front. -/
theorem sigilWord_append (body : Char → Bool) {sigils tail : List Char}
    (hsigils : ∀ c ∈ sigils, isSigil c = true) (htail : startsWith isSigil tail = false) :
    sigilWord body (sigils ++ tail) =
      if (sigils.getLast? = some '_' && 2 ≤ sigils.length) ||
          (sigils ≠ [] && startsWith body tail) then sigils.length + run body tail
      else 0 := by
  have hrun : (sigils ++ tail).takeWhile isSigil = sigils := by
    rw [← take_run, run_append hsigils htail, List.take_left]
  simp only [sigilWord, hrun, List.drop_left]

/-- A word behind a sigil stays inside the text. -/
theorem sigilWord_le_length (body : Char → Bool) (cs : List Char) :
    sigilWord body cs ≤ cs.length := by
  have hsplit := congrArg List.length (List.takeWhile_append_dropWhile (p := isSigil) (l := cs))
  rw [List.length_append] at hsplit
  have hdrop : cs.drop (cs.takeWhile isSigil).length = cs.dropWhile isSigil := drop_run isSigil cs
  have hrun := run_le_length body (cs.dropWhile isSigil)
  simp only [sigilWord, hdrop]
  split <;> omega

/-- A word with sigils in front, with what it is made of. -/
theorem of_sigilWord_append {body : Char → Bool} {part tail : List Char} (hpart : part ≠ [])
    (h : sigilWord body (part ++ tail) = part.length) :
    ∃ sigils rest, part = sigils ++ rest ∧ (∀ c ∈ sigils, isSigil c = true) ∧
      startsWith isSigil (rest ++ tail) = false ∧
      ((sigils.getLast? = some '_' && 2 ≤ sigils.length) ||
        (sigils ≠ [] && startsWith body (rest ++ tail))) = true ∧
      run body (rest ++ tail) = rest.length := by
  have hne : sigilWord body (part ++ tail) ≠ 0 := by
    rw [h]
    exact fun h0 => hpart (List.length_eq_zero_iff.mp h0)
  let sigils := (part ++ tail).takeWhile isSigil
  let after := (part ++ tail).dropWhile isSigil
  have hsplit : part ++ tail = sigils ++ after := List.takeWhile_append_dropWhile.symm
  have hsigils : ∀ c ∈ sigils, isSigil c = true := fun c hc => List.mem_takeWhile_imp hc
  have hafter : startsWith isSigil after = false := startsWith_dropWhile isSigil _
  rw [hsplit, sigilWord_append body hsigils hafter] at hne h
  split at hne
  case isFalse => exact absurd rfl hne
  case isTrue hcond =>
    rw [if_pos hcond] at h
    -- The sigils lie inside the word, since the word is at least as long.
    have hrest : after = part.drop sigils.length ++ tail := by
      have := congrArg (List.drop sigils.length) hsplit
      rw [List.drop_left, List.drop_append_of_le_length (by omega)] at this
      exact this.symm
    have htake : part.take sigils.length = sigils := by
      have := congrArg (List.take sigils.length) hsplit
      rwa [List.take_left, List.take_append_of_le_length (by omega)] at this
    have hpre : part = sigils ++ part.drop sigils.length := by
      rw [← htake, List.length_take_of_le (by omega), List.take_append_drop]
    refine ⟨sigils, part.drop sigils.length, hpre, hsigils, ?_, ?_, ?_⟩
    · rw [← hrest]; exact hafter
    · rw [← hrest]; exact hcond
    · rw [← hrest, List.length_drop]; omega

/-- Two texts that begin alike, or a text that begins with neither a sigil nor a body character. -/
def SameStart (more : Char → Bool) (tail tail' : List Char) : Prop :=
  tail'.head? = tail.head? ∨ startsWith more tail' = false

/-- Behind characters that are kept, a text that begins alike satisfies no less. -/
theorem startsWith_append_sameStart (part : List Char) {p more : Char → Bool}
    (hp : ∀ c, p c = true → more c = true) {tail tail' : List Char} (hstart : SameStart more tail tail')
    (h : startsWith p (part ++ tail) = false) : startsWith p (part ++ tail') = false := by
  cases part with
  | cons c part => exact h
  | nil =>
      rw [List.nil_append] at h ⊢
      rcases hstart with hhead | hstop
      · rw [startsWith_eq_any_head?, hhead, ← startsWith_eq_any_head?]; exact h
      · exact startsWith_mono hp hstop

/-- A word behind a sigil is found again before another text that begins alike. -/
theorem sigilWord_sameStart {body : Char → Bool} {part tail tail' : List Char} (hpart : part ≠ [])
    (hstart : SameStart (fun c => body c || isSigil c) tail tail')
    (h : sigilWord body (part ++ tail) = part.length) :
    sigilWord body (part ++ tail') = part.length := by
  obtain ⟨sigils, rest, rfl, hsigils, hnosigil, hcond, hrun⟩ := of_sigilWord_append hpart h
  have hnosigil' : startsWith isSigil (rest ++ tail') = false :=
    startsWith_append_sameStart rest (fun c hc => by simp [hc]) hstart hnosigil
  obtain ⟨hrest, htail⟩ := of_run_append hrun
  have htail' : startsWith body tail' = false :=
    startsWith_append_sameStart [] (fun c hc => by simp [hc]) hstart htail
  have hcond' : ((sigils.getLast? = some '_' && 2 ≤ sigils.length) ||
      (sigils ≠ [] && startsWith body (rest ++ tail'))) = true := by
    cases rest with
    | cons c rest => exact hcond
    | nil =>
        rw [List.nil_append] at hcond ⊢
        rw [htail] at hcond
        rw [htail']
        exact hcond
  rw [List.append_assoc, sigilWord_append body hsigils hnosigil', if_pos hcond',
    run_append hrest htail', List.length_append]

/-- An identifier stays inside the text. -/
theorem identifier_le_length (cs : List Char) : identifier cs ≤ cs.length := by
  cases cs with
  | nil => exact Nat.le_refl 0
  | cons c rest =>
      have hrun := run_le_length isNameChar rest
      have hword := sigilWord_le_length isNameChar (c :: rest)
      simp only [identifier]
      split
      · rw [List.length_cons]; omega
      · exact hword

/-- A word that a name scanner of the given start and body finds is found again. -/
theorem nameWord_sameStart {first body : Char → Bool} {part tail tail' : List Char}
    (length : List Char → Nat) (hstart : SameStart (fun c => body c || isSigil c) tail tail')
    (hlength : ∀ c rest, length (c :: rest) =
      if first c then run body rest + 1 else sigilWord body (c :: rest))
    (hpart : part ≠ []) (h : length (part ++ tail) = part.length) :
    length (part ++ tail') = part.length := by
  cases part with
  | nil => exact absurd rfl hpart
  | cons c part =>
      rw [List.cons_append, hlength] at h ⊢
      split at h
      case isTrue hc =>
        rw [if_pos hc]
        obtain ⟨hpart, htail⟩ := of_run_append (Nat.succ.inj h)
        have htail' : startsWith body tail' = false :=
          startsWith_append_sameStart [] (fun c hc => by simp [hc]) hstart htail
        rw [run_append hpart htail', List.length_cons]
      case isFalse hc =>
        rw [if_neg hc]
        exact sigilWord_sameStart (List.cons_ne_nil c part) hstart h

/-- A scanner that begins with a word and sees nothing else scans, if it looks one character
ahead. -/
theorem scans_of_sameStart {length : List Char → Nat} {more : Char → Bool}
    (hle : ∀ cs, length cs ≤ cs.length)
    (hzero : ∀ rest, startsWith more rest = false → length rest = 0)
    (hkeep : ∀ {part tail tail' : List Char}, part ≠ [] → SameStart more tail tail' →
      length (part ++ tail) = part.length → length (part ++ tail') = part.length) :
    Scans length more where
  le_length := hle
  cut cs rest hrest := by
    by_cases hnil : length cs = 0
    · rw [hnil, List.take_zero, List.nil_append]
      exact hzero rest hrest
    · have hlen : (cs.take (length cs)).length = length cs := List.length_take_of_le (hle cs)
      have hne : cs.take (length cs) ≠ [] := by
        intro h
        rw [h] at hlen
        exact hnil hlen.symm
      have hsplit : length (cs.take (length cs) ++ cs.drop (length cs)) =
          (cs.take (length cs)).length := by
        rw [List.take_append_drop, hlen]
      rw [hkeep hne (.inr hrest) hsplit, hlen]

/-- A word behind a sigil is nothing where no sigil stands. -/
theorem sigilWord_eq_zero {body : Char → Bool} {cs : List Char}
    (h : startsWith isSigil cs = false) : sigilWord body cs = 0 := by
  have := sigilWord_append body (List.forall_mem_nil _) h
  simpa using this

/-- Identifiers are scanned, carried on by characters of names and by sigils. -/
theorem identifier_scans : Scans identifier (fun c => isNameChar c || isSigil c) := by
  refine scans_of_sameStart identifier_le_length (fun rest hrest => ?_)
    (fun hpart hstart h => nameWord_sameStart identifier hstart (fun _ _ => rfl) hpart h)
  cases rest with
  | nil => rfl
  | cons c rest =>
      obtain ⟨hname, hsigil⟩ := Bool.or_eq_false_iff.mp hrest
      have halpha : ¬ c.isAlpha = true := fun h => by
        rw [isNameChar_of_isAlpha h] at hname; exact absurd hname (by decide)
      rw [identifier, if_neg halpha]
      exact sigilWord_eq_zero hsigil

/-! ### Field patterns -/

/-- A bare part of a pattern stays inside the text. -/
theorem barePart_le_length (cs : List Char) : barePart cs ≤ cs.length := by
  cases cs with
  | nil => exact Nat.le_refl 0
  | cons c rest =>
      have hrun := run_le_length isPatternChar rest
      have hword := sigilWord_le_length isPatternChar (c :: rest)
      simp only [barePart]
      split
      · rw [List.length_cons]; omega
      · exact hword

/-- The closing backquote is inside the text, and behind its start. -/
theorem close?_le_length {cs : List Char} {n : Nat} (h : Text.Backquoted.close? cs = some n) :
    0 < n ∧ n ≤ cs.length := by
  induction cs using Text.Backquoted.close?.induct generalizing n with
  | case1 => simp [Text.Backquoted.close?] at h
  | case2 rest ih =>
      simp only [Text.Backquoted.close?, Option.map_eq_some_iff] at h
      obtain ⟨m, hm, rfl⟩ := h
      have := ih hm
      simp only [List.length_cons]
      omega
  | case3 rest hrest =>
      rw [Text.Backquoted.close?] at h
      · cases h; simp
      · exact hrest
  | case4 c rest hc _ ih =>
      rw [Text.Backquoted.close?] at h
      · obtain ⟨m, hm, rfl⟩ := Option.map_eq_some_iff.mp h
        have := ih hm
        simp only [List.length_cons]
        omega
      · assumption
      · assumption

/-- A closing backquote is found again behind the same text, unless another one follows it. -/
theorem close?_sameStart {part tail tail' : List Char} (hstart : SameStart (· = '\x60') tail tail')
    (h : Text.Backquoted.close? (part ++ tail) = some part.length) :
    Text.Backquoted.close? (part ++ tail') = some part.length := by
  induction part using Text.Backquoted.close?.induct with
  | case1 => exact absurd (close?_le_length h).1 (by simp)
  | case2 rest ih =>
      simp only [List.cons_append, Text.Backquoted.close?, Option.map_eq_some_iff] at h ⊢
      obtain ⟨m, hm, hlen⟩ := h
      simp only [List.length_cons] at hlen ⊢
      refine ⟨rest.length, ih ?_, rfl⟩
      rw [hm, show m = rest.length by omega]
  | case3 rest hrest =>
      cases rest with
      | cons c rest =>
          -- A backquote that nothing doubles is the last character.
          have hc : ∀ r, c :: (rest ++ tail) ≠ '\x60' :: r := fun r hr => by
            cases hr; exact hrest rest rfl
          rw [List.cons_append, List.cons_append, Text.Backquoted.close?] at h
          · simp at h
          · exact fun r hr => hc r hr
      | nil =>
          rw [List.singleton_append] at h ⊢
          have htail : startsWith (· = '\x60') tail = false := by
            cases tail with
            | nil => rfl
            | cons c tail =>
                rw [startsWith_cons, decide_eq_false_iff_not]
                rintro rfl
                rw [Text.Backquoted.close?] at h
                obtain ⟨m, hm, hlen⟩ := Option.map_eq_some_iff.mp h
                simp at hlen
          have htail' := startsWith_append_sameStart [] (fun c hc => hc) hstart htail
          rw [Text.Backquoted.close?]
          · rfl
          · rintro r rfl
            simp at htail'
  | case4 c rest hc hc' ih =>
      rw [List.cons_append, Text.Backquoted.close?] at h ⊢
      · obtain ⟨m, hm, hlen⟩ := Option.map_eq_some_iff.mp h
        simp only [List.length_cons] at hlen
        rw [ih (by rw [hm, show m = rest.length by omega])]
        rfl
      all_goals
        intros
        simp_all

/-- The characters that carry a field pattern on. -/
def carriesPattern (c : Char) : Bool :=
  isPatternChar c || isSigil c || c = '\x60'

/-- A part of a pattern, bare or quoted, stays inside the text. -/
theorem patternPart?_le_length {cs : List Char} {n : Nat} (h : patternPart? cs = some n) :
    n ≤ cs.length := by
  unfold patternPart? at h
  split at h
  · obtain ⟨m, hm, rfl⟩ := Option.map_eq_some_iff.mp h
    have := (close?_le_length hm).2
    rw [List.length_drop] at this
    cases cs with
    | nil => simp [startsWith] at *
    | cons c rest => simp only [List.length_cons] at *; omega
  · cases h
    exact barePart_le_length cs

/-- A part of a pattern is found again before another text that begins alike. -/
theorem patternPart?_sameStart {part tail tail' : List Char} (hpart : part ≠ [])
    (hstart : SameStart carriesPattern tail tail')
    (h : patternPart? (part ++ tail) = some part.length) :
    patternPart? (part ++ tail') = some part.length := by
  cases part with
  | nil => exact absurd rfl hpart
  | cons c part =>
      simp only [patternPart?, List.cons_append, startsWith_cons, Text.Backquoted.length?,
        List.drop_one, List.tail_cons, List.length_cons] at h ⊢
      split at h
      case isTrue hc =>
        rw [if_pos hc]
        obtain ⟨m, hm, hlen⟩ := Option.map_eq_some_iff.mp h
        -- A quoted part would only go on at another backquote.
        have hstart' : SameStart (· = '\x60') tail tail' :=
          hstart.imp_right (startsWith_mono fun c hc => by simp_all [carriesPattern])
        rw [close?_sameStart hstart' (by rw [hm, show m = part.length by omega])]
        rfl
      case isFalse hc =>
        rw [if_neg hc]
        -- A bare part would go on at a character of patterns or at a sign.
        have hstart' : SameStart (fun c => isPatternChar c || isSigil c) tail tail' :=
          hstart.imp_right (startsWith_mono fun c hc => by simp_all [carriesPattern])
        have hbare : barePart (c :: part ++ tail) = (c :: part).length := Option.some.inj h
        exact congrArg some (nameWord_sameStart barePart hstart' (fun _ _ => rfl)
          (List.cons_ne_nil c part) hbare)

/-- A field pattern behind its first part. -/
theorem pattern_append {part tail : List Char} (hpart : part ≠ [])
    (h : patternPart? (part ++ tail) = some part.length) :
    pattern (part ++ tail) =
      match pattern tail with
      | .unterminated => .unterminated
      | .whole more => .whole (part.length + more) := by
  cases part with
  | nil => exact absurd rfl hpart
  | cons c part =>
      rw [pattern, h]
      simp only [List.cons_append, List.length_cons]
      cases hmore : pattern tail <;> simp only [List.drop_left, hmore]

/-- A field pattern is over where no part begins. -/
theorem pattern_stop {cs : List Char} (h : startsWith carriesPattern cs = false) :
    pattern cs = .whole 0 := by
  have hzero : patternPart? cs = some 0 := by
    cases cs with
    | nil => rfl
    | cons c rest =>
        simp only [startsWith_cons, carriesPattern, Bool.or_eq_false_iff] at h
        obtain ⟨⟨hchar, hsigil⟩, hquote⟩ := h
        have halpha : ¬ (c.isAlpha || c = '*') = true := by
          intro hc
          have : isPatternChar c = true := by
            rcases Bool.or_eq_true_iff.mp hc with ha | hs
            · exact isPatternChar_of_isNameChar (isNameChar_of_isAlpha ha)
            · simp [isPatternChar, hs]
          rw [this] at hchar
          exact absurd hchar (by decide)
        have hword : sigilWord isPatternChar (c :: rest) = 0 := sigilWord_eq_zero hsigil
        simp only [patternPart?, startsWith_cons, hquote, barePart, if_neg halpha, hword]
        rfl
  rw [pattern, hzero]

/-- The first part of a field pattern that is not empty. -/
theorem of_pattern_whole {cs : List Char} {n : Nat} (h : pattern cs = .whole n) (hn : n ≠ 0) :
    ∃ part tail more, part ≠ [] ∧ cs = part ++ tail ∧
      patternPart? (part ++ tail) = some part.length ∧ pattern tail = .whole more ∧
      n = part.length + more := by
  cases hnext : patternPart? cs with
  | none => rw [pattern, hnext] at h; exact absurd h (by simp)
  | some k =>
      have hle := patternPart?_le_length hnext
      cases k with
      -- An empty part ends the pattern, which would be empty then.
      | zero =>
          rw [pattern, hnext] at h
          exact absurd (Pattern.whole.inj h).symm hn
      | succ k =>
          have hlen : (cs.take (k + 1)).length = k + 1 := List.length_take_of_le hle
          have hne : cs.take (k + 1) ≠ [] := fun h0 => by rw [h0] at hlen; simp at hlen
          have hcs : cs = cs.take (k + 1) ++ cs.drop (k + 1) := (List.take_append_drop _ _).symm
          have hpart : patternPart? (cs.take (k + 1) ++ cs.drop (k + 1)) =
              some (cs.take (k + 1)).length := by rw [← hcs, hlen]; exact hnext
          rw [hcs, pattern_append hne hpart] at h
          split at h
          · exact absurd h (by simp)
          · rename_i more hmore
            exact ⟨_, _, more, hne, hcs, hpart, hmore, (Pattern.whole.inj h).symm⟩

/-- A pattern stays inside the text. -/
theorem pattern_le_length {cs : List Char} {n : Nat} (h : pattern cs = .whole n) :
    n ≤ cs.length := by
  induction hk : cs.length using Nat.strong_induction_on generalizing cs n with
  | _ k ih =>
      by_cases hn : n = 0
      · omega
      · obtain ⟨part, tail, more, hne, rfl, hpart, hmore, rfl⟩ := of_pattern_whole h hn
        have hpos := List.length_pos_iff.mpr hne
        rw [List.length_append] at hk
        have := ih tail.length (by omega) hmore rfl
        omega

/-- A field pattern is found again in front of a text that does not carry it on. The induction is
on the text, part by part. -/
theorem pattern_cut {part : List Char} (tail : List Char) {tail' : List Char}
    (hstop : startsWith carriesPattern tail' = false)
    (h : pattern (part ++ tail) = .whole part.length) :
    pattern (part ++ tail') = .whole part.length := by
  induction hk : part.length using Nat.strong_induction_on generalizing part with
  | _ k ih =>
      -- By induction on the length of the part: its first piece is read the same and the rest is
      -- shorter.
      by_cases hnil : part = []
      · subst hnil hk
        exact pattern_stop hstop
      · have hpos : part.length ≠ 0 := fun h0 => hnil (List.length_eq_zero_iff.mp h0)
        obtain ⟨first, rest, more, hne, hsplit, hfirst, hmore, hlen⟩ := of_pattern_whole h hpos
        have hrest : rest = part.drop first.length ++ tail := by
          have := congrArg (List.drop first.length) hsplit
          rw [List.drop_left, List.drop_append_of_le_length (by omega)] at this
          exact this.symm
        have htake : part.take first.length = first := by
          have := congrArg (List.take first.length) hsplit
          rwa [List.take_left, List.take_append_of_le_length (by omega)] at this
        have hpart : part = first ++ part.drop first.length := by
          conv => lhs; rw [← List.take_append_drop first.length part, htake]
        have hdrop : (part.drop first.length).length = more := by
          rw [List.length_drop]; omega
        have hfirstpos := List.length_pos_iff.mpr hne
        have htail : pattern (part.drop first.length ++ tail') = .whole more :=
          ih more (by omega) (by rw [← hrest, hdrop]; exact hmore) hdrop
        -- What a piece looks at behind itself is one character, and that one is the same.
        have hstart : SameStart carriesPattern rest (part.drop first.length ++ tail') := by
          rw [hrest]
          cases part.drop first.length with
          | nil => exact .inr hstop
          | cons c cs => exact .inl rfl
        have hfirst' := patternPart?_sameStart hne hstart hfirst
        rw [hpart, List.append_assoc, pattern_append hne hfirst', htail]
        simp only [Pattern.whole.injEq]
        omega

/-- A text that is one field pattern, whatever stands behind it that does not carry it on. -/
structure IsPattern (text : List Char) : Prop where
  ne_nil : text ≠ []
  pattern_append : ∀ rest, startsWith carriesPattern rest = false →
    pattern (text ++ rest) = .whole text.length

/-- What is taken as a pattern is one. -/
theorem isPattern_take {cs : List Char} {n : Nat} (h : pattern cs = .whole n) (hn : n ≠ 0) :
    IsPattern (cs.take n) := by
  have hlen : (cs.take n).length = n := List.length_take_of_le (pattern_le_length h)
  refine ⟨fun h0 => by rw [h0] at hlen; exact hn hlen.symm, fun rest hrest => ?_⟩
  refine pattern_cut (cs.drop n) hrest ?_
  rw [List.take_append_drop, hlen, h]

end PipeQuery.Token.Shape
