import PipeQuery.Proofs.Render.Codec

/-!
# `PipeQuery.Proofs.Token.Division`: the parts of a field pattern

A field pattern is bare runs and names between backquotes, glued together. Three parts of the
program divide it, each in its own way: the lexer takes part after part (`Shape.pattern`), the
decoding goes over the characters and looks ahead at backquotes (`Backquoted.strip`), and the test
for wildcards only changes sides at each backquote (`Backquoted.starOutside`).

* `Shape.Divides` is the division that the lexer makes: there is one for every pattern
  (`Shape.exists_divides`) and no other (`Shape.Divides.unique`).
* `Shape.Divides.follow_eq` and `Shape.Divides.starOutside_iff`: the other two see the same parts.
* `Lexer.pattern_division` puts them together, for the pattern tokens of any text.

`Backquoted.follow` is the decoding with its end state, which tells whether a quote is open.
-/

set_option autoImplicit false

namespace PipeQuery

open PipeQuery.Token PipeQuery.Text

/-! ### Between backquotes -/

namespace Text.Backquoted

/-- `strip`, and whether a quote is open at the end. -/
def follow : Bool → List Char → List Char × Bool
  | quoted, [] => ([], quoted)
  | true, '\x60' :: '\x60' :: rest => ('\x60' :: (follow true rest).1, (follow true rest).2)
  | quoted, '\x60' :: rest => follow (!quoted) rest
  | quoted, c :: rest => (c :: (follow quoted rest).1, (follow quoted rest).2)

/-- The walk along a pattern takes out the quotes that `strip` takes out. -/
theorem follow_fst (quoted : Bool) (cs : List Char) : (follow quoted cs).1 = strip quoted cs := by
  induction quoted, cs using strip.induct with
  | case1 quoted => rfl
  | case2 rest ih => rw [follow, strip, ih]
  | case3 quoted rest hdoubled ih =>
      rw [follow, strip, ih]
      · exact hdoubled
      · exact hdoubled
  | case4 quoted c rest hdoubled hquote ih =>
      rw [follow, strip, ih]
      all_goals assumption

/-- A backquote is written twice between backquotes. -/
theorem doubled_quote (cs : List Char) : doubled ('\x60' :: cs) = '\x60' :: '\x60' :: doubled cs :=
  rfl

/-- Other characters are written once. -/
theorem doubled_plain {c : Char} (hc : c ≠ '\x60') (cs : List Char) :
    doubled (c :: cs) = c :: doubled cs := by
  rw [doubled, List.flatMap_cons, if_neg hc]
  rfl

variable {rest : List Char}

/-- Where no backquote stands, the walk keeps the character and the side it is on. -/
theorem follow_plain (quoted : Bool) {c : Char} (hc : c ≠ '\x60') (rest : List Char) :
    follow quoted (c :: rest) = (c :: (follow quoted rest).1, (follow quoted rest).2) := by
  rw [follow]
  · exact hc
  · exact fun _ _ h _ => hc h

/-- A backquote outside of quotes opens them. -/
theorem follow_open (rest : List Char) : follow false ('\x60' :: rest) = follow true rest := by
  rw [follow]
  · rfl
  · exact fun _ h => nomatch h

/-- A bare run is decoded to itself. -/
theorem follow_bare {run : List Char} (hrun : '\x60' ∉ run) (rest : List Char) :
    follow false (run ++ rest) = (run ++ (follow false rest).1, (follow false rest).2) := by
  induction run with
  | nil => rfl
  | cons c run ih =>
      rw [List.mem_cons, not_or] at hrun
      rw [List.cons_append, follow_plain false (Ne.symm hrun.1), ih hrun.2]
      rfl

/-- A name between backquotes is decoded to the name, if the backquote behind it closes it. -/
theorem follow_quoted (name : List Char) (hrest : rest.head? ≠ some '\x60') :
    follow true (doubled name ++ '\x60' :: rest) =
      (name ++ (follow false rest).1, (follow false rest).2) := by
  induction name with
  | nil =>
      show follow true ('\x60' :: rest) = follow false rest
      rw [follow]
      · rfl
      · rintro behind - rfl
        exact hrest rfl
  | cons c name ih =>
      by_cases hc : c = '\x60'
      · subst hc
        rw [doubled_quote, List.cons_append, List.cons_append, follow, ih]
        rfl
      · rw [doubled_plain hc, List.cons_append, follow_plain true hc, ih]
        rfl

/-- A bare run has a wildcard where it has an asterisk. -/
theorem starOutside_bare {run : List Char} (hrun : '\x60' ∉ run) (rest : List Char) :
    starOutside false (run ++ rest) = true ↔ '*' ∈ run ∨ starOutside false rest = true := by
  induction run with
  | nil => simp
  | cons c run ih =>
      rw [List.mem_cons, not_or] at hrun
      rw [List.cons_append, starOutside, if_neg (Ne.symm hrun.1), List.mem_cons]
      by_cases hc : c = '*'
      · simp [hc]
      · rw [if_neg (by simp [hc]), ih hrun.2]
        simp [Ne.symm hc]

/-- No asterisk between backquotes is a wildcard. A backquote in the name changes sides twice. -/
theorem starOutside_quoted (name rest : List Char) :
    starOutside true (doubled name ++ '\x60' :: rest) = starOutside false rest := by
  induction name with
  | nil => rfl
  | cons c name ih =>
      by_cases hc : c = '\x60'
      · subst hc
        exact ih
      · rw [doubled_plain hc, List.cons_append, starOutside, if_neg hc, if_neg (by simp), ih]

/-- What is closed by a backquote is a name. -/
theorem of_close? {cs : List Char} {n : Nat} (h : close? cs = some n) :
    ∃ name rest, cs = doubled name ++ '\x60' :: rest ∧ n = (doubled name).length + 1 ∧
      rest.head? ≠ some '\x60' := by
  induction cs using close?.induct generalizing n with
  | case1 => cases h
  -- Two backquotes are one of the name; a single one closes it.
  | case2 rest ih =>
      rw [close?] at h
      obtain ⟨m, hm, rfl⟩ := Option.map_eq_some_iff.mp h
      obtain ⟨name, behind, rfl, rfl, hbehind⟩ := ih hm
      exact ⟨'\x60' :: name, behind, rfl, rfl, hbehind⟩
  | case3 rest hrest =>
      rw [close?] at h
      · refine ⟨[], rest, rfl, (Option.some.inj h).symm, fun hhead => ?_⟩
        obtain ⟨behind, rfl⟩ := List.head?_eq_some_iff.mp hhead
        exact hrest behind rfl
      · exact hrest
  | case4 c rest hdoubled hquote ih =>
      rw [close?] at h
      · obtain ⟨m, hm, rfl⟩ := Option.map_eq_some_iff.mp h
        obtain ⟨name, behind, rfl, rfl, hbehind⟩ := ih hm
        have hc : c ≠ '\x60' := fun hc => hquote hc
        exact ⟨c :: name, behind, by rw [doubled_plain hc]; rfl, by rw [doubled_plain hc]; rfl,
          hbehind⟩
      · assumption
      · assumption

end Text.Backquoted

/-! ### Parts -/

namespace Token.Shape

/-- A part of a field pattern: a bare run, or a name between backquotes. -/
inductive Part where
  | bare (run : List Char)
  | quoted (name : List Char)
deriving DecidableEq, Repr

namespace Part

/-- The part as it is written: in a name between backquotes each backquote is doubled. -/
def chars : Part → List Char
  | .bare run => run
  | .quoted name => '\x60' :: (Backquoted.doubled name ++ ['\x60'])

/-- What the part stands for. -/
def meaning : Part → List Char
  | .bare run => run
  | .quoted name => name

/-- A bare run has characters, and these are letters, digits, underscores, at signs and
asterisks. -/
def IsSpelled : Part → Prop
  | .bare run => run ≠ [] ∧ ∀ c ∈ run, c.isAlphanum = true ∨ c = '_' ∨ c = '@' ∨ c = '*'
  | .quoted _ => True

/-- The part is a bare run with an asterisk in it. -/
def HasStar : Part → Prop
  | .bare run => '*' ∈ run
  | .quoted _ => False

/-- A part of a pattern that is written has a character. -/
theorem IsSpelled.ne_nil {p : Part} (h : p.IsSpelled) : p.chars ≠ [] := by
  cases p with
  | bare run => exact h.1
  | quoted name => nofun

/-- A bare part has no backquote in it. -/
theorem IsSpelled.not_mem_bare {run : List Char} (h : (Part.bare run).IsSpelled) :
    '\x60' ∉ run := by
  intro hmem
  rcases h.2 _ hmem with h | h | h | h <;> cases h

/-- A part is determined by how it is written. -/
theorem chars_inj {p p' : Part} (h : p.IsSpelled) (h' : p'.IsSpelled)
    (hchars : p.chars = p'.chars) : p' = p := by
  cases p with
  | bare run =>
      cases p' with
      | bare run' => exact congrArg Part.bare hchars.symm
      | quoted name =>
          obtain rfl : run = (Part.quoted name).chars := hchars
          exact absurd List.mem_cons_self h.not_mem_bare
  | quoted name =>
      cases p' with
      | bare run =>
          obtain rfl : (Part.quoted name).chars = run := hchars
          exact absurd List.mem_cons_self h'.not_mem_bare
      | quoted name' =>
          -- The decoding gives the name back.
          have hname := @Backquoted.follow_quoted [] name (by simp)
          have hname' := @Backquoted.follow_quoted [] name' (by simp)
          rw [← List.cons.inj hchars |>.2, hname] at hname'
          simpa [Backquoted.follow] using hname'.symm

end Part

/-- Where there is a part there is not the end of the pattern. -/
theorem Part.IsSpelled.patternPart?_ne_zero {p : Part} (hspelled : p.IsSpelled) {cs : List Char}
    (h : patternPart? cs = some p.chars.length) : patternPart? cs ≠ some 0 := by
  intro hzero
  rw [h] at hzero
  exact hspelled.ne_nil (List.length_eq_zero_iff.mp (Option.some.inj hzero))

/-- A quoted part stands between backquotes, and those in it are doubled. -/
theorem flatMap_chars_quoted (name : List Char) (parts : List Part) :
    List.flatMap Part.chars (.quoted name :: parts) =
      '\x60' :: (Backquoted.doubled name ++ '\x60' :: parts.flatMap Part.chars) := by
  simp [Part.chars]

/-- The parts that the lexer takes one after the other from the start of a text. -/
inductive Divides : List Char → List Part → Prop where
  | done {cs : List Char} (h : patternPart? cs = some 0) : Divides cs []
  | part {p : Part} {rest : List Char} {parts : List Part} (hspelled : p.IsSpelled)
    (h : patternPart? (p.chars ++ rest) = some p.chars.length) (more : Divides rest parts) :
    Divides (p.chars ++ rest) (p :: parts)

/-- A word behind a sigil has the sigil and characters of its body. -/
theorem mem_take_sigilWord {body : Char → Bool} {cs : List Char} {c : Char}
    (h : c ∈ cs.take (sigilWord body cs)) : body c = true ∨ isSigil c = true := by
  simp only [sigilWord] at h
  split at h
  · rw [List.take_add, List.mem_append] at h
    rcases h with h | h
    · have hsigils : cs.take (cs.takeWhile isSigil).length = cs.takeWhile isSigil :=
        take_run isSigil cs
      rw [hsigils] at h
      exact .inr (List.mem_takeWhile_imp h)
    · rw [take_run] at h
      exact .inl (List.mem_takeWhile_imp h)
  · cases h

/-- A bare part has characters of patterns and sigils. -/
theorem mem_take_barePart {cs : List Char} {c : Char} (h : c ∈ cs.take (barePart cs)) :
    isPatternChar c = true ∨ isSigil c = true := by
  cases cs with
  | nil => cases h
  | cons first rest =>
      rw [barePart] at h
      split at h
      · rename_i hfirst
        rw [List.take_succ_cons, take_run] at h
        rcases List.mem_cons.mp h with rfl | h
        · rcases Bool.or_eq_true_iff.mp hfirst with halpha | hstar
          · exact .inl (isPatternChar_of_isNameChar (isNameChar_of_isAlpha halpha))
          · exact .inl (by simp [isPatternChar, hstar])
        · exact .inl (List.mem_takeWhile_imp h)
      · exact mem_take_sigilWord h

/-- A part that the lexer takes is a bare or a quoted one, spelled as such. -/
theorem of_patternPart? {cs : List Char} {n : Nat} (h : patternPart? cs = some n) (hn : n ≠ 0) :
    ∃ (p : Part) (rest : List Char), p.IsSpelled ∧ cs = p.chars ++ rest ∧ p.chars.length = n := by
  unfold patternPart? at h
  split at h
  · rename_i hquote
    obtain ⟨rest, rfl⟩ : ∃ rest, cs = '\x60' :: rest := by
      cases cs with
      | nil => cases hquote
      | cons c rest => exact ⟨rest, by rw [of_decide_eq_true hquote]⟩
    obtain ⟨m, hm, rfl⟩ := Option.map_eq_some_iff.mp h
    obtain ⟨name, behind, hrest, rfl, -⟩ := Backquoted.of_close? hm
    obtain rfl : rest = Backquoted.doubled name ++ '\x60' :: behind := hrest
    exact ⟨.quoted name, behind, trivial, by simp [Part.chars], by simp [Part.chars]⟩
  · obtain rfl : barePart cs = n := Option.some.inj h
    have hlength : (cs.take (barePart cs)).length = barePart cs :=
      List.length_take_of_le (barePart_le_length cs)
    refine ⟨.bare (cs.take (barePart cs)), cs.drop (barePart cs), ⟨?_, fun c hc => ?_⟩,
      (List.take_append_drop _ _).symm, hlength⟩
    · rintro hnil
      rw [hnil] at hlength
      exact hn hlength.symm
    · have := mem_take_barePart hc
      simp only [isPatternChar, isNameChar, isSigil, Bool.or_eq_true, decide_eq_true_eq] at this
      tauto

/-- Where a pattern is empty its first part is. -/
theorem patternPart?_of_pattern {cs : List Char} (h : pattern cs = .whole 0) :
    patternPart? cs = some 0 := by
  cases hnext : patternPart? cs with
  | none => rw [pattern, hnext] at h; cases h
  | some n =>
      cases n with
      | zero => rfl
      | succ n =>
          have hle := patternPart?_le_length hnext
          cases cs with
          | nil => exact absurd hle (Nat.not_succ_le_zero n)
          | cons c rest =>
              rw [pattern, hnext] at h
              simp only at h
              split at h
              · cases h
              · have := Pattern.whole.inj h
                omega

/-- A pattern that is closed is divided into parts. The induction is on the length of the text. -/
theorem exists_divides {cs : List Char} {n : Nat} (h : pattern cs = .whole n) :
    ∃ parts, Divides cs parts ∧ (parts.flatMap Part.chars).length = n := by
  induction hk : cs.length using Nat.strong_induction_on generalizing cs n with
  | _ k ih =>
      by_cases hn : n = 0
      · subst hn
        exact ⟨[], .done (patternPart?_of_pattern h), rfl⟩
      · obtain ⟨part, tail, more, hne, rfl, hpart, hmore, rfl⟩ := of_pattern_whole h hn
        obtain ⟨p, rest, hspelled, hsplit, hlength⟩ :=
          of_patternPart? hpart (fun hzero => hne (List.length_eq_zero_iff.mp hzero))
        obtain ⟨rfl, rfl⟩ := List.append_inj hsplit hlength.symm
        have hpos := List.length_pos_iff.mpr hne
        rw [List.length_append] at hk
        obtain ⟨parts, hdivides, htotal⟩ := ih tail.length (by omega) hmore rfl
        exact ⟨p :: parts, .part hspelled hpart hdivides,
          by rw [List.flatMap_cons, List.length_append, htotal]⟩

/-- A backquote behind a part between backquotes would be a part of it. -/
theorem head?_of_quoted {name rest : List Char}
    (h : patternPart? ((Part.quoted name).chars ++ rest) = some (Part.quoted name).chars.length) :
    rest.head? ≠ some '\x60' := by
  rw [patternPart?, if_pos (show startsWith (· = '\x60') ((Part.quoted name).chars ++ rest) = true
    from rfl)] at h
  obtain ⟨n, hn, hlength⟩ := Option.map_eq_some_iff.mp h
  obtain ⟨name', rest', hsplit, hn', hrest'⟩ := Backquoted.of_close? hn
  have hsame : (Backquoted.doubled name).length = (Backquoted.doubled name').length := by
    simp only [Part.chars, List.length_cons, List.length_append, List.length_nil] at hlength
    omega
  have hchars : Backquoted.doubled name ++ '\x60' :: rest =
      Backquoted.doubled name' ++ '\x60' :: rest' := by
    rw [← hsplit]
    simp [Part.chars]
  obtain ⟨-, hrest⟩ := List.append_inj hchars hsame
  rw [(List.cons.inj hrest).2]
  exact hrest'

namespace Divides

variable {cs : List Char} {parts : List Part}

/-- The parts stand at the start of the text. -/
theorem prefix_eq (h : Divides cs parts) : ∃ behind, cs = parts.flatMap Part.chars ++ behind := by
  induction h with
  | @done cs _ => exact ⟨cs, rfl⟩
  | part _ _ _ ih =>
      obtain ⟨behind, rfl⟩ := ih
      exact ⟨behind, by rw [List.flatMap_cons, List.append_assoc]⟩

/-- The parts of a division are spelled as such. -/
theorem isSpelled (h : Divides cs parts) : ∀ p ∈ parts, p.IsSpelled := by
  induction h with
  | done => nofun
  | part hspelled _ _ ih => exact List.forall_mem_cons.mpr ⟨hspelled, ih⟩

/-- The decoding sees the same parts, and no quote is open behind the last. -/
theorem follow_eq (h : Divides cs parts) :
    Backquoted.follow false (parts.flatMap Part.chars) = (parts.flatMap Part.meaning, false) := by
  induction h with
  | done => rfl
  | @part p rest parts hspelled h more ih =>
      cases p with
      | bare run =>
          rw [List.flatMap_cons, List.flatMap_cons]
          exact (Backquoted.follow_bare hspelled.not_mem_bare _).trans (by rw [ih]; rfl)
      | quoted name =>
          -- The decoding looks ahead no further than to the next part.
          obtain ⟨behind, hbehind⟩ := more.prefix_eq
          have hnext : (parts.flatMap Part.chars).head? ≠ some '\x60' := by
            intro hhead
            apply head?_of_quoted h
            rw [hbehind, List.head?_append, hhead]
            rfl
          rw [flatMap_chars_quoted, Backquoted.follow_open, Backquoted.follow_quoted name hnext, ih]
          rfl

/-- So does the test for wildcards. -/
theorem starOutside_iff (h : Divides cs parts) :
    Backquoted.starOutside false (parts.flatMap Part.chars) = true ↔ ∃ p ∈ parts, p.HasStar := by
  induction h with
  | done => simp [Backquoted.starOutside]
  | @part p rest parts hspelled h more ih =>
      rw [List.exists_mem_cons_iff, ← ih]
      cases p with
      | bare run => exact Backquoted.starOutside_bare hspelled.not_mem_bare _
      | quoted name =>
          rw [flatMap_chars_quoted, Backquoted.starOutside, if_pos rfl, Bool.not_false,
            Backquoted.starOutside_quoted]
          simp [Part.HasStar]

/-- There is no other division: how long the next part is, the text decides. -/
theorem unique {parts' : List Part} (h : Divides cs parts) (h' : Divides cs parts') :
    parts' = parts := by
  induction h generalizing parts' with
  | done hdone =>
      cases h' with
      | done => rfl
      | part hspelled hpart => exact absurd hdone (hspelled.patternPart?_ne_zero hpart)
  | @part p rest parts hspelled hpart more ih =>
      generalize hcs : p.chars ++ rest = cs at h'
      cases h' with
      | done hdone =>
          rw [← hcs] at hdone
          exact absurd hdone (hspelled.patternPart?_ne_zero hpart)
      | @part p' rest' parts' hspelled' hpart' more' =>
          rw [← hcs, hpart] at hpart'
          obtain ⟨hchars, rfl⟩ := List.append_inj hcs (Option.some.inj hpart')
          rw [Part.chars_inj hspelled hspelled' hchars, ih more']

end Divides

end Token.Shape

/-! ### The tokens of a text -/

namespace Token

variable {preview : Bool} {modes : ModeStack} {cs : List Char}

/-- The modes in which words are patterns. -/
theorem mode_of_wordKind {mode : Mode} {text : String}
    (h : wordKind preview mode text = .pattern) :
    mode = .project ∨ mode = .rename ∨ mode = .enrichField ∨ mode = .lookupField := by
  cases mode with
  | project | rename | enrichField | lookupField => simp
  | _ =>
      simp only [wordKind] at h
      repeat' split at h
      all_goals cases h

/-- A token of kind pattern is the whole pattern at its place. -/
theorem pattern_of_kind {decide : String → Kind}
    (h : (Step.pattern modes cs decide).kind = .pattern) :
    Shape.pattern cs = .whole (Step.pattern modes cs decide).length := by
  cases hpattern : Shape.pattern cs with
  | unterminated => rw [Step.pattern, hpattern] at h; cases h
  | whole n =>
      rw [Step.pattern, hpattern] at h ⊢
      dsimp only [Step.word] at h ⊢
      split at h
      · cases h
      · rename_i hn
        rw [if_neg hn]
        rfl

/-- A parameter is no pattern. -/
theorem parameter_kind_ne : (Step.parameter modes cs).kind ≠ .pattern := by
  show (if Shape.parameter (cs.drop 1) = 0 then Kind.anonymousParam else .param) ≠ .pattern
  split <;> nofun

/-- In the modes with patterns a token of kind pattern is the whole pattern at its place. -/
theorem pattern_of_inMode
    (hmode : modes.current = .project ∨ modes.current = .rename ∨ modes.current = .enrichField ∨
      modes.current = .lookupField)
    (h : (Step.inMode preview modes cs).kind = .pattern) :
    Shape.pattern cs = .whole (Step.inMode preview modes cs).length := by
  unfold Step.inMode at h ⊢
  -- In each of the four modes, signs and parameters have other kinds.
  rcases hmode with hmode | hmode | hmode | hmode
  · rw [hmode] at h ⊢
    dsimp only [Step.inProject] at h ⊢
    split at h
    case h_3 => exact absurd h parameter_kind_ne
    case h_4 => exact pattern_of_kind h
    all_goals cases h
  · rw [hmode] at h ⊢
    dsimp only [Step.inRename] at h ⊢
    split at h
    case h_3 => exact absurd h parameter_kind_ne
    case h_5 => exact pattern_of_kind h
    all_goals cases h
  · rw [hmode] at h ⊢
    dsimp only [Step.inEnrichField] at h ⊢
    split at h
    case h_4 => exact absurd h parameter_kind_ne
    case h_5 => exact pattern_of_kind h
    all_goals cases h
  · rw [hmode] at h ⊢
    dsimp only [Step.inLookupField] at h ⊢
    split at h
    case h_3 => exact pattern_of_kind h
    all_goals cases h

/-- No pattern begins as a comment, a pipe or a blank does. -/
theorem plainStart_of_isWord {n : Nat}
    (h : Shape.IsWord patternLength Shape.carriesPattern (cs.take n)) : plainStart cs = true := by
  have hlength := h.length_append [] rfl
  have hne : patternLength (cs.take n) ≠ 0 := by
    rw [List.append_nil] at hlength
    rw [hlength]
    exact fun hzero => h.ne_nil (List.length_eq_zero_iff.mp hzero)
  have hstart := startsWith_of_patternLength hne
  have hstart' : Shape.startsWith Shape.carriesPattern cs = true := by
    cases cs with
    | nil => rw [List.take_nil] at hstart; cases hstart
    | cons c rest =>
        cases n with
        | zero => cases hstart
        | succ n => exact hstart
  exact plainStart_of_startsWith rfl rfl rfl hstart'

/-- The step that makes a pattern takes what `Shape.pattern` takes. -/
theorem pattern_of_step (h : (step preview modes cs).kind = .pattern) :
    Shape.pattern cs = .whole (step preview modes cs).length := by
  have haccounts := step_accounts preview modes cs
  -- Only four modes make patterns, and there no rule common to all modes comes first.
  have hinMode : step preview modes cs = .inMode preview modes cs ∧
      (modes.current = .project ∨ modes.current = .rename ∨ modes.current = .enrichField ∨
        modes.current = .lookupField) := by
    generalize hstep : step preview modes cs = s at haccounts h
    cases haccounts with
    | error => cases h
    | trivia _ htrivia =>
        obtain rfl : _ = Kind.pattern := h
        cases htrivia
    | @token kind length _ hforms =>
        obtain rfl : kind = .pattern := h
        obtain ⟨hword, hkind⟩ := hforms.of_isWord rfl rfl (by simp)
        have hmode := mode_of_wordKind hkind
        have hpattern : Shape.IsWord patternLength Shape.carriesPattern (cs.take length) := by
          rcases hmode with hmode | hmode | hmode | hmode <;> rwa [hmode] at hword
        rw [← hstep]
        exact ⟨step_eq_inMode preview modes (plainStart_of_isWord hpattern), hmode⟩
  rw [hinMode.1] at h ⊢
  exact pattern_of_inMode hinMode.2 h

/-- A pattern token, with `behind` the text behind it, has these parts, whoever divides it: the
lexer, which reads ahead in the text, the decoding, behind which no quote is open, and the test for
wildcards. -/
structure IsDivided (t : Token) (behind : List Char) (parts : List Shape.Part) : Prop where
  divides_iff : ∀ parts', Shape.Divides (t.text.toList ++ behind) parts' ↔ parts' = parts
  isSpelled : ∀ p ∈ parts, p.IsSpelled
  text_eq : t.text.toList = parts.flatMap Shape.Part.chars
  decode_eq : Backquoted.decode t.text = String.ofList (parts.flatMap Shape.Part.meaning)
  closed : (Backquoted.follow false t.text.toList).2 = false
  hasWildcard_iff : (NamePattern.mk (Backquoted.decode t.text) t.text t.span).hasWildcard = true ↔
    ∃ p ∈ parts, p.HasStar

/-- A division of the text behind which a token stands is one of the token if it has the same
characters. -/
theorem isDivided_of_divides {t : Token} {behind : List Char} {parts : List Shape.Part}
    (h : Shape.Divides (t.text.toList ++ behind) parts)
    (htext : t.text.toList = parts.flatMap Shape.Part.chars) : t.IsDivided behind parts where
  divides_iff _ := ⟨h.unique, fun heq => heq ▸ h⟩
  isSpelled := h.isSpelled
  text_eq := htext
  decode_eq := by rw [Backquoted.decode, ← Backquoted.follow_fst, htext, h.follow_eq]
  closed := by rw [htext, h.follow_eq]
  hasWildcard_iff := by
    rw [NamePattern.hasWildcard, htext]
    exact h.starOutside_iff

end Token

/-- Every pattern token of every text has one division into parts, for the lexer, the decoding and
the test for wildcards. -/
theorem Lexer.pattern_division {preview : Bool} {text : String} {t : Token}
    (ht : t ∈ (lex preview text).all) (hkind : t.kind = .pattern) :
    ∃ before parts behind, text.toList = before ++ (t.text.toList ++ behind) ∧
      t.span.start = byteLength before % 2 ^ 32 ∧ t.IsDivided behind parts := by
  obtain ⟨tokens, diagnostics, l', hreads, hlex⟩ := exists_lex_eq preview text
  rw [hlex, Lexing.all] at ht
  rcases List.mem_append.mp ht with ht | ht
  · obtain ⟨t₀, ht₀, rfl⟩ := List.mem_map.mp ht
    obtain ⟨before, l, hrest, hoffset, rfl⟩ := hreads.exists_step ht₀
    obtain ⟨parts, hdivides, hlength⟩ := Shape.exists_divides (pattern_of_step hkind)
    obtain ⟨behind, hbehind⟩ := hdivides.prefix_eq
    -- The parts are as long as the token, and both begin where the lexer stands.
    have htext : l.stepToken.truncated.text.toList = parts.flatMap Shape.Part.chars := by
      have htake : l.stepToken.truncated.text.toList = l.cursor.rest.take l.step.length :=
        String.toList_ofList
      have hstep : l.step.length = (parts.flatMap Shape.Part.chars).length := hlength.symm
      rw [htake, hstep, hbehind, List.take_left]
    rw [← htext] at hbehind
    have hstart : l.stepToken.truncated.span.start = byteLength before % 2 ^ 32 := by
      rw [← Nat.zero_add (byteLength before)]
      exact (Span.truncated_start _).trans (congrArg (· % 2 ^ 32) hoffset)
    refine ⟨before, parts, behind, ?_, hstart, ?_⟩
    · rw [← hbehind]
      exact hrest
    · exact isDivided_of_divides (hbehind ▸ hdivides) htext
  · -- The token at the end of the text is no pattern.
    obtain rfl := List.mem_singleton.mp ht
    cases hkind

/-- A name between backquotes, with a backquote and an asterisk in it, glued between two bare
runs. -/
theorem Lexer.pattern_division_glued :
    ∃ t ∈ (lex false "KEEP a*\x60b\x60\x60*\x60c").all, t.text.length = 9 ∧
      ∃ before parts behind,
        "KEEP a*\x60b\x60\x60*\x60c".toList = before ++ (t.text.toList ++ behind) ∧
        t.span.start = byteLength before % 2 ^ 32 ∧ t.IsDivided behind parts := by
  have ht : ⟨.pattern, "a*\x60b\x60\x60*\x60c", ⟨5, 14⟩, 1, 6, .default⟩ ∈
      (lex false "KEEP a*\x60b\x60\x60*\x60c").all := by
    decide +kernel
  exact ⟨_, ht, rfl, pattern_division ht rfl⟩

end PipeQuery
