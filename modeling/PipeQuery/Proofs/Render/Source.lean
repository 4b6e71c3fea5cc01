import PipeQuery.Proofs.Render.Name

/-!
# `PipeQuery.Proofs.Render.Source`: patterns and sources are read back

Patterns and unquoted sources are rendered as they were written, so they are read back in a mode in
which they were read, and a text between quotes in every mode that has strings. What is rendered is
known to be a token of the mode because it comes from the lexemes of a text.
-/

set_option autoImplicit false

namespace PipeQuery

open PipeQuery.Parser PipeQuery.Token
open Token.Shape (startsWith IsWord)

variable {preview : Bool} {mode : Mode} {m : ModeStack}

/-- A comma and a blank, in a mode that has commas. -/
theorem prints_comma_in (h : single? mode ',' = some .comma)
    (hbehind : ∀ m : ModeStack, m.current = mode → m.behind .comma = m) :
    Prints preview mode id ", ".toList (fun _ => false) (IsKind .comma) := by
  have hcomma : Prints preview mode id [','] (fun _ => false) (IsKind .comma) :=
    (Prints.sign (.single h) (fun _ => rfl) hbehind).imp fun _ => IsToken.isKind
  refine (hcomma.append .blank (fun rest _ => ?_) fun _ h => h).imp ?_
  · cases rest <;> rfl
  · rintro w ⟨w₁, w₂, rfl, hw₁, rfl⟩
    rwa [List.append_nil]

/-- Items that leave the modes as they are, with separators that do so too, are all read from the
modes in front of them. -/
theorem Parser.SepBy.lexed_of_stays {α : Type} {kind : Kind} {R : List Lexeme → α → Prop}
    {w : List Lexeme} {as : List α} (h : SepBy kind R w as) (hkind : kind ≠ .error)
    (hseparator : m.behind kind = m)
    (hitem : ∀ {w a}, R w a → ∀ l ∈ w, l.token.kind ≠ .error ∧ m.behind l.token.kind = m)
    (hw : Lexed preview m w) : ∀ a ∈ as, ∃ w', R w' a ∧ Lexed preview m w' := by
  have hall := h.lexed (P := (· = m)) hkind (by rintro _ rfl; exact hseparator)
    (by rintro _ w w' a rfl hR hw; exact ⟨_, rfl, hw.right_of_stays (hitem hR)⟩) rfl hw
  intro a ha
  obtain ⟨m', w', rfl, hR, hw'⟩ := hall a ha
  exact ⟨w', hR, hw'⟩

/-! ### Patterns -/

/-- Patterns and the dots and commas between them are read in the mode, and nothing leaves it. -/
structure Mode.ReadsPatterns (mode : Mode) : Prop where
  scan_eq : scan mode = patternLength
  carries_eq : carries mode = Shape.carriesPattern
  isSteady : mode.isSteady = true
  dot : single? mode '.' = some .dot
  comma : single? mode ',' = some .comma

/-- Patterns are read in the mode of `KEEP` and `DROP`. -/
theorem readsPatterns_project : Mode.ReadsPatterns .project :=
  ⟨rfl, rfl, rfl, rfl, rfl⟩

/-- They are read in the mode of `RENAME`. -/
theorem readsPatterns_rename : Mode.ReadsPatterns .rename :=
  ⟨rfl, rfl, rfl, rfl, rfl⟩

/-- They are read in the mode of the fields of `ENRICH`. -/
theorem readsPatterns_enrichField : Mode.ReadsPatterns .enrichField :=
  ⟨rfl, rfl, rfl, rfl, rfl⟩

/-- They are read in the mode of the fields of `LOOKUP`. -/
theorem readsPatterns_lookupField : Mode.ReadsPatterns .lookupField :=
  ⟨rfl, rfl, rfl, rfl, rfl⟩

/-- The parts of patterns and the dots leave a steady mode as it is. -/
theorem Parser.IsPatternPart.stays (hsteady : m.current.isSteady = true) {w : List Lexeme}
    {part : PatternPart} (h : IsPatternPart w part) :
    ∀ l ∈ w, l.token.kind ≠ .error ∧ m.behind l.token.kind = m := by
  intro l hl
  have hkind : l.token.kind ≠ .error ∧ l.token.kind.shifts = false := by
    cases h with
    | pattern h => obtain rfl := List.mem_singleton.mp hl; simp [h, Kind.shifts]
    | parameter h =>
        obtain rfl := List.mem_singleton.mp hl
        cases h with
        | anonymous h | positional h | named h => simp [h, Kind.shifts]
  exact ⟨hkind.1, ModeStack.behind_of_isSteady hsteady hkind.2⟩

/-- The tokens of a list leave the modes as they are if those of its items do and the separator
does. -/
theorem Parser.SepBy.stays {α : Type} {kind : Kind} {R : List Lexeme → α → Prop}
    {w : List Lexeme} {as : List α} (h : SepBy kind R w as) (hkind : kind ≠ .error)
    (hseparator : m.behind kind = m)
    (hitem : ∀ {w a}, R w a → ∀ l ∈ w, l.token.kind ≠ .error ∧ m.behind l.token.kind = m) :
    ∀ l ∈ w, l.token.kind ≠ .error ∧ m.behind l.token.kind = m := by
  induction h with
  | one h => exact hitem h
  | more h hl _ ih =>
      intro l' hl'
      rcases List.mem_append.mp hl' with hl' | hl'
      · exact hitem h l' hl'
      · rcases List.mem_cons.mp hl' with rfl | hl'
        · rw [hl]; exact ⟨hkind, hseparator⟩
        · exact ih l' hl'

/-- The tokens of a field pattern leave a steady mode as it is. -/
theorem Parser.IsFieldPattern.stays (hsteady : m.current.isSteady = true) {w : List Lexeme}
    {p : FieldPattern} (h : IsFieldPattern w p) :
    ∀ l ∈ w, l.token.kind ≠ .error ∧ m.behind l.token.kind = m := by
  obtain ⟨h⟩ := h
  exact h.stays (by simp) (ModeStack.behind_of_isSteady hsteady rfl) fun h => h.stays hsteady

/-- No pattern begins with a digit. -/
theorem Token.Forms.pattern_not_digit (hmode : mode.ReadsPatterns) {text : List Char}
    (h : Forms preview mode .pattern text) (rest : List Char) :
    startsWith Char.isDigit (text ++ rest) = false := by
  obtain ⟨hword, -⟩ := h.of_isWord rfl rfl (by simp)
  rw [hmode.scan_eq] at hword
  have hlength := hword.length_append [] rfl
  rw [List.append_nil] at hlength
  cases text with
  | nil => exact absurd rfl hword.ne_nil
  | cons c text =>
      cases hdigit : c.isDigit with
      | false => exact hdigit
      -- A digit begins no kind of part, so the word would be empty.
      | true =>
          have hquote : c ≠ '\x60' := by rintro rfl; exact absurd hdigit (by decide)
          have hstar : c ≠ '*' := by rintro rfl; exact absurd hdigit (by decide)
          have hsigil : Shape.isSigil c = false := by
            rw [Shape.isSigil, Bool.or_eq_false_iff]
            constructor
            · refine decide_eq_false ?_
              rintro rfl
              exact absurd hdigit (by decide)
            · refine decide_eq_false ?_
              rintro rfl
              exact absurd hdigit (by decide)
          have hbare : Shape.barePart (c :: text) = 0 := by
            rw [Shape.barePart, if_neg (by simp [Shape.not_isAlpha_of_isDigit hdigit, hstar])]
            exact Shape.sigilWord_eq_zero hsigil
          have hpart : Shape.patternPart? (c :: text) = some 0 := by
            rw [Shape.patternPart?, if_neg (by simp [hquote]), hbare]
          rw [patternLength, Shape.pattern, hpart] at hlength
          cases hlength

/-- A part of a pattern is written as it is read. -/
theorem PatternPart.prints (hmode : mode.ReadsPatterns) (hm : m.current = mode) {w : List Lexeme}
    {part : PatternPart} (h : IsPatternPart w part) (hw : Lexed preview m w) :
    Prints preview mode id part.render.toList Shape.carriesPattern
      (Rewrites IsPatternPart core part) := by
  cases h with
  | @pattern l h =>
      have hforms := (hw.head_of_kind h (by simp)).1
      rw [hm] at hforms
      refine ((Prints.piece hforms (Mode.behind_eq hmode.isSteady rfl)).mono fun c hc => ?_).imp ?_
      · rwa [continues_of_isWord rfl (by simp), hmode.carries_eq] at hc
      · rintro w ⟨l', rfl, hkind, htext⟩
        rw [String.ofList_toList] at htext
        refine ⟨_, .pattern hkind, ?_⟩
        rw [core, core, htext]
  | @parameter l param h =>
      have hforms := (hw.head h.kind_ne_error).1
      -- A mode without parameters has no token of this kind.
      have hparameters : hasParameters mode = true := by
        rw [← hm]
        exact hforms.hasParameters (by cases h with
          | anonymous h => exact .inl h
          | positional h | named h => exact .inr h)
      refine ((Parameter.prints hparameters hmode.isSteady h hforms).mono fun c hc => ?_).imp ?_
      · simp [Shape.carriesPattern, Shape.isPatternChar, hc]
      · rintro w ⟨l', rfl, hparam⟩
        exact ⟨_, .parameter hparam, rfl⟩

/-- A part of a pattern begins with no digit, so it does not carry on a parameter in front of it. -/
theorem PatternPart.render_not_digit (hmode : mode.ReadsPatterns) (hm : m.current = mode)
    {w : List Lexeme} {part : PatternPart} (h : IsPatternPart w part) (hw : Lexed preview m w)
    (rest : List Char) : startsWith Char.isDigit (part.render.toList ++ rest) = false := by
  cases h with
  | pattern h =>
      have hforms := (hw.head_of_kind h (by simp)).1
      rw [hm] at hforms
      exact hforms.pattern_not_digit hmode rest
  | @parameter l param h => exact (NamePart.parameter param l.token.span).render_not_digit rest

/-- A dotted pattern is read back in the mode it was read in. -/
theorem FieldPattern.prints (hmode : mode.ReadsPatterns) (hm : m.current = mode) {w : List Lexeme}
    {p : FieldPattern} (h : IsFieldPattern w p) (hw : Lexed preview m w) :
    Prints preview mode id p.render.toList Shape.carriesPattern
      (Rewrites IsFieldPattern core p) := by
  have hsteady : m.current.isSteady = true := hm ▸ hmode.isSteady
  obtain ⟨hparts⟩ := h
  have hlexed := hparts.lexed_of_stays (by simp) (ModeStack.behind_of_isSteady hsteady rfl)
    (fun h => h.stays hsteady) hw
  have hall := (prints_dot (.single hmode.dot) hmode.isSteady).separated (fun _ => rfl)
    hparts.ne_nil
    (fun part hpart => by
      obtain ⟨w', hpart, hw'⟩ := hlexed part hpart
      exact PatternPart.prints hmode hm hpart hw')
    fun part hpart => by
      obtain ⟨w', hpart, hw'⟩ := hlexed part hpart
      exact PatternPart.render_not_digit hmode hm hpart hw'
  refine hall.imp ?_
  rintro w ⟨parts, hparts, hcores⟩
  cases parts with
  | nil => exact absurd rfl hparts.ne_nil
  | cons part parts =>
      refine ⟨_, .mk hparts, ?_⟩
      rw [core, core, hcores]

/-- Patterns with commas between them are read back in the mode they were read in. -/
theorem prints_fieldPatterns (hmode : mode.ReadsPatterns) (hm : m.current = mode)
    {w : List Lexeme} {fields : List FieldPattern} (h : SepBy .comma IsFieldPattern w fields)
    (hw : Lexed preview m w) :
    Prints preview mode id (Command.commas FieldPattern.render fields).toList Shape.carriesPattern
      (Rewrites (SepBy .comma IsFieldPattern) (List.map FieldPattern.core) fields) := by
  have hsteady : m.current.isSteady = true := hm ▸ hmode.isSteady
  have hlexed := h.lexed_of_stays (by simp) (ModeStack.behind_of_isSteady hsteady rfl)
    (fun h => h.stays hsteady) hw
  refine (prints_comma_in hmode.comma (Mode.behind_eq hmode.isSteady rfl)).separated
    (fun _ => rfl) h.ne_nil (fun p hp => ?_) fun p _ rest => ?_
  · obtain ⟨w', hpattern, hw'⟩ := hlexed p hp
    exact FieldPattern.prints hmode hm hpattern hw'
  · cases p.render.toList ++ rest <;> rfl

/-! ### Sources -/

/-- The kinds of the tokens of a list of index patterns. -/
def Token.Kind.isOfSources : Token.Kind → Bool
  | .source | .quotedString | .colon | .comma => true
  | _ => false

/-- Sources and what stands between them are read in the mode, and none of these leaves it. -/
structure Mode.ReadsSources (mode : Mode) : Prop where
  carries_eq : carries mode = fun c => !Shape.endsSource c
  hasStrings : hasStrings mode = true
  colon : single? mode ':' = some .colon
  comma : single? mode ',' = some .comma
  behind_eq : ∀ {kind : Kind}, kind.isOfSources = true → ∀ m : ModeStack, m.current = mode →
    m.behind kind = m

/-- Strings and sources shift nothing. -/
theorem Token.Kind.shifts_of_isOfSources {kind : Kind} (h : kind.isOfSources = true) :
    kind.shifts = false := by
  cases kind <;> first | rfl | cases h

/-- Sources are read in the mode of `FROM`. -/
theorem readsSources_sources : Mode.ReadsSources .sources where
  carries_eq := rfl
  hasStrings := rfl
  colon := rfl
  comma := rfl
  behind_eq h m hm :=
    ModeStack.behind_of_isSteady (by rw [hm]; rfl) (Kind.shifts_of_isOfSources h)

/-- They are read in the mode of `LOOKUP`. -/
theorem readsSources_lookup : Mode.ReadsSources .lookup where
  carries_eq := rfl
  hasStrings := rfl
  colon := rfl
  comma := rfl
  behind_eq {kind} h m hm := by
    rw [ModeStack.behind_eq m (Kind.shifts_of_isOfSources h), hm]
    -- Only the word `ON` enters a mode here, and it is none of these kinds.
    cases kind <;> first | rfl | cases h

/-- The characters that carry a source on, bare or between quotes. -/
def carriesSource (c : Char) : Bool :=
  !Shape.endsSource c || c = '\x22'

/-- A source is of one of the kinds that sources have. -/
theorem Parser.IsSource.isOfSources {l : Lexeme} {source : Source} (h : IsSource l source) :
    l.token.kind.isOfSources = true := by
  cases h with
  | bare h | quoted h => rw [h]; rfl

/-- None of these is the kind of an error. -/
theorem Token.Kind.ne_error_of_isOfSources {kind : Kind} (h : kind.isOfSources = true) :
    kind ≠ .error := by
  rintro rfl
  cases h

/-- What a source is rendered as is a token of the mode. A name between quotes is encoded anew. -/
theorem Source.forms (hmode : mode.ReadsSources) (hm : m.current = mode) {l : Lexeme}
    {source : Source} (h : IsSource l source) (hw : Lexed preview m [l]) :
    ∃ kind, Forms preview mode kind source.render.toList ∧ kind.isOfSources = true ∧
      (∀ c, continues mode kind c = true → carriesSource c = true) ∧
      ∀ {l' : Lexeme}, l'.token.kind = kind → l'.token.text = source.render →
        Rewrites (fun w source => ∃ l, w = [l] ∧ IsSource l source) core source [l'] := by
  cases h with
  | bare h =>
      have hforms := (hw.head_of_kind h (by simp)).1
      rw [hm] at hforms
      refine ⟨.source, hforms, rfl, fun c hc => ?_, fun hkind htext => ?_⟩
      · rw [continues_of_isWord rfl (by simp), hmode.carries_eq] at hc
        simp only [Bool.not_eq_true'] at hc
        simp [carriesSource, hc]
      · refine ⟨_, ⟨_, rfl, .bare hkind⟩, ?_⟩
        rw [core, core, htext]
        rfl
  -- A quoted name is written anew from its value, so the token's text may be another one.
  | quoted h =>
      refine ⟨.quotedString, .string hmode.hasStrings (Text.Quoted.isLiteral_encode _), rfl,
        fun c hc => ?_, fun hkind htext => ?_⟩
      · simp only [continues, decide_eq_true_eq] at hc
        simp [carriesSource, hc]
      · refine ⟨_, ⟨_, rfl, .quoted hkind⟩, ?_⟩
        have hrender : ∀ name span, render ⟨name, true, span⟩ = Text.Quoted.encode name :=
          fun _ _ => rfl
        rw [core, core, htext, hrender, Text.Quoted.decode_encode]

/-- A source is written as it is read. -/
theorem Source.prints (hmode : mode.ReadsSources) (hm : m.current = mode) {l : Lexeme}
    {source : Source} (h : IsSource l source) (hw : Lexed preview m [l]) :
    Prints preview mode id source.render.toList carriesSource
      (Rewrites (fun w source => ∃ l, w = [l] ∧ IsSource l source) core source) := by
  obtain ⟨kind, hforms, hkind, hcarries, hrewrites⟩ := source.forms hmode hm h hw
  refine ((Prints.piece hforms (hmode.behind_eq hkind)).mono hcarries).imp ?_
  rintro w ⟨l', rfl, hl', htext⟩
  rw [String.ofList_toList] at htext
  exact hrewrites hl' htext

/-- Two texts with a colon and nothing else between them. -/
theorem Token.Prints.glued (hmode : mode.ReadsSources) {kind kind' : Kind} {cs cs' : List Char}
    (h : Forms preview mode kind cs) (hkind : kind.isOfSources = true)
    (hcarries : ∀ c, continues mode kind c = true → carriesSource c = true)
    (h' : Forms preview mode kind' cs') (hkind' : kind'.isOfSources = true)
    (hcarries' : ∀ c, continues mode kind' c = true → carriesSource c = true) :
    Prints preview mode id (cs ++ ':' :: cs') carriesSource
      (fun w => ∃ l colon l', w = [l, colon, l'] ∧ l.token.kind = kind ∧
        l.token.text = String.ofList cs ∧ colon.token.kind = .colon ∧ colon.spaced = false ∧
        l'.token.kind = kind' ∧ l'.token.text = String.ofList cs' ∧ l'.spaced = false) := by
  refine ⟨[⟨kind, cs, true⟩, ⟨.colon, [':'], true⟩, ⟨kind', cs', false⟩], fun m hm => ?_,
    fun w hw => ?_⟩
  · -- Neither name takes the colon, and the colon takes nothing of the second name.
    subst hm
    have hfirst := Writes.tight h
    have hforms : Forms preview m.current .colon [':'] := .single hmode.colon
    have hcolon := Writes.tight hforms
    have hlast := (Writes.piece h').mono hcarries'
    rw [hmode.behind_eq hkind m rfl] at hfirst
    rw [hmode.behind_eq rfl m rfl] at hcolon
    rw [hmode.behind_eq hkind' m rfl] at hlast
    refine hfirst.append (hcolon.append hlast fun rest _ => ?_) fun rest _ => ?_
    · rw [Shape.startsWith_or, Bool.or_eq_false_iff]
      refine ⟨?_, ?_⟩
      · cases cs' ++ rest <;> rfl
      · obtain ⟨c, text, rfl⟩ := List.exists_cons_of_ne_nil h'.ne_nil
        exact h'.not_blank
    · have hnot : ¬ continues m.current kind ':' = true := fun hc =>
        absurd (hcarries ':' hc) (by decide)
      have hblank : Text.isBlank ':' = false := rfl
      simpa [hblank] using hnot
  · -- The three pieces are read as three lexemes, each tight against the one in front.
    obtain _ | ⟨hl, htext, htight, hw⟩ := hw
    obtain _ | ⟨hl₁, htext₁, htight₁, hw⟩ := hw
    obtain _ | ⟨hl₂, htext₂, -, hw⟩ := hw
    cases hw
    refine ⟨_, _, _, rfl, hl, ?_, hl₁, htight rfl _ rfl, hl₂, ?_, htight₁ rfl _ rfl⟩
    · exact String.ofList_toList.symm.trans (congrArg String.ofList htext)
    · exact String.ofList_toList.symm.trans (congrArg String.ofList htext₂)

/-- An index pattern is read back, a cluster glued to its index. -/
theorem IndexPattern.prints (hmode : mode.ReadsSources) (hm : m.current = mode) {w : List Lexeme}
    {p : IndexPattern} (h : IsIndexPattern w p) (hw : Lexed preview m w) :
    Prints preview mode id p.render.toList carriesSource (Rewrites IsIndexPattern core p) := by
  cases h with
  | plain h =>
      refine (Source.prints hmode hm h hw).imp ?_
      rintro w ⟨source, ⟨l', rfl, hsource⟩, hcore⟩
      exact ⟨_, .plain hsource, by rw [core, core, hcore]⟩
  | @remote l colon l' cluster index h hcolon h' hglued hglued' =>
      have hof : ∀ l₁ ∈ [l, colon], l₁.token.kind.isOfSources = true :=
        List.forall_mem_cons.mpr ⟨h.isOfSources, List.forall_mem_singleton.mpr (by rw [hcolon]; rfl)⟩
      have hstays : ∀ l₁ ∈ [l, colon], l₁.token.kind ≠ .error ∧ m.behind l₁.token.kind = m :=
        fun l₁ hl₁ => ⟨Kind.ne_error_of_isOfSources (hof l₁ hl₁),
          hmode.behind_eq (hof l₁ hl₁) m hm⟩
      have hw' : Lexed preview m [l'] := hw.right_of_stays (w := [l, colon]) hstays
      obtain ⟨kind, hforms, hkind, hcarries, hrewrites⟩ := cluster.forms hmode hm h hw.left
      obtain ⟨kind', hforms', hkind', hcarries', hrewrites'⟩ := index.forms hmode hm h' hw'
      have htext : (render ⟨some cluster, index, cluster.span.merge index.span⟩).toList =
          cluster.render.toList ++ ':' :: index.render.toList := by
        simp [render]
      rw [htext]
      -- The cluster, the colon and the index are printed without blanks, so they are glued again.
      refine (Prints.glued hmode hforms hkind hcarries hforms' hkind' hcarries').imp ?_
      rintro w ⟨l, colon, l', rfl, hl, hltext, hcolon, hglued, hl', hltext', hglued'⟩
      rw [String.ofList_toList] at hltext hltext'
      obtain ⟨cluster', ⟨_, hnil, hcluster⟩, hcore⟩ := hrewrites hl hltext
      obtain ⟨index', ⟨_, hnil', hindex⟩, hcore'⟩ := hrewrites' hl' hltext'
      cases hnil
      cases hnil'
      refine ⟨_, .remote hcluster hcolon hindex hglued hglued', ?_⟩
      rw [core, core, hcore', Option.map_some, Option.map_some, hcore]

/-- The tokens of an index pattern leave the modes as they are. -/
theorem Parser.IsIndexPattern.stays (hmode : mode.ReadsSources) (hm : m.current = mode)
    {w : List Lexeme} {p : IndexPattern} (h : IsIndexPattern w p) :
    ∀ l ∈ w, l.token.kind ≠ .error ∧ m.behind l.token.kind = m := by
  have hof : ∀ l ∈ w, l.token.kind.isOfSources = true := by
    cases h with
    | plain h => exact List.forall_mem_singleton.mpr h.isOfSources
    | remote h hcolon h' =>
        refine List.forall_mem_cons.mpr ⟨h.isOfSources, List.forall_mem_cons.mpr ⟨?_,
          List.forall_mem_singleton.mpr h'.isOfSources⟩⟩
        rw [hcolon]
        rfl
  exact fun l hl => ⟨Kind.ne_error_of_isOfSources (hof l hl), hmode.behind_eq (hof l hl) m hm⟩

/-- Index patterns with commas between them are read back. -/
theorem prints_indexPatterns (hmode : mode.ReadsSources) (hm : m.current = mode)
    {w : List Lexeme} {sources : List IndexPattern} (h : SepBy .comma IsIndexPattern w sources)
    (hw : Lexed preview m w) :
    Prints preview mode id (Command.commas IndexPattern.render sources).toList carriesSource
      (Rewrites (SepBy .comma IsIndexPattern) (List.map IndexPattern.core) sources) := by
  have hlexed := h.lexed_of_stays (by simp) (hmode.behind_eq rfl m hm)
    (fun h => h.stays hmode hm) hw
  refine (prints_comma_in hmode.comma (hmode.behind_eq rfl)).separated (fun _ => rfl) h.ne_nil
    (fun p hp => ?_) fun p _ rest => ?_
  · obtain ⟨w', hpattern, hw'⟩ := hlexed p hp
    exact IndexPattern.prints hmode hm hpattern hw'
  · cases p.render.toList ++ rest <;> rfl

end PipeQuery
