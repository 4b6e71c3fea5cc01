import PipeQuery.Proofs.Command.Pipeline

/-!
# `PipeQuery.Proofs.Command.Complete`: commands of names and sources are read as they are

The other direction of `PipeQuery.Proofs.Command.Sound`, for the commands that hold no expressions:
lexemes that write a command are read as it, whatever is read in other commands, and nothing is
recorded. `Reads` says so of a part. What follows is a token that ends a command, in front of which
every part of it is complete.
-/

set_option autoImplicit false

namespace PipeQuery.Parser

variable {α : Type} {c : Context} {s s' : State} {rest : List Lexeme}

/-! ### Parts -/

/-- A kind that ends a command is none that does not. -/
theorem kind_ne_of_endsCommand {kind kind' : Token.Kind} (h : endsCommand kind = true)
    (h' : endsCommand kind' = false) : kind ≠ kind' := by
  rintro rfl
  rw [h] at h'
  cases h'

/-- An index pattern is read in full if no colon follows. -/
theorem indexPattern_apply {w : List Lexeme} (hs : s.rest = w ++ rest) {p : IndexPattern}
    (h : IsIndexPattern w p) (hrest : kindIn rest 0 ≠ .colon) :
    indexPattern c s = (.ok p, s.past w) := by
  cases h with
  | @plain l index h =>
      have hahead : (s.past [l]).kindAt 0 ≠ .colon := by rwa [kindAt_eq, past_rest hs]
      rw [indexPattern, bind_apply_of_ok (source_apply hs h)]
      rw [isSpaced, bind_look, bind_apply_of_ok (eat_apply_of_ne hahead)]
      rfl
  | @remote l colon l' cluster index h hcolon h' hglued hglued' =>
      have hs₁ : (s.past [l]).rest = colon :: l' :: rest := past_rest hs
      have hs₂ : (s.past [l, colon]).rest = l' :: rest := past_rest hs
      rw [indexPattern, bind_apply_of_ok (source_apply hs h)]
      rw [isSpaced, bind_look, bind_apply_of_ok (eat_apply hs₁ hcolon), past_past]
      simp only [if_true]
      rw [bind_look, List.singleton_append, bind_apply_of_ok (source_apply hs₂ h'), past_past, hs₁,
        hs₂]
      simp [hglued, hglued']

/-- A list of index patterns is read in full if neither a colon nor a comma follows. -/
theorem indexPatterns_apply {w : List Lexeme} (hs : s.rest = w ++ rest)
    {sources : List IndexPattern} (h : SepBy .comma IsIndexPattern w sources)
    (hcolon : kindIn rest 0 ≠ .colon) (hcomma : kindIn rest 0 ≠ .comma) :
    indexPatterns c s = (.ok sources, s.past w) :=
  separated_apply (q := fun rest => kindIn rest 0 ≠ .colon)
    (fun h hs hcolon => indexPattern_apply hs h hcolon) (fun hl => by simp [hl]) h hcolon hcomma hs

/-- A list of field patterns is read in full if neither a dot nor a comma follows. -/
theorem fieldPatterns_apply {w : List Lexeme} (hs : s.rest = w ++ rest)
    {fields : List FieldPattern} (h : SepBy .comma IsFieldPattern w fields)
    (hdot : kindIn rest 0 ≠ .dot) (hcomma : kindIn rest 0 ≠ .comma) :
    fieldPatterns c s = (.ok fields, s.past w) :=
  separated_apply (q := fun rest => kindIn rest 0 ≠ .dot)
    (fun h hs hdot => fieldPattern_apply hs h hdot) (fun hl => by simp [hl]) h hdot hcomma hs

/-- The fields of the metadata are read in full if no comma follows. -/
theorem sourceItems_apply {w : List Lexeme} (hs : s.rest = w ++ rest) {fields : List Source}
    (h : SepBy .comma IsSourceItem w fields) (hcomma : kindIn rest 0 ≠ .comma) :
    separated .comma source c s = (.ok fields, s.past w) :=
  separated_apply (q := fun _ => True) (fun ⟨h⟩ hs _ => source_apply hs h) (fun _ => trivial) h
    trivial hcomma hs

/-- The token ahead has the kind of the lexeme ahead, or ends the text. -/
theorem kind_current (hend : c.endToken.kind = .eof) : (s.current c).kind = kindIn s.rest 0 := by
  cases hrest : s.rest with
  | nil => simp [State.current, hrest, hend]
  | cons l rest => simp [State.current, hrest]

/-- The metadata of a `FROM` is read in full at the end of the command, there or not. -/
theorem metadata_apply {w : List Lexeme} (hs : s.rest = w ++ rest) {clause : Option Metadata}
    (h : IsMetadata w clause) (hend : c.endToken.kind = .eof)
    (hrest : endsCommand (kindIn rest 0) = true) :
    metadata c s = (.ok clause, s.past w) := by
  have hcomma : kindIn rest 0 ≠ .comma := by intro h; rw [h] at hrest; cases hrest
  have hkind := kind_current (s := s) hend
  rw [metadata, bind_apply_of_ok (current_run c s), peekSecond, bind_look]
  cases h with
  | absent =>
      rw [List.nil_append] at hs
      -- What ends a command is neither of the two lexemes that metadata begin with.
      have hopening : (s.current c).kind ≠ .openBracket := by
        rw [hkind, hs]
        intro h
        rw [h] at hrest
        cases hrest
      have hword : (s.current c).kind ≠ .keyword .metadata := by
        rw [hkind, hs]
        intro h
        rw [h] at hrest
        cases hrest
      simp [hopening, hword, past_nil]
  -- In both other forms the clause begins at its first lexeme, the bracket where there is one.
  | @bare l w fields hl h =>
      have hword : (s.current c).kind = .keyword .metadata := by
        rw [hkind, hs]
        exact hl
      have hbare : (decide ((s.current c).kind = .openBracket) &&
          decide (s.kindAt 1 = .keyword .metadata)) = false := by simp [hword]
      have hfields : (s.past [l]).rest = w ++ rest := past_rest hs
      have hfirst : s.current c = l.token := by simp [State.current, hs]
      simp only [hbare, Bool.false_or, decide_eq_true_eq, if_pos hword, Bool.false_eq_true,
        if_false]
      rw [bind_apply_of_ok (advance_apply hs),
        bind_apply_of_ok (sourceItems_apply hfields h hcomma),
        bind_apply_of_ok (spanFrom_apply _), past_past, past_prevEnd, hfirst,
        List.singleton_append, spanFrom_eq (by simp)]
      rfl
  | @bracketed opening l closing w fields hopening hl h hclosing =>
      have hs : s.rest = opening :: l :: (w ++ closing :: rest) := by simpa using hs
      have hbracket : (s.current c).kind = .openBracket := by
        rw [hkind, hs]
        exact hopening
      have hsecond : s.kindAt 1 = .keyword .metadata := by
        rw [kindAt_eq, hs]
        exact hl
      have hfirst : s.current c = opening.token := by simp [State.current, hs]
      have hs₁ : (s.past [opening]).rest = l :: (w ++ closing :: rest) := past_rest hs
      have hs₂ : (s.past [opening, l]).rest = w ++ closing :: rest := past_rest hs
      have hs₃ : (s.past ([opening, l] ++ w)).rest = closing :: rest :=
        past_rest (by simpa using hs)
      simp only [hbracket, hsecond, decide_true, Bool.and_self, Bool.true_or, if_true]
      rw [bind_apply_of_ok (advance_apply hs), bind_apply_of_ok (advance_apply hs₁), past_past,
        List.singleton_append, bind_apply_of_ok (sourceItems_apply hs₂ h (by simp [hclosing])),
        past_past, bind_apply_of_ok (expect_apply hs₃ hclosing _), past_past,
        bind_apply_of_ok (spanFrom_apply _), past_prevEnd, lastStop_concat, hfirst]
      simp [spanOver]

/-- A renaming is read in full if no dot follows. -/
theorem renameClause_apply {w : List Lexeme} (hs : s.rest = w ++ rest) {clause : RenameClause}
    (h : IsRenameClause w clause) (hdot : kindIn rest 0 ≠ .dot) :
    renameClause c s = (.ok clause, s.past w) := by
  cases h with
  | @as l w w' oldName newName hold hl hnew hplain hplain' =>
      have hs : s.rest = w ++ l :: (w' ++ rest) := by simpa using hs
      have hs₁ : (s.past w).rest = l :: (w' ++ rest) := past_rest hs
      have hs₂ : (s.past (w ++ [l])).rest = w' ++ rest := past_rest (by simpa using hs)
      rw [renameClause, bind_apply_of_ok (fieldPattern_apply hs hold (by simp [hl])),
        bind_apply_of_ok (eat_apply hs₁ hl), past_past]
      simp only [if_true, Bool.not_true, Bool.false_and, Bool.false_eq_true, if_false]
      rw [bind_apply_of_ok (Parse.pure_apply false c _),
        bind_apply_of_ok (fieldPattern_apply hs₂ hnew hdot), past_past, hplain, hplain',
        List.append_assoc, List.singleton_append]
      rfl
  | @assign l w w' oldName newName hnew hl hold hplain hplain' =>
      have hs : s.rest = w ++ l :: (w' ++ rest) := by simpa using hs
      have hs₁ : (s.past w).rest = l :: (w' ++ rest) := past_rest hs
      have hs₂ : (s.past (w ++ [l])).rest = w' ++ rest := past_rest (by simpa using hs)
      -- The sign is no `AS`, which is asked for first.
      have has : (s.past w).kindAt 0 ≠ .keyword .as := by
        rw [kindAt_eq, hs₁]
        simp [hl]
      rw [renameClause, bind_apply_of_ok (fieldPattern_apply hs hnew (by simp [hl])),
        bind_apply_of_ok (eat_apply_of_ne has)]
      simp only [Bool.false_eq_true, if_false]
      rw [bind_apply_of_ok (eat_apply hs₁ hl), past_past]
      simp only [Bool.not_true, Bool.and_false, Bool.false_eq_true, if_false]
      rw [bind_apply_of_ok (fieldPattern_apply hs₂ hold hdot), past_past, hplain, hplain',
        List.append_assoc, List.singleton_append]
      rfl

/-- A setting is read in full, whatever follows its closing bracket. -/
theorem setting_apply {w : List Lexeme} (hs : s.rest = w ++ rest) {given : Setting}
    (h : IsSetting w given) : setting c s = (.ok given, s.past w) := by
  cases h with
  | @mk opening name colon value closing hopening hname hcolon hvalue hclosing hknown hmode =>
      have hs : s.rest = opening :: name :: colon :: value :: closing :: rest := hs
      have hs₁ : (s.past [opening]).rest = name :: colon :: value :: closing :: rest :=
        past_rest hs
      have hs₂ : (s.past [opening, name]).rest = colon :: value :: closing :: rest := past_rest hs
      have hs₃ : (s.past [opening, name, colon]).rest = value :: closing :: rest := past_rest hs
      have hs₄ : (s.past [opening, name, colon, value]).rest = closing :: rest := past_rest hs
      have hstop : lastStop [opening, name, colon, value, closing] s.prevEnd =
          lastStop [closing] opening.token.span.stop := rfl
      have hmode : (EnrichMode.ofName? value.token.text).isNone = false := by
        rwa [Option.isNone_eq_false_iff]
      rw [setting, bind_apply_of_ok (advance_apply hs), bind_apply_of_ok (expect_apply hs₁ hname _),
        past_past, List.singleton_append, bind_apply_of_ok (expect_apply hs₂ hcolon _), past_past,
        List.cons_append, List.singleton_append, bind_apply_of_ok (expect_apply hs₃ hvalue _),
        past_past]
      simp only [List.cons_append, List.nil_append]
      rw [bind_apply_of_ok (expect_apply hs₄ hclosing _), past_past]
      simp only [List.cons_append, List.nil_append]
      rw [bind_apply_of_ok (spanFrom_apply _), past_prevEnd, hstop, hknown, hmode]
      rfl

/-- A policy is read off its token. -/
theorem policy_apply {l : Lexeme} (hs : s.rest = l :: rest) {given : Policy}
    (h : IsPolicy l given) : policy c s = (.ok given, s.past [l]) := by
  have hkind : l.token.kind = .policy := by
    cases h with
    | plain h | qualified h => exact h
  rw [policy, bind_apply_of_ok (expect_apply hs hkind _)]
  dsimp only
  cases h with
  | plain _ hplain =>
      have hall : l.token.text.toList.takeWhile (· ≠ ':') = l.token.text.toList := by
        refine List.takeWhile_eq_self_iff.mpr fun c hc => decide_eq_true ?_
        rintro rfl
        exact hplain hc
      rw [hall, if_pos rfl]
      rfl
  -- The first colon is the one behind the qualifier, which holds none itself.
  | @qualified qualifier name mode _ htext hplain hmode =>
      have hqualifier : l.token.text.toList.takeWhile (· ≠ ':') = qualifier := by
        rw [htext, List.takeWhile_append_of_pos fun c hc => decide_eq_true ?_]
        · simp
        · rintro rfl
          exact hplain hc
      have hlength : ¬ qualifier.length = l.token.text.toList.length := by
        rw [htext]
        simp
      have hname : l.token.text.toList.drop (qualifier.length + 1) = name := by
        rw [htext, List.drop_append]
        simp
      rw [hqualifier, if_neg hlength, hname, hmode]
      rfl

/-- A known setting, if there is one, and nothing behind it that begins another. -/
theorem settings_apply {w : List Lexeme} (hs : s.rest = w ++ rest) {given : List Setting}
    (h : IsSettings w given) (hrest : kindIn rest 0 ≠ .openBracket) {fuel : Nat}
    (hfuel : w.length ≤ fuel) : settings fuel [] c s = (.ok given, s.past w) := by
  have hnone : ∀ {s : State} (fuel : Nat) (before : List Setting), s.rest = rest →
      settings fuel before c s = (.ok before, s) := by
    intro s fuel before hs
    cases fuel with
    | zero => rfl
    | succ fuel =>
        rw [settings, bind_apply_of_ok (check_apply _), kindAt_eq, hs]
        simp only [hrest, decide_false, Bool.false_eq_true, if_false]
        rfl
  cases h with
  | absent => exact hnone fuel [] hs
  | @present w given h =>
      -- There is a setting, so there is fuel for the round that reads it.
      obtain ⟨fuel, rfl⟩ : ∃ n, fuel = n + 1 := by
        cases h
        exact Nat.exists_eq_add_one.mpr (by simp at hfuel; omega)
      have hahead : s.kindAt 0 = .openBracket := by
        cases h with
        | mk hopening =>
            rw [kindAt_eq, hs]
            exact hopening
      rw [settings, bind_apply_of_ok (check_apply _), hahead]
      simp only [decide_true, if_true]
      rw [bind_apply_of_ok (setting_apply hs h)]
      exact hnone fuel [given] (past_rest hs)

/-- An added field is read in full if neither a dot nor `=` follows. -/
theorem enrichField_apply {w : List Lexeme} (hs : s.rest = w ++ rest) {field : EnrichField}
    (h : IsEnrichField w field) (hdot : kindIn rest 0 ≠ .dot) (hassign : kindIn rest 0 ≠ .assign) :
    enrichField c s = (.ok field, s.past w) := by
  cases h with
  | plain h hplain =>
      have hahead : (s.past w).kindAt 0 ≠ .assign := by rwa [kindAt_eq, past_rest hs]
      rw [enrichField, bind_apply_of_ok (fieldPattern_apply hs h hdot)]
      dsimp only
      rw [bind_apply_of_ok (eat_apply_of_ne hahead), hplain]
      rfl
  | @renamed l w w' newName field hnew hl h hplain hplain' =>
      have hs : s.rest = w ++ l :: (w' ++ rest) := by simpa using hs
      have hs₁ : (s.past w).rest = l :: (w' ++ rest) := past_rest hs
      have hs₂ : (s.past (w ++ [l])).rest = w' ++ rest := past_rest (by simpa using hs)
      rw [enrichField, bind_apply_of_ok (fieldPattern_apply hs hnew (by simp [hl]))]
      dsimp only
      rw [bind_apply_of_ok (eat_apply hs₁ hl), past_past]
      simp only [if_true]
      rw [bind_apply_of_ok (fieldPattern_apply hs₂ h hdot), past_past, hplain, hplain',
        List.append_assoc, List.singleton_append]
      rfl

/-- A part behind a keyword, or what stands for it without the keyword, and then the rest. -/
theorem optional_apply {β : Type} {word : Keyword} {part : Parse α} {none : α}
    {k : α → Parse β} {w : List Lexeme} {a : α} (hs : s.rest = w ++ rest)
    (h : w = [] ∧ a = none ∧ kindIn rest 0 ≠ .keyword word ∨
      ∃ l w', w = l :: w' ∧ l.token.kind = .keyword word ∧
        part c (s.past [l]) = (.ok a, s.past (l :: w'))) :
    (eat (.keyword word) >>= fun b => if b then part >>= k else pure none >>= k) c s =
      k a c (s.past w) := by
  obtain ⟨rfl, rfl, hword⟩ | ⟨l, w', rfl, hl, hpart⟩ := h
  · rw [bind_apply_of_ok (eat_apply_of_ne (by rwa [kindAt_eq, hs]))]
    rfl
  · rw [bind_apply_of_ok (eat_apply hs hl)]
    simp only [if_true]
    rw [bind_apply_of_ok hpart]

/-- The field to match on is read behind its `ON`, or there is neither. -/
theorem matchField_apply {w : List Lexeme} (hs : s.rest = w ++ rest) {on : Option FieldPattern}
    (h : IsMatchField w on) (hdot : kindIn rest 0 ≠ .dot) (hon : kindIn rest 0 ≠ .keyword .on) :
    w = [] ∧ on = none ∧ kindIn rest 0 ≠ .keyword .on ∨
      ∃ l w', w = l :: w' ∧ l.token.kind = .keyword .on ∧
        (some <$> fieldPattern) c (s.past [l]) = (.ok on, s.past (l :: w')) := by
  cases h with
  | absent => exact .inl ⟨rfl, rfl, hon⟩
  | @present l w field hl h =>
      refine .inr ⟨l, w, rfl, hl, ?_⟩
      show (fieldPattern >>= fun field => pure (some field)) c (s.past [l]) = _
      rw [bind_apply_of_ok (fieldPattern_apply (past_rest hs) h hdot), past_past]
      rfl

/-- The added fields are read behind their `WITH`, or there are neither. -/
theorem enrichFields_apply {w : List Lexeme} (hs : s.rest = w ++ rest) {fields : List EnrichField}
    (h : IsClause .«with» IsEnrichField w fields) (hrest : endsCommand (kindIn rest 0) = true) :
    w = [] ∧ fields = [] ∧ kindIn rest 0 ≠ .keyword .«with» ∨
      ∃ l w', w = l :: w' ∧ l.token.kind = .keyword .«with» ∧
        separated .comma enrichField c (s.past [l]) = (.ok fields, s.past (l :: w')) := by
  cases h with
  | absent => exact .inl ⟨rfl, rfl, kind_ne_of_endsCommand hrest rfl⟩
  | @present l w fields hl h =>
      refine .inr ⟨l, w, rfl, hl, ?_⟩
      rw [separated_apply (q := fun rest => kindIn rest 0 ≠ .dot ∧ kindIn rest 0 ≠ .assign)
        (fun h hs hq => enrichField_apply hs h hq.1 hq.2) (fun hl => by simp [hl]) h
        ⟨kind_ne_of_endsCommand hrest rfl, kind_ne_of_endsCommand hrest rfl⟩
        (kind_ne_of_endsCommand hrest rfl) (past_rest hs), past_past]
      rfl

/-! ### Commands -/

/-- The lexemes are read as the command, in front of whatever ends one. -/
def ReadsAs (c : Context) (p : Parse Command) (w : List Lexeme) (command : Command) : Prop :=
  ∀ {s : State} {rest : List Lexeme}, s.rest = w ++ rest → endsCommand (kindIn rest 0) = true →
    p c s = (.ok command, s.past w)

/-- Every command ends by taking its span. -/
theorem span_apply {l : Lexeme} {w : List Lexeme} {make : Span → Command} :
    (do return make (← spanFrom l.token.span) : Parse Command) c (s.past (l :: w)) =
      (.ok (make (spanOver l.token.span (l :: w))), s.past (l :: w)) := by
  rw [bind_apply_of_ok (spanFrom_apply _), past_prevEnd, spanFrom_eq (by simp)]
  rfl

section

variable {l : Lexeme} {w : List Lexeme}

/-- A `FROM` is read off its sources and its metadata. -/
theorem fromCommand_apply (hend : c.endToken.kind = .eof) {w' : List Lexeme}
    {sources : List IndexPattern} {clause : Option Metadata}
    (h : SepBy .comma IsIndexPattern w sources) (h' : IsMetadata w' clause) :
    ReadsAs c fromCommand (l :: (w ++ w'))
      (.«from» sources clause (spanOver l.token.span (l :: (w ++ w')))) := by
  intro s rest hs hrest
  have hs : s.rest = l :: (w ++ (w' ++ rest)) := by simpa using hs
  have hs₁ : (s.past [l]).rest = w ++ (w' ++ rest) := past_rest hs
  have hs₂ : (s.past ([l] ++ w)).rest = w' ++ rest := past_rest (by simpa using hs)
  -- What follows the sources is the clause or the end of the command.
  have hnext : kindIn (w' ++ rest) 0 ≠ .colon ∧ kindIn (w' ++ rest) 0 ≠ .comma := by
    cases h' with
    | absent => exact ⟨kind_ne_of_endsCommand hrest rfl, kind_ne_of_endsCommand hrest rfl⟩
    | bare hl => simp [hl]
    | bracketed hopening => simp [hopening]
  rw [fromCommand, bind_apply_of_ok (advance_apply hs),
    bind_apply_of_ok (indexPatterns_apply hs₁ h hnext.1 hnext.2), past_past,
    bind_apply_of_ok (metadata_apply hs₂ h' hend hrest), past_past]
  exact span_apply

/-- A `SHOW` is read off its two words. -/
theorem showCommand_apply {info : Lexeme} (hinfo : info.token.kind = .keyword .info) :
    ReadsAs c showCommand [l, info] (.showInfo (spanOver l.token.span [l, info])) := by
  intro s rest hs _
  have hs₁ : (s.past [l]).rest = info :: rest := past_rest hs
  rw [showCommand, bind_apply_of_ok (advance_apply hs),
    bind_apply_of_ok (expect_apply hs₁ hinfo _), past_past]
  exact span_apply

/-- A `LIMIT` is read off its number, as long as it is one of 64 bits. -/
theorem limitCommand_apply {count : Lexeme} (hcount : count.token.kind = .integer)
    (hfits : integerOf count.token < 2 ^ 64) :
    ReadsAs c limitCommand [l, count]
      (.limit (integerOf count.token) count.token.text (spanOver l.token.span [l, count])) := by
  intro s rest hs _
  have hs₁ : (s.past [l]).rest = count :: rest := past_rest hs
  have hvalue : integerValue count.token = some (integerOf count.token) :=
    bounded_eq_some.mpr ⟨rfl, hfits⟩
  rw [limitCommand, bind_apply_of_ok (advance_apply hs),
    bind_apply_of_ok (expect_apply hs₁ hcount _), past_past, hvalue]
  exact span_apply

/-- A `KEEP` is read off its list. -/
theorem keepCommand_apply {fields : List FieldPattern} (h : SepBy .comma IsFieldPattern w fields) :
    ReadsAs c keepCommand (l :: w) (.keep fields (spanOver l.token.span (l :: w))) := by
  intro s rest hs hrest
  have hs₁ : (s.past [l]).rest = w ++ rest := past_rest hs
  rw [keepCommand, bind_apply_of_ok (advance_apply hs),
    bind_apply_of_ok (fieldPatterns_apply hs₁ h (kind_ne_of_endsCommand hrest rfl)
      (kind_ne_of_endsCommand hrest rfl)), past_past]
  exact span_apply

/-- No star is refused where there is none. -/
theorem refuseStars_apply {fields : List FieldPattern}
    (h : ∀ field ∈ fields, field.isStar = false) : refuseStars fields c s = (.ok (), s) := by
  induction fields with
  | nil => rfl
  | cons field fields ih =>
      obtain ⟨hfield, hfields⟩ := List.forall_mem_cons.mp h
      rw [refuseStars, hfield]
      exact ih hfields

/-- A `DROP` is read off its list, if there is no star in it. -/
theorem dropCommand_apply {fields : List FieldPattern} (h : SepBy .comma IsFieldPattern w fields)
    (hstar : ∀ field ∈ fields, field.isStar = false) :
    ReadsAs c dropCommand (l :: w) (.drop fields (spanOver l.token.span (l :: w))) := by
  intro s rest hs hrest
  have hs₁ : (s.past [l]).rest = w ++ rest := past_rest hs
  rw [dropCommand, bind_apply_of_ok (advance_apply hs),
    bind_apply_of_ok (fieldPatterns_apply hs₁ h (kind_ne_of_endsCommand hrest rfl)
      (kind_ne_of_endsCommand hrest rfl)), past_past,
    bind_apply_of_ok (refuseStars_apply hstar)]
  exact span_apply

/-- A `RENAME` is read off its list. -/
theorem renameCommand_apply {clauses : List RenameClause}
    (h : SepBy .comma IsRenameClause w clauses) :
    ReadsAs c renameCommand (l :: w) (.rename clauses (spanOver l.token.span (l :: w))) := by
  intro s rest hs hrest
  have hs₁ : (s.past [l]).rest = w ++ rest := past_rest hs
  rw [renameCommand, bind_apply_of_ok (advance_apply hs),
    bind_apply_of_ok (separated_apply (q := fun rest => kindIn rest 0 ≠ .dot)
      (fun h hs hdot => renameClause_apply hs h hdot) (fun hl => by simp [hl]) h
      (kind_ne_of_endsCommand hrest rfl) (kind_ne_of_endsCommand hrest rfl) hs₁), past_past]
  exact span_apply

/-- An `MV_EXPAND` is read off its name. -/
theorem mvExpandCommand_apply {field : FieldName} (h : IsFieldName w field) :
    ReadsAs c mvExpandCommand (l :: w) (.mvExpand field (spanOver l.token.span (l :: w))) := by
  intro s rest hs hrest
  have hs₁ : (s.past [l]).rest = w ++ rest := past_rest hs
  rw [mvExpandCommand, bind_apply_of_ok (advance_apply hs),
    bind_apply_of_ok (fieldName_apply hs₁ h (kind_ne_of_endsCommand hrest rfl)), past_past]
  exact span_apply

/-- An `ENRICH` is read off its settings, its policy and the two clauses behind it. -/
theorem enrichCommand_apply {w₁ w₂ : List Lexeme} {name : Lexeme} {given : List Setting}
    {p : Policy} {on : Option FieldPattern} {fields : List EnrichField}
    (hsettings : IsSettings w given) (hpolicy : IsPolicy name p) (hon : IsMatchField w₁ on)
    (hfields : IsClause .«with» IsEnrichField w₂ fields) :
    ReadsAs c enrichCommand (l :: (w ++ name :: (w₁ ++ w₂)))
      (.enrich given p on fields (spanOver l.token.span (l :: (w ++ name :: (w₁ ++ w₂))))) := by
  intro s rest hs hrest
  have hs : s.rest = l :: (w ++ name :: (w₁ ++ (w₂ ++ rest))) := by simpa using hs
  have hs₁ : (s.past [l]).rest = w ++ name :: (w₁ ++ (w₂ ++ rest)) := past_rest hs
  have hs₂ : (s.past ([l] ++ w)).rest = name :: (w₁ ++ (w₂ ++ rest)) :=
    past_rest (by simpa using hs)
  have hs₃ : (s.past ([l] ++ w ++ [name])).rest = w₁ ++ (w₂ ++ rest) :=
    past_rest (by simpa using hs)
  have hs₄ : (s.past ([l] ++ w ++ [name] ++ w₁)).rest = w₂ ++ rest := past_rest (by simpa using hs)
  have hname : name.token.kind = .policy := by
    cases hpolicy with
    | plain h | qualified h => exact h
  have hlength : w.length ≤ (s.past [l]).rest.length := by
    rw [hs₁, List.length_append]
    exact Nat.le_add_right _ _
  -- What follows the matched field is the clause of the added ones or the end of the command.
  have hnext : kindIn (w₂ ++ rest) 0 ≠ .dot ∧ kindIn (w₂ ++ rest) 0 ≠ .keyword .on := by
    cases hfields with
    | absent => exact ⟨kind_ne_of_endsCommand hrest rfl, kind_ne_of_endsCommand hrest rfl⟩
    | present hl => simp [hl]
  rw [enrichCommand, bind_apply_of_ok (advance_apply hs), bind_apply_of_ok remaining_apply,
    bind_apply_of_ok (settings_apply hs₁ hsettings (by simp [hname]) hlength), past_past,
    bind_apply_of_ok (policy_apply hs₂ hpolicy), past_past]
  refine (optional_apply hs₃ (matchField_apply hs₃ hon hnext.1 hnext.2)).trans ?_
  rw [past_past]
  refine (optional_apply hs₄ (enrichFields_apply hs₄ hfields hrest)).trans ?_
  have hall : [l] ++ w ++ [name] ++ w₁ ++ w₂ = l :: (w ++ name :: (w₁ ++ w₂)) := by simp
  rw [past_past, hall]
  exact span_apply

/-- A table is never read as the word `JOIN`, since no table follows it. -/
theorem lookupCommand_apply {j w' : List Lexeme} {on : Lexeme}
    {table : IndexPattern} {fields : List FieldPattern} {join : Bool} (hjoin : IsJoin j join)
    (htable : IsIndexPattern w table) (hon : on.token.kind = .keyword .on)
    (h : SepBy .comma IsFieldPattern w' fields) :
    ReadsAs c lookupCommand (l :: (j ++ (w ++ on :: w')))
      (.lookup table fields join (spanOver l.token.span (l :: (j ++ (w ++ on :: w'))))) := by
  intro s rest hs hrest
  have hs : s.rest = l :: (j ++ (w ++ on :: (w' ++ rest))) := by simpa using hs
  have hs₁ : (s.past [l]).rest = j ++ (w ++ on :: (w' ++ rest)) := past_rest hs
  have hs₂ : (s.past ([l] ++ j)).rest = w ++ on :: (w' ++ rest) := past_rest (by simpa using hs)
  have hs₃ : (s.past ([l] ++ j ++ w)).rest = on :: (w' ++ rest) := past_rest (by simpa using hs)
  have hs₄ : (s.past ([l] ++ j ++ w ++ [on])).rest = w' ++ rest := past_rest (by simpa using hs)
  have hall : [l] ++ j ++ w ++ [on] ++ w' = l :: (j ++ (w ++ on :: w')) := by simp
  -- From the table on the clause is read the same, with `JOIN` in front of it or without.
  have hbehind : (do
      let table ← indexPattern
      let _ ← expect (.keyword .on) "ON"
      let matchFields ← fieldPatterns
      return Command.lookup table matchFields join (← spanFrom l.token.span)) c
        (s.past ([l] ++ j)) = (.ok (.lookup table fields join
          (spanOver l.token.span (l :: (j ++ (w ++ on :: w'))))),
            s.past (l :: (j ++ (w ++ on :: w')))) := by
    rw [bind_apply_of_ok (indexPattern_apply hs₂ htable (by simp [hon])), past_past,
      bind_apply_of_ok (expect_apply hs₃ hon _), past_past,
      bind_apply_of_ok (fieldPatterns_apply hs₄ h (kind_ne_of_endsCommand hrest rfl)
        (kind_ne_of_endsCommand hrest rfl)), past_past, hall]
    exact span_apply
  rw [lookupCommand, bind_apply_of_ok (advance_apply hs), bind_apply_of_ok (current_run _ _),
    peekSecond, bind_look]
  cases hjoin with
  -- Behind the table no second name may follow, so that a table called `join` is not the word.
  | absent =>
      have hsecond : (s.past [l]).kindAt 1 ≠ .source ∧ (s.past [l]).kindAt 1 ≠ .quotedString := by
        rw [kindAt_eq, hs₁]
        cases htable with
        | plain => simp [hon]
        | remote _ hcolon => simp [hcolon]
      simp only [hsecond, decide_false, Bool.or_self, Bool.and_false, Bool.false_eq_true, if_false]
      exact hbehind
  | @present word hword hspelled =>
      have hfirst : (s.past [l]).current c = word.token := by rw [State.current, hs₁]; rfl
      have hsecond : (s.past [l]).kindAt 1 = .source ∨ (s.past [l]).kindAt 1 = .quotedString := by
        rw [kindAt_eq, hs₁]
        cases htable with
        | plain h | remote h =>
            cases h with
            | bare h => exact .inl h
            | quoted h => exact .inr h
      have htrue : (decide (word.token.kind = .source) && Text.sameWord word.token.text "join" &&
          (decide ((s.past [l]).kindAt 1 = .source) ||
            decide ((s.past [l]).kindAt 1 = .quotedString))) = true := by
        simp [hword, hspelled, hsecond]
      rw [hfirst, htrue]
      simp only [if_true]
      rw [bind_apply_of_ok (advance_apply hs₁), past_past]
      exact hbehind

end

/-- A command begins with its verb. -/
theorem IsCommand.kindIn_zero {w : List Lexeme} {read : Command} (h : IsCommand w read) :
    kindIn w 0 = .command read.verb := by
  obtain ⟨hl, hbody, -⟩ := h
  rw [kindIn_cons_zero, hl, hbody.verb_eq]

/-- Commands that name things are read whatever expressions and explained pipelines are. -/
theorem IsCommand.readsAs (hend : c.endToken.kind = .eof) (sub : Nat → Parse Expr)
    (explained : Parse (List Command)) {w : List Lexeme} {read : Command} (h : IsCommand w read)
    (hnominal : read.verb.isNominal = true) : ReadsAs c (command sub explained) w read := by
  obtain ⟨hl, hbody, -⟩ := h
  intro s rest hs hrest
  rw [command, bind_apply_of_ok (current_apply hs), hl]
  cases hbody with
  | «from» hsources hmetadata => exact fromCommand_apply hend hsources hmetadata hs hrest
  | showInfo hinfo => exact showCommand_apply hinfo hs hrest
  | limit hinteger hfits => exact limitCommand_apply hinteger hfits hs hrest
  | keep h => exact keepCommand_apply h hs hrest
  | drop h hstar => exact dropCommand_apply h hstar hs hrest
  | rename h => exact renameCommand_apply h hs hrest
  | mvExpand h => exact mvExpandCommand_apply h hs hrest
  | enrich hsettings hpolicy hon hfields =>
      exact enrichCommand_apply hsettings hpolicy hon hfields hs hrest
  | lookup hjoin htable hon h => exact lookupCommand_apply hjoin htable hon h hs hrest
  | _ => cases hnominal

/-! ### Pipelines of one command -/

/-- A command that is read up to the end of the text is the only one of its pipeline. -/
theorem wholePipeline_apply {maxDepth : Nat} {w : List Lexeme} {read : Command}
    (h : ReadsAs c (command (expressionAt maxDepth) (explained maxDepth)) w read)
    {verb : Verb} (hstart : kindIn w 0 = .command verb) (hs : s.rest = w) :
    wholePipeline maxDepth c s = (.ok [read], s.past w) := by
  have hread : command (expressionAt maxDepth) (explained maxDepth) c s = (.ok read, s.past w) :=
    h (by rw [hs, List.append_nil]) rfl
  have hrest : (s.past w).rest = [] := past_rest (by rw [hs, List.append_nil])
  have hkind : s.kindAt 0 = .command verb := by rw [kindAt_eq, hs, hstart]
  have hstarts : StartsCommand false s := by simp [StartsCommand, EndsPipeline, hkind]
  have hends : EndsPipeline false (s.past w) := .inl (by rw [kindAt_eq, hrest, kindIn_nil])
  have hlength : 1 ≤ s.rest.length := by
    rw [hs, Nat.one_le_iff_ne_zero, ne_eq, List.length_eq_zero_iff]
    rintro rfl
    cases hstart
  rw [wholePipeline, pipeline, bind_apply_of_ok remaining_apply]
  exact (Chain.one hstarts hread).stages_apply hends hlength

/-- A query of one command is read off the lexemes of the command. -/
theorem query_apply {maxDepth : Nat} {w : List Lexeme} {read : Command}
    (h : ReadsAs c (command (expressionAt maxDepth) (explained maxDepth)) w read)
    {verb : Verb} (hstart : kindIn w 0 = .command verb) :
    query maxDepth false false c (.initial w) =
      (.ok (.ofCommands [read]), (State.initial w).past w) := by
  rw [query, bind_apply_of_ok (wholePipeline_apply h hstart rfl)]
  rfl

end PipeQuery.Parser
