import PipeQuery.Proofs.Command.Grammar
import PipeQuery.Proofs.Render.Source

/-!
# `PipeQuery.Proofs.Render.Clause`: the clauses of commands are read back

The keywords inside commands and the parts that stand behind them: renamings, metadata, settings,
policies and added fields. Each is rendered as a text that is read, in the mode its command is in
at that place, as a part with the same core. A part that may be missing is rendered with the blank
in front of it (`PrintsBehind`), and no clause leaves a bracket open (`PrintsLast`).
-/

set_option autoImplicit false

namespace PipeQuery

open PipeQuery.Parser PipeQuery.Token
open Token.Shape (startsWith IsWord)

variable {preview : Bool} {mode : Mode} {m : ModeStack}

/-- Every character but a blank. -/
def carriesAny (c : Char) : Bool :=
  c ≠ ' '

/-- A text that a blank ends is read in front of any text that nothing but blanks and ends may
follow. -/
theorem Token.Prints.beforeBlank {next : ModeStack → ModeStack} {cs : List Char}
    {more : Char → Bool} {R : List Lexeme → Prop} (h : Prints preview mode next cs more R)
    (hblank : more ' ' = false) : Prints preview mode next cs carriesAny R := by
  refine h.mono fun c hc => decide_eq_true ?_
  rintro rfl
  rw [hblank] at hc
  cases hc

/-! ### The end of a command -/

/-- The text is read, and a blank ends it. Which modes it enters does not matter, but it leaves no
bracket open that was not, and none closed. -/
def PrintsLast (preview : Bool) (mode : Mode) (cs : List Char) (R : List Lexeme → Prop) : Prop :=
  ∃ next, (∀ m : ModeStack, (next m).hasBracket = m.hasBracket) ∧
    Prints preview mode next cs carriesAny R

/-- A text that a blank ends may be the last of a command if it leaves the brackets as they are. -/
theorem Token.Prints.last {next : ModeStack → ModeStack} {cs : List Char} {more : Char → Bool}
    {R : List Lexeme → Prop} (h : Prints preview mode next cs more R) (hblank : more ' ' = false)
    (hkeeps : ∀ m : ModeStack, (next m).hasBracket = m.hasBracket) :
    PrintsLast preview mode cs R :=
  ⟨next, hkeeps, h.beforeBlank hblank⟩

/-- What is read behind the text may be weakened. -/
theorem PrintsLast.imp {cs : List Char} {R R' : List Lexeme → Prop}
    (h : PrintsLast preview mode cs R) (hR : ∀ w, R w → R' w) : PrintsLast preview mode cs R' := by
  obtain ⟨next, hkeeps, h⟩ := h
  exact ⟨next, hkeeps, h.imp hR⟩

/-- A text and, behind a blank, the end of the command. -/
theorem Token.Prints.spacedLast {mode' : Mode} {next : ModeStack → ModeStack} {cs cs' : List Char}
    {more : Char → Bool} {R R' : List Lexeme → Prop} (h : Prints preview mode next cs more R)
    (h' : PrintsLast preview mode' cs' R') (hblank : more ' ' = false)
    (hnext : ∀ m : ModeStack, m.current = mode → (next m).current = mode')
    (hkeeps : ∀ m : ModeStack, (next m).hasBracket = m.hasBracket) :
    PrintsLast preview mode (cs ++ ' ' :: cs') (Followed R R') := by
  obtain ⟨next', hkeeps', h'⟩ := h'
  exact ⟨_, fun m => (hkeeps' _).trans (hkeeps m), h.spaced h' hblank hnext⟩

/-- Nothing, or a blank and a text that is read behind it. -/
def PrintsBehind (preview : Bool) (mode : Mode) (cs : List Char) (R : List Lexeme → Prop) : Prop :=
  cs = [] ∧ R [] ∨ ∃ cs', cs = ' ' :: cs' ∧ PrintsLast preview mode cs' R

/-- A text and what may stand behind it, a blank between them, are the last of a command. -/
theorem Token.Prints.tailed {mode' : Mode} {next : ModeStack → ModeStack} {cs tail : List Char}
    {more : Char → Bool} {R R' : List Lexeme → Prop} (h : Prints preview mode next cs more R)
    (htail : PrintsBehind preview mode' tail R') (hblank : more ' ' = false)
    (hnext : ∀ m : ModeStack, m.current = mode → (next m).current = mode')
    (hkeeps : ∀ m : ModeStack, (next m).hasBracket = m.hasBracket) :
    PrintsLast preview mode (cs ++ tail) (Followed R R') := by
  obtain ⟨rfl, hR'⟩ | ⟨tail, rfl, htail⟩ := htail
  · refine ((List.append_nil cs).symm ▸ h.last hblank hkeeps).imp fun w hR => ?_
    exact ⟨w, [], (List.append_nil w).symm, hR, hR'⟩
  · exact h.spacedLast htail hblank hnext hkeeps

/-! ### Keywords -/

/-- A bare part is a whole pattern if nothing is behind it. -/
theorem Token.patternLength_eq {cs : List Char} (hne : cs ≠ [])
    (hquote : startsWith (· = '\x60') cs = false) (hbare : Shape.barePart cs = cs.length) :
    patternLength cs = cs.length := by
  obtain ⟨c, rest, rfl⟩ := List.exists_cons_of_ne_nil hne
  have hpart : Shape.patternPart? (c :: rest) = some (rest.length + 1) := by
    rw [Shape.patternPart?, hquote, hbare]
    rfl
  have hnil : Shape.pattern [] = .whole 0 := by
    rw [Shape.pattern]
    rfl
  rw [patternLength, Shape.pattern, hpart]
  simp [hnil]

/-- A keyword of a mode. -/
theorem prints_keyword_in {keyword : Keyword}
    (hword : scan mode keyword.text.toList = keyword.text.toList.length)
    (hkind : wordKind preview mode keyword.text = .keyword keyword)
    (hcarries : carries mode ' ' = false) {next : ModeStack → ModeStack}
    (hnext : ∀ m : ModeStack, m.current = mode → m.behind (.keyword keyword) = next m) :
    Prints preview mode next keyword.text.toList carriesAny (IsKind (.keyword keyword)) := by
  have hne : keyword.text.toList ≠ [] := by cases keyword <;> decide
  have hforms : Forms preview mode (.keyword keyword) keyword.text.toList :=
    hkind ▸ forms_word hword hne
  refine ((Prints.piece hforms hnext).beforeBlank ?_).imp fun _ => IsToken.isKind
  rw [continues_of_isWord rfl (by simp), hcarries]

/-- The word `AS` is read in the mode of `RENAME`. -/
theorem prints_as :
    Prints preview .rename id Keyword.as.text.toList carriesAny (IsKind (.keyword .as)) := by
  have hword : scan .rename Keyword.as.text.toList = Keyword.as.text.toList.length :=
    patternLength_eq (by decide) (by decide) (by decide)
  exact prints_keyword_in hword (by decide +revert) rfl (Mode.behind_eq rfl rfl)

/-- The word `METADATA` is read in the mode of sources. -/
theorem prints_metadataWord :
    Prints preview .sources id Keyword.metadata.text.toList carriesAny
      (IsKind (.keyword .metadata)) :=
  prints_keyword_in (by decide) (by decide +revert) rfl (Mode.behind_eq rfl rfl)

/-- `ON` and `WITH` enter the mode of the fields behind them. -/
theorem prints_on_enrich :
    Prints preview .enrich (·.push .enrichField) Keyword.on.text.toList carriesAny
      (IsKind (.keyword .on)) := by
  refine prints_keyword_in (by decide) (by decide +revert) rfl fun m hm => ?_
  rw [ModeStack.behind_eq m rfl, hm]
  rfl

/-- The word `WITH` enters the mode of the fields of `ENRICH`. -/
theorem prints_with_enrich :
    Prints preview .enrich (·.push .enrichField) Keyword.«with».text.toList carriesAny
      (IsKind (.keyword .«with»)) := by
  refine prints_keyword_in (by decide) (by decide +revert) rfl fun m hm => ?_
  rw [ModeStack.behind_eq m rfl, hm]
  rfl

/-- In the mode of these fields it is a keyword like others. -/
theorem prints_with_enrichField :
    Prints preview .enrichField id Keyword.«with».text.toList carriesAny
      (IsKind (.keyword .«with»)) := by
  have hword : scan .enrichField Keyword.«with».text.toList =
      Keyword.«with».text.toList.length :=
    patternLength_eq (by decide) (by decide) (by decide)
  exact prints_keyword_in hword (by decide +revert) rfl (Mode.behind_eq rfl rfl)

/-- The word `ON` enters the mode of the fields of `LOOKUP`. -/
theorem prints_on_lookup :
    Prints preview .lookup (·.push .lookupField) Keyword.on.text.toList carriesAny
      (IsKind (.keyword .on)) := by
  refine prints_keyword_in (by decide) (by decide +revert) rfl fun m hm => ?_
  rw [ModeStack.behind_eq m rfl, hm]
  rfl

/-- The word `JOIN` is read as a source, and the parser tells it by its text. -/
theorem prints_join :
    Prints preview .lookup id "JOIN".toList carriesAny (IsToken .source "JOIN".toList) := by
  have hkind : wordKind preview .lookup "JOIN" = .source := by decide +revert
  have hforms := @forms_word preview .lookup "JOIN" (by decide) (by decide)
  rw [hkind] at hforms
  exact (Prints.piece hforms (readsSources_lookup.behind_eq rfl)).beforeBlank rfl

/-! ### Renamings -/

/-- What does not depend on more than the core is the same for items with the same cores. -/
theorem forall_of_map_core {α β : Type} {core : α → α} {f : α → β}
    (hf : ∀ a, f (core a) = f a) {as as' : List α} (h : as'.map core = as.map core) {b : β}
    (hall : ∀ a ∈ as, f a = b) : ∀ a ∈ as', f a = b := by
  intro a ha
  obtain ⟨a', ha', hcore⟩ := List.mem_map.mp (h ▸ List.mem_map_of_mem ha)
  rw [← hf a, ← hcore, hf, hall a' ha']

/-- Patterns with the same core have their wildcards in the same places. -/
theorem hasWildcard_of_core {p p' : FieldPattern} (h : p'.core = p.core)
    (hplain : p.hasWildcard = false) : p'.hasWildcard = false := by
  rw [← p'.hasWildcard_core, h, p.hasWildcard_core, hplain]

/-- Two patterns with an equals sign between them. -/
theorem prints_assigned (hmode : mode.ReadsPatterns) (hassign : single? mode '=' = some .assign)
    (hm : m.current = mode) {w w' : List Lexeme} {p p' : FieldPattern} (h : IsFieldPattern w p)
    (hw : Lexed preview m w) (h' : IsFieldPattern w' p') (hw' : Lexed preview m w') :
    Prints preview mode id (p.render ++ " = " ++ p'.render).toList Shape.carriesPattern
      (Followed (Rewrites IsFieldPattern FieldPattern.core p)
        (Followed (IsKind .assign) (Rewrites IsFieldPattern FieldPattern.core p'))) := by
  have htext : (p.render ++ " = " ++ p'.render).toList =
      p.render.toList ++ ' ' :: (['='] ++ ' ' :: p'.render.toList) := by simp
  have hsign : Prints preview mode id ['='] (continues mode .assign) (IsKind .assign) :=
    (Prints.piece (.single hassign) (Mode.behind_eq hmode.isSteady rfl)).imp fun _ => IsToken.isKind
  rw [htext]
  exact (FieldPattern.prints hmode hm h hw).spaced
    (hsign.spaced (FieldPattern.prints hmode hm h' hw') rfl fun _ h => h) rfl fun _ h => h

/-- A renaming is written as its two names with `AS` between. -/
theorem RenameClause.prints (hm : m.current = .rename) {w : List Lexeme} {clause : RenameClause}
    (h : IsRenameClause w clause) (hw : Lexed preview m w) :
    Prints preview .rename id clause.render.toList Shape.carriesPattern
      (Rewrites IsRenameClause core clause) := by
  have hsteady : m.current.isSteady = true := by rw [hm]; rfl
  cases h with
  | @as l w w' oldName newName hold hl hnew hplain hplain' =>
      have hrest := hw.right_of_stays (hold.stays hsteady)
      have hnewLexed := (hrest.head_of_kind hl (by simp)).2
      rw [ModeStack.behind_of_isSteady hsteady rfl] at hnewLexed
      have htext : (render ⟨oldName, newName, .as, oldName.span.merge newName.span⟩).toList =
          oldName.render.toList ++ ' ' :: (Keyword.as.text.toList ++ ' ' ::
            newName.render.toList) := by
        simp [render, Keyword.text]
      rw [htext]
      refine ((FieldPattern.prints readsPatterns_rename hm hold hw.left).spaced
        (prints_as.spaced (FieldPattern.prints readsPatterns_rename hm hnew hnewLexed) rfl
          fun _ h => h)
        rfl fun _ h => h).imp ?_
      rintro w ⟨w₁, _, rfl, ⟨old, hold', hcore⟩, _, w₂, rfl, ⟨l', rfl, hl'⟩, new, hnew', hcore'⟩
      refine ⟨_, .as hold' hl' hnew' (hasWildcard_of_core hcore hplain)
        (hasWildcard_of_core hcore' hplain'), ?_⟩
      rw [core, core, hcore, hcore']
  -- The names stand the other way round, and so do the parts that are read back.
  | @assign l w w' oldName newName hnew hl hold hplain hplain' =>
      have hrest := hw.right_of_stays (hnew.stays hsteady)
      have holdLexed := (hrest.head_of_kind hl (by simp)).2
      rw [ModeStack.behind_of_isSteady hsteady rfl] at holdLexed
      refine (prints_assigned readsPatterns_rename rfl hm hnew hw.left hold holdLexed).imp ?_
      rintro w ⟨w₁, _, rfl, ⟨new, hnew', hcore⟩, _, w₂, rfl, ⟨l', rfl, hl'⟩, old, hold', hcore'⟩
      refine ⟨_, .assign hnew' hl' hold' (hasWildcard_of_core hcore' hplain)
        (hasWildcard_of_core hcore hplain'), ?_⟩
      rw [core, core, hcore, hcore']

/-- The tokens of a renaming leave a steady mode as it is. -/
theorem Parser.IsRenameClause.stays (hsteady : m.current.isSteady = true) {w : List Lexeme}
    {clause : RenameClause} (h : IsRenameClause w clause) :
    ∀ l ∈ w, l.token.kind ≠ .error ∧ m.behind l.token.kind = m := by
  cases h with
  | as hold hl hnew =>
      refine List.forall_mem_append.mpr ⟨hold.stays hsteady, List.forall_mem_cons.mpr ⟨?_,
        hnew.stays hsteady⟩⟩
      rw [hl]
      exact ⟨by simp, ModeStack.behind_of_isSteady hsteady rfl⟩
  | assign hnew hl hold =>
      refine List.forall_mem_append.mpr ⟨hnew.stays hsteady, List.forall_mem_cons.mpr ⟨?_,
        hold.stays hsteady⟩⟩
      rw [hl]
      exact ⟨by simp, ModeStack.behind_of_isSteady hsteady rfl⟩

/-- Renamings with commas between are read as such again. -/
theorem prints_renameClauses (hm : m.current = .rename) {w : List Lexeme}
    {clauses : List RenameClause} (h : SepBy .comma IsRenameClause w clauses)
    (hw : Lexed preview m w) :
    Prints preview .rename id (Command.commas RenameClause.render clauses).toList
      Shape.carriesPattern
      (Rewrites (SepBy .comma IsRenameClause) (List.map RenameClause.core) clauses) := by
  have hsteady : m.current.isSteady = true := by rw [hm]; rfl
  have hlexed := h.lexed_of_stays (by simp) (ModeStack.behind_of_isSteady hsteady rfl)
    (fun h => h.stays hsteady) hw
  have hcomma : Prints preview .rename id ", ".toList (fun _ => false) (IsKind .comma) :=
    prints_comma_in rfl (Mode.behind_eq rfl rfl)
  refine hcomma.separated (fun _ => rfl) h.ne_nil (fun clause hclause => ?_) fun clause _ rest => ?_
  · obtain ⟨w', hclause, hw'⟩ := hlexed clause hclause
    exact RenameClause.prints hm hclause hw'
  · cases clause.render.toList ++ rest <;> rfl

/-! ### Metadata -/

/-- The clause as a part of a text, with a blank in front of it. -/
def Metadata.renderBehind (clause : Option Metadata) : String :=
  match clause with
  | some m => " " ++ m.render
  | none => ""

/-- The fields of the metadata with commas between are read as sources again. -/
theorem prints_sourceItems (hm : m.current = .sources) {w : List Lexeme} {fields : List Source}
    (h : SepBy .comma IsSourceItem w fields) (hw : Lexed preview m w) :
    Prints preview .sources id (Command.commas Source.render fields).toList carriesSource
      (Rewrites (SepBy .comma IsSourceItem) (List.map Source.core) fields) := by
  have hstays : ∀ {w : List Lexeme} {source : Source}, IsSourceItem w source →
      ∀ l ∈ w, l.token.kind ≠ .error ∧ m.behind l.token.kind = m := by
    rintro _ _ ⟨hsource⟩ l hl
    obtain rfl := List.mem_singleton.mp hl
    exact ⟨Kind.ne_error_of_isOfSources hsource.isOfSources,
      readsSources_sources.behind_eq hsource.isOfSources m hm⟩
  have hlexed := h.lexed_of_stays (by simp) (readsSources_sources.behind_eq rfl m hm) hstays hw
  refine (prints_comma_in rfl (readsSources_sources.behind_eq rfl)).separated (fun _ => rfl)
    h.ne_nil (fun source hsource => ?_) fun source _ rest => ?_
  · obtain ⟨_, ⟨hsource⟩, hw'⟩ := hlexed source hsource
    refine (Source.prints readsSources_sources hm hsource hw').imp ?_
    rintro w ⟨source', ⟨l, rfl, hsource'⟩, hcore⟩
    exact ⟨source', .mk hsource', hcore⟩
  · cases source.render.toList ++ rest <;> rfl

/-- The metadata is written behind the sources, or nothing is. -/
theorem prints_metadata (hm : m.current = .sources) {w : List Lexeme} {clause : Option Metadata}
    (h : IsMetadata w clause) (hw : Lexed preview m w) :
    PrintsBehind preview .sources (Metadata.renderBehind clause).toList
      (Rewrites IsMetadata (Option.map Metadata.core) clause) := by
  cases h with
  | absent => exact .inl ⟨rfl, _, .absent, rfl⟩
  | @bare l w fields hl h =>
      have hfields := (hw.head_of_kind hl (by simp)).2
      rw [ModeStack.behind_of_isSteady (by rw [hm]; rfl) rfl] at hfields
      have htext : (Metadata.render ⟨fields, false, spanOver l.token.span (l :: w)⟩).toList =
          Keyword.metadata.text.toList ++ ' ' :: (Command.commas Source.render fields).toList := by
        simp [Metadata.render, Keyword.text, Command.commas]
      refine .inr ⟨_, by rw [Metadata.renderBehind, String.toList_append, htext]; rfl,
        ((prints_metadataWord.spaced (prints_sourceItems hm h hfields) rfl fun _ h => h).last rfl
          fun _ => rfl).imp ?_⟩
      rintro w ⟨_, w', rfl, ⟨l', rfl, hl'⟩, fields', hfields', hcores⟩
      refine ⟨_, .bare hl' hfields', ?_⟩
      rw [Option.map_some, Option.map_some, Metadata.core, Metadata.core, hcores]
  | @bracketed opening l closing w fields hopening hl h hclosing =>
      -- Between the brackets the same mode is in force as in front of them.
      have hinner := (hw.head_of_kind hopening (by simp)).2
      rw [ModeStack.behind, hm] at hinner
      have hfields := (hinner.head_of_kind hl (by simp)).2
      rw [ModeStack.behind_of_isSteady rfl rfl] at hfields
      have htext : (Metadata.render ⟨fields, true, spanOver opening.token.span [closing]⟩).toList =
          '[' :: (Keyword.metadata.text.toList ++
            ' ' :: (Command.commas Source.render fields).toList ++ [']']) := by
        simp [Metadata.render, Keyword.text, Command.commas]
      have hbrackets := @Prints.bracketed _ .sources _ _ _ _ (prints_metadataWord.spaced
        (prints_sourceItems rfl h hfields.left) rfl fun _ h => h) rfl rfl rfl (by decide)
      refine .inr ⟨_, by rw [Metadata.renderBehind, String.toList_append, htext]; rfl,
        (hbrackets.last rfl fun _ => rfl).imp ?_⟩
      rintro _ ⟨_, _, rfl, ⟨opening', rfl, hopening'⟩, _, _, rfl, ⟨_, w', rfl, ⟨l', rfl, hl'⟩,
        fields', hfields', hcores⟩, closing', rfl, hclosing'⟩
      refine ⟨_, .bracketed hopening' hl' hfields' hclosing', ?_⟩
      rw [Option.map_some, Option.map_some, Metadata.core, Metadata.core, hcores]

/-! ### Settings and policies -/

/-- A setting is written in its brackets, and read there without leaving the mode of `ENRICH`. -/
theorem Setting.prints {w : List Lexeme} {setting : Setting} (h : IsSetting w setting)
    (hm : m.current = .enrich) (hw : Lexed preview m w) :
    Prints preview .enrich id setting.render.toList (fun _ => false)
      (Rewrites IsSetting core setting) := by
  cases h with
  | @mk opening name colon value closing hopening hname hcolon hvalue hclosing hknown hmode =>
      have hinner := (hw.head_of_kind hopening (by simp)).2
      rw [ModeStack.behind, hm] at hinner
      obtain ⟨hnameForms, hinner⟩ := hinner.head_of_kind hname (by simp)
      rw [ModeStack.behind_of_isSteady rfl rfl] at hinner
      have hinner := (hinner.head_of_kind hcolon (by simp)).2
      rw [ModeStack.behind_of_isSteady rfl rfl] at hinner
      have hvalueForms := (hinner.head_of_kind hvalue (by simp)).1
      -- Between the brackets no lexeme moves to another mode.
      have hstays : ∀ {kind : Kind}, kind.shifts = false → ∀ m : ModeStack, m.current = .setting →
          m.behind kind = id m := fun hkind => Mode.behind_eq rfl hkind
      have hcolonPrints : Prints preview .setting id [':'] (fun _ => false) (IsKind .colon) :=
        (Prints.sign (.single rfl) (fun _ => rfl) (hstays rfl)).imp fun _ => IsToken.isKind
      have htext : (render ⟨name.token.text, value.token.text,
          spanOver opening.token.span [closing]⟩).toList =
          '[' :: ((name.token.text.toList ++ ([':'] ++ value.token.text.toList)) ++ [']']) := by
        simp [render]
      have hpair := (Prints.piece hnameForms (hstays rfl)).append
        (hcolonPrints.append (Prints.piece hvalueForms (hstays rfl))
          (fun rest _ => by cases value.token.text.toList ++ rest <;> rfl) fun _ h => h)
        (fun _ _ => rfl) fun _ h => h
      have hbrackets := @Prints.bracketed _ .enrich _ _ _ _ hpair rfl rfl rfl rfl
      rw [htext]
      refine hbrackets.imp ?_
      -- The five lexemes that are read back, with the words of the setting that was printed.
      rintro _ ⟨_, _, rfl, ⟨opening', rfl, hopening'⟩, _, _, rfl, ⟨_, _, rfl,
        ⟨name', rfl, hname', hnameText⟩, _, _, rfl, ⟨colon', rfl, hcolon'⟩, value', rfl, hvalue',
        hvalueText⟩, closing', rfl, hclosing'⟩
      rw [String.ofList_toList] at hnameText hvalueText
      refine ⟨_, .mk hopening' hname' hcolon' hvalue' hclosing' (hnameText ▸ hknown)
        (hvalueText ▸ hmode), ?_⟩
      rw [core, core, hnameText, hvalueText]

/-- The settings, each with a blank behind it. -/
def Setting.renderFront (settings : List Setting) : List Char :=
  settings.flatMap fun setting => setting.render.toList ++ [' ']

/-- The settings are written one behind the other, each with a blank behind it. -/
theorem Setting.toList_renderFront (settings : List Setting) :
    (String.join (settings.map fun setting => " " ++ setting.render)).toList ++ [' '] =
      ' ' :: renderFront settings := by
  induction settings with
  | nil => rfl
  | cons setting settings ih =>
      have hcons : renderFront (setting :: settings) =
          setting.render.toList ++ ' ' :: renderFront settings := by simp [renderFront]
      rw [hcons, ← ih]
      simp

/-- Behind the settings, whose brackets are closed, the same modes are in force as in front. -/
theorem Parser.IsSettings.lexed_right (hm : m.current = .enrich) {w w' : List Lexeme}
    {settings : List Setting} (h : IsSettings w settings) (hw : Lexed preview m (w ++ w')) :
    Lexed preview m w' := by
  cases h with
  | absent => exact hw
  | present h =>
      obtain ⟨hopening, hname, hcolon, hvalue, hclosing⟩ := h
      have hw := (hw.head_of_kind hopening (by simp)).2
      rw [ModeStack.behind, hm] at hw
      have hw := (hw.head_of_kind hname (by simp)).2
      rw [ModeStack.behind_of_isSteady rfl rfl] at hw
      have hw := (hw.head_of_kind hcolon (by simp)).2
      rw [ModeStack.behind_of_isSteady rfl rfl] at hw
      have hw := (hw.head_of_kind hvalue (by simp)).2
      rw [ModeStack.behind_of_isSteady rfl rfl] at hw
      have hw := (hw.head_of_kind hclosing (by simp)).2
      have hback : (m.pushBracket .setting).behind .closeBracket = m := by
        simp [ModeStack.behind, ModeStack.closeBracket, ModeStack.hasBracket,
          ModeStack.pushBracket]
      exact hback ▸ hw

/-- The settings, and behind them what is read in the same mode. -/
theorem prints_settings {w : List Lexeme} {settings : List Setting} (h : IsSettings w settings)
    (hm : m.current = .enrich) (hw : Lexed preview m w) {cs : List Char}
    {R : List Lexeme → Prop} (hbehind : PrintsLast preview .enrich cs R) :
    PrintsLast preview .enrich (Setting.renderFront settings ++ cs)
      (Followed (Rewrites IsSettings (List.map Setting.core) settings) R) := by
  cases h with
  | absent => exact hbehind.imp fun w hR => ⟨[], w, rfl, ⟨[], .absent, rfl⟩, hR⟩
  | @present _ setting h =>
      have htext : Setting.renderFront [setting] ++ cs = setting.render.toList ++ ' ' :: cs := by
        simp [Setting.renderFront]
      rw [htext]
      refine ((Setting.prints h hm hw).spacedLast hbehind rfl (fun _ h => h) fun _ => rfl).imp ?_
      rintro w ⟨w₀, w₁, rfl, ⟨setting', hsetting', hcore⟩, hR⟩
      refine ⟨w₀, w₁, rfl, ⟨_, .present hsetting', ?_⟩, hR⟩
      rw [List.map_singleton, List.map_singleton, hcore]

/-- The qualifier of a policy as it is rendered. -/
def EnrichMode.qualifier (mode : EnrichMode) : List Char :=
  '_' :: mode.text.toList

/-- The qualifier that a mode is written with is read as this mode. -/
theorem EnrichMode.qualifiedMode?_qualifier (mode : EnrichMode) :
    qualifiedMode? mode.qualifier = some mode := by
  cases mode <;> decide

/-- A rendered qualifier with a name behind its colon is a policy. -/
theorem EnrichMode.forms_qualified (mode : EnrichMode) {name : List Char} (hne : name ≠ [])
    (hname : ∀ c ∈ name, Shape.isPolicyChar c = true) :
    Forms preview .enrich .policy (mode.qualifier ++ ':' :: name) := by
  have hall : ∀ c ∈ mode.qualifier, Shape.isPolicyChar c = true :=
    List.all_eq_true.mp (by cases mode <;> rfl)
  have hword : IsWord Shape.policy Shape.carriesPolicy (mode.qualifier ++ ':' :: name) := by
    refine ⟨by simp, fun rest hrest => ?_⟩
    have hstart : startsWith Shape.isPolicyChar (name ++ rest) = true := by
      obtain ⟨c, name, rfl⟩ := List.exists_cons_of_ne_nil hne
      exact hname c (by simp)
    have hends : startsWith Shape.isPolicyChar rest = false :=
      Shape.startsWith_mono (fun c hc => by simp [Shape.carriesPolicy, hc]) hrest
    rw [List.append_assoc, List.cons_append,
      Shape.policy_qualified (by simp [EnrichMode.qualifier]) hall hstart,
      Shape.run_append hname hends,
      List.length_append, List.length_cons]
  -- No keyword begins with an underscore.
  have hkind : wordKind preview .enrich (String.ofList (mode.qualifier ++ ':' :: name)) =
      .policy := by
    have hnot : ∀ keyword : Keyword, Step.spells
        (String.ofList (mode.qualifier ++ ':' :: name)) keyword = false := by
      intro keyword
      have hhead : (Text.upper keyword.text).toList.head? ≠ some '_' := by
        cases keyword <;> decide
      rw [Step.spells, Text.sameWord, decide_eq_false_iff_not]
      intro heq
      rw [← heq] at hhead
      exact hhead (by rw [Text.upper, String.toList_ofList, String.toList_ofList]; rfl)
    rw [wordKind, hnot, hnot]
    rfl
  rw [← hkind]
  exact .word hword

/-- A policy is written with the qualifier of its mode, if it has one. -/
theorem Policy.prints {l : Lexeme} {policy : Policy} (h : IsPolicy l policy)
    (hm : m.current = .enrich) (hw : Lexed preview m [l]) :
    Prints preview .enrich id policy.render.toList Shape.carriesPolicy
      (Rewrites (fun w policy => ∃ l, w = [l] ∧ IsPolicy l policy) core policy) := by
  have hstays : ∀ m : ModeStack, m.current = .enrich → m.behind .policy = id m := by
    intro m hm
    rw [ModeStack.behind_eq m rfl, hm]
    rfl
  cases h with
  | plain hl hplain =>
      have hforms := (hw.head_of_kind hl (by simp)).1
      rw [hm] at hforms
      refine ((Prints.piece hforms hstays).mono fun c hc => ?_).imp ?_
      · rwa [continues_of_isWord rfl (by simp)] at hc
      · rintro w ⟨l', rfl, hl', htext⟩
        rw [String.ofList_toList] at htext
        exact ⟨_, ⟨l', rfl, .plain hl' (htext ▸ hplain)⟩, by rw [core, core, htext]⟩
  -- The qualifier is printed as its mode is spelled, however it was written.
  | @qualified qualifier name mode hl htext _ hmode =>
      have hforms := (hw.head_of_kind hl (by simp)).1
      rw [hm, htext] at hforms
      have hpolicy := (hforms.of_isWord rfl rfl (by simp)).1.length_append [] rfl
      rw [List.append_nil] at hpolicy
      obtain ⟨hne, hname⟩ := Shape.policyName_of_policy hpolicy
      have hrender : (render ⟨some mode, String.ofList name, l.token.span⟩).toList =
          mode.qualifier ++ ':' :: name := by
        simp [render, EnrichMode.qualifier]
      rw [hrender]
      refine ((Prints.piece (mode.forms_qualified hne hname) hstays).mono fun c hc => ?_).imp ?_
      · rwa [continues_of_isWord rfl (by simp)] at hc
      · rintro w ⟨l', rfl, hl', htext'⟩
        have hplain : ':' ∉ mode.qualifier := by cases mode <;> decide
        exact ⟨_, ⟨l', rfl, .qualified hl' (by rw [htext', String.toList_ofList]) hplain
          mode.qualifiedMode?_qualifier⟩, rfl⟩

/-! ### Added fields -/

/-- The tokens of an added field leave a steady mode as it is. -/
theorem Parser.IsEnrichField.stays (hsteady : m.current.isSteady = true) {w : List Lexeme}
    {field : EnrichField} (h : IsEnrichField w field) :
    ∀ l ∈ w, l.token.kind ≠ .error ∧ m.behind l.token.kind = m := by
  cases h with
  | plain h => exact h.stays hsteady
  | renamed hnew hl h =>
      refine List.forall_mem_append.mpr ⟨hnew.stays hsteady, List.forall_mem_cons.mpr ⟨?_,
        h.stays hsteady⟩⟩
      rw [hl]
      exact ⟨by simp, ModeStack.behind_of_isSteady hsteady rfl⟩

/-- An added field is written as its name, with a new one and `=` in front if it has one. -/
theorem EnrichField.prints (hm : m.current = .enrichField) {w : List Lexeme} {field : EnrichField}
    (h : IsEnrichField w field) (hw : Lexed preview m w) :
    Prints preview .enrichField id field.render.toList Shape.carriesPattern
      (Rewrites IsEnrichField core field) := by
  have hsteady : m.current.isSteady = true := by rw [hm]; rfl
  cases h with
  | plain h hplain =>
      refine (FieldPattern.prints readsPatterns_enrichField hm h hw).imp ?_
      rintro w ⟨p, hp, hcore⟩
      refine ⟨_, .plain hp (hasWildcard_of_core hcore hplain), ?_⟩
      rw [core, core, hcore]
  | renamed hnew hl h hplain hplain' =>
      have hfield := ((hw.right_of_stays (hnew.stays hsteady)).head_of_kind hl (by simp)).2
      rw [ModeStack.behind_of_isSteady hsteady rfl] at hfield
      refine (prints_assigned readsPatterns_enrichField rfl hm hnew hw.left h hfield).imp ?_
      rintro w ⟨w₁, _, rfl, ⟨new, hnew', hcore⟩, _, w₂, rfl, ⟨l', rfl, hl'⟩, p, hp, hcore'⟩
      refine ⟨_, .renamed hnew' hl' hp (hasWildcard_of_core hcore hplain)
        (hasWildcard_of_core hcore' hplain'), ?_⟩
      rw [core, core, hcore', Option.map_some, Option.map_some, hcore]

/-- The clause of the added fields, behind a blank. -/
def EnrichField.renderBehind (fields : List EnrichField) : String :=
  if fields.isEmpty then "" else " WITH " ++ Command.commas EnrichField.render fields

/-- The fields that are added are read behind `WITH`, which is read in two modes. -/
theorem prints_enrichFields {next : ModeStack → ModeStack}
    (hword : Prints preview mode next Keyword.«with».text.toList carriesAny
      (IsKind (.keyword .«with»)))
    (hnext : ∀ m : ModeStack, m.current = mode → (next m).current = .enrichField)
    (hkeeps : ∀ m : ModeStack, (next m).hasBracket = m.hasBracket)
    (hbehind : (m.behind (.keyword .«with»)).current = .enrichField) {w : List Lexeme}
    {fields : List EnrichField} (h : IsClause .«with» IsEnrichField w fields)
    (hw : Lexed preview m w) :
    PrintsBehind preview mode (EnrichField.renderBehind fields).toList
      (Rewrites (IsClause .«with» IsEnrichField) (List.map EnrichField.core) fields) := by
  cases h with
  | absent => exact .inl ⟨rfl, [], .absent, rfl⟩
  | @present l w fields hl h =>
      have hfields := (hw.head_of_kind hl (by simp)).2
      have hsteady : (m.behind (.keyword .«with»)).current.isSteady = true := by rw [hbehind]; rfl
      have hlexed := h.lexed_of_stays (by simp) (ModeStack.behind_of_isSteady hsteady rfl)
        (fun h => h.stays hsteady) hfields
      -- In the mode that `WITH` leads to the fields and commas stand one behind the other.
      have hcomma : Prints preview .enrichField id ", ".toList (fun _ => false) (IsKind .comma) :=
        prints_comma_in rfl (Mode.behind_eq rfl rfl)
      have hall := hcomma.separated (fun _ => rfl) h.ne_nil
        (fun field hfield => by
          obtain ⟨w', hfield, hw'⟩ := hlexed field hfield
          exact EnrichField.prints hbehind hfield hw')
        fun field _ rest => by cases field.render.toList ++ rest <;> rfl
      have htext : (EnrichField.renderBehind fields).toList = ' ' :: (Keyword.«with».text.toList ++
          ' ' :: (Command.commas EnrichField.render fields).toList) := by
        rw [EnrichField.renderBehind, if_neg (by simpa using h.ne_nil)]
        simp [Keyword.text]
      refine .inr ⟨_, htext, ((hword.spaced hall rfl hnext).last rfl hkeeps).imp ?_⟩
      rintro w ⟨_, w', rfl, ⟨l', rfl, hl'⟩, fields', hfields', hcores⟩
      exact ⟨fields', .present hl' hfields', hcores⟩

/-- The clause of the matched field, behind a blank. -/
def FieldPattern.renderBehind (on : Option FieldPattern) : String :=
  match on with
  | some field => " ON " ++ field.render
  | none => ""

/-- What stands behind the policy is written as `ON` and `WITH`, each of them if it is there. -/
theorem prints_enrichClauses (hm : m.current = .enrich) {w w' : List Lexeme}
    {on : Option FieldPattern} {fields : List EnrichField} (h : IsMatchField w on)
    (h' : IsClause .«with» IsEnrichField w' fields) (hw : Lexed preview m (w ++ w')) :
    PrintsBehind preview .enrich
      ((FieldPattern.renderBehind on).toList ++ (EnrichField.renderBehind fields).toList)
      (Followed (Rewrites IsMatchField (Option.map FieldPattern.core) on)
        (Rewrites (IsClause .«with» IsEnrichField) (List.map EnrichField.core) fields)) := by
  cases h with
  -- `WITH` brings in the mode of the fields here; behind `ON` that mode is there already.
  | absent =>
      have hbehind : (m.behind (.keyword .«with»)).current = .enrichField := by
        rw [ModeStack.behind_eq m rfl, hm]
        rfl
      have hfields := prints_enrichFields prints_with_enrich (fun _ _ => rfl)
        (fun _ => rfl) hbehind h' hw
      obtain ⟨hnil, hrewrites⟩ | ⟨cs, htext, hprints⟩ := hfields
      · exact .inl ⟨hnil, [], [], rfl, ⟨_, .absent, rfl⟩, hrewrites⟩
      · refine .inr ⟨cs, htext, hprints.imp fun w hrewrites => ?_⟩
        exact ⟨[], w, rfl, ⟨_, .absent, rfl⟩, hrewrites⟩
  | @present l w field hl h =>
      have hfield := (hw.head_of_kind hl (by simp)).2
      rw [ModeStack.behind_eq m rfl, hm] at hfield
      change Lexed preview (m.push .enrichField) (w ++ w') at hfield
      have hrest := hfield.right_of_stays (h.stays rfl)
      have hwith := prints_enrichFields prints_with_enrichField (fun _ h => h) (fun _ => rfl)
        (by rw [ModeStack.behind_of_isSteady rfl rfl]; rfl) h' hrest
      have hon := prints_on_enrich.spaced
        (FieldPattern.prints readsPatterns_enrichField rfl h hfield.left) rfl fun _ _ => rfl
      refine .inr ⟨_, by simp [FieldPattern.renderBehind, Keyword.text],
        (hon.tailed hwith (by decide) (fun _ _ => rfl) fun _ => rfl).imp ?_⟩
      rintro w ⟨_, w₂, rfl, ⟨_, w₁, rfl, ⟨l', rfl, hl'⟩, field', hfield', hcore⟩, hrewrites⟩
      refine ⟨l' :: w₁, w₂, rfl, ⟨_, .present hl' hfield', ?_⟩, hrewrites⟩
      rw [Option.map_some, Option.map_some, hcore]

/-- The tokens of a join leave the mode of `LOOKUP` as it is, since the word is a source there. -/
theorem Parser.IsJoin.stays (hm : m.current = .lookup) {w : List Lexeme} {join : Bool}
    (h : IsJoin w join) : ∀ l ∈ w, l.token.kind ≠ .error ∧ m.behind l.token.kind = m := by
  cases h with
  | absent => exact fun _ h => by cases h
  | present hl =>
      refine List.forall_mem_singleton.mpr ?_
      rw [hl]
      exact ⟨by simp, readsSources_lookup.behind_eq rfl m hm⟩

end PipeQuery
