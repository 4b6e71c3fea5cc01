import PipeQuery.Proofs.Command.Complete
import PipeQuery.Proofs.Parse
import PipeQuery.Proofs.Render.Clause

/-!
# `PipeQuery.Proofs.Render.Command`: commands are read back

What stands behind a verb is rendered as a text that is read, in the mode of the verb, as the body
of a command with the same core. There is one lemma per verb for those that name things and hold no
expressions (`Verb.isNominal`); `Command.prints` puts them together. Such a command of a text without
diagnostics is rendered as a text without diagnostics, which has the command and nothing else
(`Command.parse_render`).
-/

set_option autoImplicit false

namespace PipeQuery

open PipeQuery.Parser PipeQuery.Token

variable {preview : Bool} {m : ModeStack}

/-! ### Verbs -/

/-- A verb is read where it is known, and enters its mode. -/
theorem prints_verb (verb : Verb) (hknown : verb.isPreview = true → preview = true) :
    Prints preview .default (·.push verb.mode) verb.text.toList carriesAny
      (IsKind (.command verb)) := by
  have hofWord : Verb.ofWord? verb.text = some verb := by cases verb <;> decide
  have hkind : wordKind preview .default verb.text = .command verb := by
    have hnot : ¬ (verb.isPreview && !preview) = true := by
      cases hpreview : verb.isPreview with
      | false => simp
      | true => simp [hknown hpreview]
    rw [wordKind, hofWord]
    exact if_neg hnot
  have hword : scan .default verb.text.toList = verb.text.toList.length := by
    cases verb <;> decide
  have hne : verb.text.toList ≠ [] := by cases verb <;> decide
  have hforms : Forms preview .default (.command verb) verb.text.toList :=
    hkind ▸ forms_word hword hne
  refine ((Prints.piece hforms fun m hm => ?_).beforeBlank rfl).imp fun _ => IsToken.isKind
  rw [ModeStack.behind_eq m rfl, hm]
  rfl

/-- Behind the verb, in its mode, the text is read as the body of a command with the same core. -/
def PrintsBody (preview : Bool) (verb : Verb) (cs : List Char) (make : Span → Command) : Prop :=
  PrintsLast preview verb.mode cs fun w =>
    ∃ make', IsBody IsCommand verb w make' ∧ ∀ span span', (make' span').core = (make span).core

/-- A verb, a blank and the body of its command are written as the command. -/
theorem PrintsBody.command {verb : Verb} {cs : List Char} {make : Span → Command}
    (h : PrintsBody preview verb cs make) (hknown : verb.isPreview = true → preview = true)
    (span : Span) :
    PrintsLast preview .default (verb.text.toList ++ ' ' :: cs)
      (Rewrites IsCommand Command.core (make span)) := by
  refine ((prints_verb verb hknown).spacedLast h rfl (fun _ _ => rfl) fun _ => rfl).imp ?_
  rintro w ⟨_, w', rfl, ⟨l, rfl, hl⟩, make', hbody, hcore⟩
  exact ⟨_, .mk hl hbody fun _ _ h => h, hcore _ _⟩

/-- The verb of a command is a token in command position, and the rest is read from its mode. -/
theorem Token.Lexed.behind_verb {l : Lexeme} {w : List Lexeme} {verb : Verb}
    (h : Lexed preview m (l :: w)) (hl : l.token.kind = .command verb) (hverb : verb ≠ .«match») :
    (verb.isPreview = true → preview = true) ∧ Lexed preview (m.push verb.mode) w := by
  obtain ⟨hforms, hrest⟩ := h.head_of_kind hl (by simp)
  obtain ⟨hknown, hdefault | ⟨-, rfl⟩⟩ := hforms.of_verb
  · rw [ModeStack.behind_eq m rfl, hdefault] at hrest
    exact ⟨hknown, hrest⟩
  · exact absurd rfl hverb

/-! ### Bodies -/

/-- The body of a `FROM` is its sources, and its metadata behind them. -/
theorem printsBody_from (hm : m.current = .sources) {w w' : List Lexeme}
    {sources : List IndexPattern} {clause : Option Metadata}
    (h : SepBy .comma IsIndexPattern w sources) (h' : IsMetadata w' clause)
    (hw : Lexed preview m (w ++ w')) :
    PrintsBody preview .«from» ((Command.commas IndexPattern.render sources).toList ++
      (Metadata.renderBehind clause).toList) (.«from» sources clause) := by
  have hstays := h.stays (by simp) (readsSources_sources.behind_eq rfl m hm)
    fun h => h.stays readsSources_sources hm
  refine ((prints_indexPatterns readsSources_sources hm h hw.left).tailed
    (prints_metadata hm h' (hw.right_of_stays hstays)) (by decide) (fun _ h => h)
    fun _ => rfl).imp ?_
  rintro w ⟨w₁, w₂, rfl, ⟨sources', hsources, hcores⟩, clause', hclause, hcore⟩
  exact ⟨_, .«from» hsources hclause, fun _ _ => by rw [Command.core, Command.core, hcores, hcore]⟩

/-- The body of a `SHOW` is its word. -/
theorem printsBody_show : PrintsBody preview .«show» Keyword.info.text.toList .showInfo := by
  have hforms : Forms preview .info (.keyword .info) Keyword.info.text.toList :=
    .info (by decide) (by decide)
  have hinfo : Prints preview .info id Keyword.info.text.toList carriesAny
      (IsToken (.keyword .info) Keyword.info.text.toList) :=
    (Prints.piece hforms (Mode.behind_eq rfl rfl)).beforeBlank rfl
  refine (hinfo.last rfl fun _ => rfl).imp ?_
  rintro w ⟨l, rfl, hl, -⟩
  exact ⟨_, .showInfo hl, fun _ _ => rfl⟩

/-- The body of a `LIMIT` is its number, written in the digits it was read from. -/
theorem printsBody_limit {l : Lexeme} (hl : l.token.kind = .integer)
    (hfits : integerOf l.token < 2 ^ 64) (hw : Lexed preview m [l]) :
    PrintsBody preview .limit l.token.text.toList (.limit (integerOf l.token) l.token.text) := by
  have hforms := (hw.head_of_kind hl (by simp)).1
  rw [hforms.mode_eq_expression (.inl rfl)] at hforms
  have hnumber : Prints preview .expression id l.token.text.toList carriesAny
      (IsToken .integer l.token.text.toList) :=
    (Prints.piece hforms (Mode.behind_eq rfl rfl)).beforeBlank rfl
  refine (hnumber.last rfl fun _ => rfl).imp ?_
  rintro w ⟨l', rfl, hl', htext⟩
  rw [String.ofList_toList] at htext
  have hvalue : integerOf l'.token = integerOf l.token := by rw [integerOf, integerOf, htext]
  refine ⟨_, .limit hl' (by rw [hvalue]; exact hfits), fun _ _ => ?_⟩
  rw [Command.core, Command.core, hvalue, htext]

/-- The body of a `KEEP` is its patterns. -/
theorem printsBody_keep (hm : m.current = .project) {w : List Lexeme} {fields : List FieldPattern}
    (h : SepBy .comma IsFieldPattern w fields) (hw : Lexed preview m w) :
    PrintsBody preview .keep (Command.commas FieldPattern.render fields).toList (.keep fields) := by
  refine ((prints_fieldPatterns readsPatterns_project hm h hw).last rfl fun _ => rfl).imp ?_
  rintro w ⟨fields', hfields, hcores⟩
  exact ⟨_, .keep hfields, fun _ _ => by rw [Command.core, Command.core, hcores]⟩

/-- The body of a `DROP` is its patterns, and stars are as rare in the core as before. -/
theorem printsBody_drop (hm : m.current = .project) {w : List Lexeme} {fields : List FieldPattern}
    (h : SepBy .comma IsFieldPattern w fields) (hstar : ∀ field ∈ fields, field.isStar = false)
    (hw : Lexed preview m w) :
    PrintsBody preview .drop (Command.commas FieldPattern.render fields).toList (.drop fields) := by
  refine ((prints_fieldPatterns readsPatterns_project hm h hw).last rfl fun _ => rfl).imp ?_
  rintro w ⟨fields', hfields, hcores⟩
  have hstar' := forall_of_map_core FieldPattern.isStar_core hcores hstar
  exact ⟨_, .drop hfields hstar', fun _ _ => by rw [Command.core, Command.core, hcores]⟩

/-- The body of a `RENAME` is its clauses. -/
theorem printsBody_rename (hm : m.current = .rename) {w : List Lexeme}
    {clauses : List RenameClause} (h : SepBy .comma IsRenameClause w clauses)
    (hw : Lexed preview m w) :
    PrintsBody preview .rename (Command.commas RenameClause.render clauses).toList
      (.rename clauses) := by
  refine ((prints_renameClauses hm h hw).last rfl fun _ => rfl).imp ?_
  rintro w ⟨clauses', hclauses, hcores⟩
  exact ⟨_, .rename hclauses, fun _ _ => by rw [Command.core, Command.core, hcores]⟩

/-- The body of an `MV_EXPAND` is its name. -/
theorem printsBody_mvExpand {w : List Lexeme} {field : FieldName} (h : IsFieldName w field)
    (hw : Lexed preview m w) :
    PrintsBody preview .mvExpand field.render.toList (.mvExpand field) := by
  refine ((FieldName.prints (readsNames_mvExpand preview) h hw).last rfl fun _ => rfl).imp ?_
  rintro w ⟨field', hfield, hcore⟩
  exact ⟨_, .mvExpand hfield, fun _ _ => by rw [Command.core, Command.core, hcore]⟩

/-- The body of an `ENRICH` is its settings, its policy and the two clauses behind it. -/
theorem printsBody_enrich (hm : m.current = .enrich) {w w₁ w₂ : List Lexeme} {l : Lexeme}
    {settings : List Setting} {policy : Policy} {on : Option FieldPattern}
    {fields : List EnrichField} (hsettings : IsSettings w settings) (hpolicy : IsPolicy l policy)
    (hon : IsMatchField w₁ on) (hfields : IsClause .«with» IsEnrichField w₂ fields)
    (hw : Lexed preview m (w ++ l :: (w₁ ++ w₂))) :
    PrintsBody preview .enrich (Setting.renderFront settings ++ (policy.render.toList ++
      ((FieldPattern.renderBehind on).toList ++ (EnrichField.renderBehind fields).toList)))
      (.enrich settings policy on fields) := by
  have hpolicyKind : l.token.kind = .policy := by
    cases hpolicy with
    | plain h | qualified h => exact h
  have hstays : m.behind .policy = m := by
    rw [ModeStack.behind_eq m rfl, hm]
    rfl
  have hname : Lexed preview m ([l] ++ (w₁ ++ w₂)) := hsettings.lexed_right hm hw
  have hclauses := (hname.head_of_kind hpolicyKind (by simp)).2
  rw [hstays] at hclauses
  have hbehind := (Policy.prints hpolicy hm hname.left).tailed
    (prints_enrichClauses hm hon hfields hclauses) (by decide) (fun _ h => h) fun _ => rfl
  refine (prints_settings hsettings hm hw.left hbehind).imp ?_
  -- Settings, policy, match field and fields, as they are found in the lexemes of the text.
  rintro w ⟨w₀, _, rfl, ⟨settings', hsettings', hcoreSettings⟩, _, _, rfl,
    ⟨policy', ⟨l', rfl, hpolicy'⟩, hcore⟩, w₁, w₂, rfl, ⟨on', hon', hcoreOn⟩, fields',
    hfields', hcores⟩
  have hbody : IsBody IsCommand .enrich (w₀ ++ l' :: (w₁ ++ w₂)) _ :=
    .enrich hsettings' hpolicy' hon' hfields'
  refine ⟨_, hbody, fun _ _ => ?_⟩
  rw [Command.core, Command.core, hcoreSettings, hcore, hcoreOn, hcores]

/-- The body of a `LOOKUP` is its join, its source and its fields. -/
theorem printsBody_lookup (hm : m.current = .lookup) {j w w' : List Lexeme} {l : Lexeme}
    {table : IndexPattern} {fields : List FieldPattern} {join : Bool} (hjoin : IsJoin j join)
    (htable : IsIndexPattern w table) (hl : l.token.kind = .keyword .on)
    (h : SepBy .comma IsFieldPattern w' fields) (hw : Lexed preview m (j ++ (w ++ l :: w'))) :
    PrintsBody preview .lookup ((if join then "JOIN ".toList else []) ++ (table.render.toList ++
      ' ' :: (Keyword.on.text.toList ++
        ' ' :: (Command.commas FieldPattern.render fields).toList)))
      (.lookup table fields join) := by
  have htableLexed := hw.right_of_stays (hjoin.stays hm)
  -- `ON` brings in the mode of the match fields, so they are read back in that one.
  have hfields := ((htableLexed.right_of_stays (htable.stays readsSources_lookup hm)).head
    (by rw [hl]; simp)).2
  rw [hl, ModeStack.behind_eq m rfl, hm] at hfields
  change Lexed preview (m.push .lookupField) w' at hfields
  have htail := (IndexPattern.prints readsSources_lookup hm htable htableLexed.left).spaced
    (prints_on_lookup.spaced (prints_fieldPatterns readsPatterns_lookupField rfl h hfields) rfl
      fun _ _ => rfl) (by decide) fun _ h => h
  cases hjoin with
  -- Without `JOIN` the table is the first word behind the verb.
  | absent =>
      refine (htail.last (by decide) fun _ => rfl).imp ?_
      rintro w ⟨w₁, _, rfl, ⟨table', htable', hcore⟩, _, w₂, rfl, ⟨l', rfl, hl'⟩, fields',
        hfields', hcores⟩
      refine ⟨_, .lookup .absent htable' hl' hfields', fun _ _ => ?_⟩
      rw [Command.core, Command.core, hcore, hcores]
  | present =>
      refine ((prints_join.spaced htail rfl fun _ h => h).last (by decide) fun _ => rfl).imp ?_
      rintro w ⟨_, _, rfl, ⟨word, rfl, hkind, htext⟩, w₁, _, rfl, ⟨table', htable', hcore⟩, _, w₂,
        rfl, ⟨l', rfl, hl'⟩, fields', hfields', hcores⟩
      have hspelled : Text.sameWord word.token.text "join" = true := by
        rw [htext, String.ofList_toList]
        decide
      refine ⟨_, .lookup (.present hkind hspelled) htable' hl' hfields', fun _ _ => ?_⟩
      rw [Command.core, Command.core, hcore, hcores]

/-! ### Commands -/

/-- A command that names things is read back as one with the same core. The cases are the bodies;
what was read from the mode of the verb is rendered to be read from it again. -/
theorem Command.prints {w : List Lexeme} {command : Command} (h : IsCommand w command)
    (hnominal : command.verb.isNominal = true) (hw : Lexed preview m w) :
    PrintsLast preview .default command.render.toList (Rewrites IsCommand core command) := by
  obtain ⟨hl, hbody, -⟩ := h
  -- All verbs but `MATCH` bring in their mode, and in it the body is read back.
  have hread : ∀ {verb : Verb} {l : Lexeme} {w : List Lexeme} {cs : List Char}
      {make : Span → Command} {span : Span}, l.token.kind = .command verb → verb ≠ .«match» →
      Lexed preview m (l :: w) →
      (∀ m : ModeStack, m.current = verb.mode → Lexed preview m w →
        PrintsBody preview verb cs make) →
      (make span).render.toList = verb.text.toList ++ ' ' :: cs →
      PrintsLast preview .default (make span).render.toList
        (Rewrites IsCommand core (make span)) := by
    intro verb l w cs make span hl hverb hw hprints htext
    obtain ⟨hknown, hbody⟩ := hw.behind_verb hl hverb
    rw [htext]
    exact (hprints _ rfl hbody).command hknown span
  cases hbody with
  | «from» hsources hmetadata =>
      refine hread hl (by simp) hw (fun m hm => printsBody_from hm hsources hmetadata) ?_
      simp only [render, Metadata.renderBehind, String.toList_append]
      rfl
  | showInfo => exact hread hl (by simp) hw (fun _ _ _ => printsBody_show) (by rw [render]; decide)
  | limit hinteger hfits =>
      refine hread hl (by simp) hw (fun _ _ => printsBody_limit hinteger hfits) ?_
      simp [render, Verb.text]
  | keep h =>
      refine hread hl (by simp) hw (fun _ hm => printsBody_keep hm h) ?_
      simp [render, Verb.text]
  | drop h hstar =>
      refine hread hl (by simp) hw (fun _ hm => printsBody_drop hm h hstar) ?_
      simp [render, Verb.text]
  | rename h =>
      refine hread hl (by simp) hw (fun _ hm => printsBody_rename hm h) ?_
      simp [render, Verb.text]
  | mvExpand h =>
      refine hread hl (by simp) hw (fun _ _ => printsBody_mvExpand h) ?_
      simp [render, Verb.text]
  | @enrich _ _ _ _ settings policy on fields hsettings hpolicy hon hfields =>
      refine hread hl (by simp) hw
        (fun _ hm => printsBody_enrich hm hsettings hpolicy hon hfields) ?_
      simp only [render, String.toList_append]
      show "ENRICH".toList ++ _ ++ [' '] ++ policy.render.toList ++
        (FieldPattern.renderBehind on).toList ++ (EnrichField.renderBehind fields).toList = _
      rw [List.append_assoc "ENRICH".toList, Setting.toList_renderFront]
      simp [Verb.text]
  | lookup hjoin htable hon h =>
      refine hread hl (by simp) hw (fun _ hm => printsBody_lookup hm hjoin htable hon h) ?_
      cases hjoin <;> simp [render, Verb.text, Keyword.text]
  | _ => cases hnominal

/-- A command in a pipeline that is written by the lexemes of a text is written by some of them. The
induction is on how deep the command is held. -/
theorem Command.Occurs.isCommand {command : Command} {commands : List Command}
    (h : command.Occurs commands) {w : List Lexeme} (hall : SepBy .pipe IsCommand w commands)
    (hw : Lexed preview m w) : ∃ m' w', IsCommand w' command ∧ Lexed preview m' w' := by
  induction h generalizing w m with
  | here h => exact (hall.lexed_items (by simp) hw _ h).imp fun _ ⟨w', h, hw'⟩ => ⟨w', h, hw'⟩
  | @inside held commands inner span h _ ih =>
      obtain ⟨m₁, w₁, hexplain, hw₁⟩ := hall.lexed_items (by simp) hw _ h
      generalize hmake : Command.explain held inner span = explain at hexplain
      obtain ⟨-, hbody, hitem⟩ := hexplain
      cases hbody with
      | explain _ hheld =>
          cases hmake
          obtain ⟨m₂, hw₂⟩ := hw₁.tail
          obtain ⟨m₃, hw₃⟩ := hw₂.tail
          exact ih (hheld.imp fun w c _ => hitem w c) hw₃.left
      | _ => cases hmake

/-- Where no bracket is open, unwinding goes down to the lowest frame. -/
theorem ModeStack.unwind_of_not_hasBracket {m : ModeStack} (h : m.hasBracket = false) :
    m.unwind.above = [] := by
  rw [unwind, List.dropWhile_eq_nil_iff]
  intro frame hframe
  rw [hasBracket, List.any_eq_false] at h
  simpa using h frame hframe

/-- A command that names things, of a text without diagnostics, is rendered as a text without
diagnostics. Under the same gate this text is one command, with the same core. -/
theorem Command.parse_render {text : String} {options options' : Options} {command : Command}
    (hclean : (parse text options).diagnostics = [])
    (hoccurs : command.Occurs (parse text options).query.commands)
    (hnominal : command.verb.isNominal = true)
    (hgate : options'.devFeatures = options.devFeatures) :
    (parse command.render options').diagnostics = [] ∧
      ∃ command', (parse command.render options').query.commands = [command'] ∧
        command'.core = command.core := by
  obtain ⟨tokens, l, s, hreads, -, -, -, hall⟩ := parse_clean hclean
  -- The command was read by the grammar, and the lexer that reads its text writes it again.
  obtain ⟨m, w, hcommand, hw⟩ := hoccurs.isCommand hall (lexed_truncated_of_reads hreads)
  obtain ⟨next, hkeeps, hprints⟩ := Command.prints hcommand hnominal hw
  let start := Lexer.ofText options'.devFeatures command.render
  obtain ⟨tokens', l', hreads', hmodes, command', hcommand', hcore⟩ :=
    @Prints.reads _ _ _ _ _ _ hprints start hgate rfl rfl
  -- No bracket is left open, so the end of the text reports nothing.
  have hclosed : l'.modes.unwind.above = [] := by
    have hnone : l'.modes.hasBracket = false := by rw [hmodes, hkeeps]; rfl
    exact ModeStack.unwind_of_not_hasBracket hnone
  have hnominal' : command'.verb.isNominal = true := by
    rwa [← command'.verb_core, hcore, command.verb_core]
  have hquery : (l'.lexing tokens' []).truncated.query command.render options'.maxDepth =
      (.ok (.ofCommands [command']),
        (State.initial (Lexeme.ofTokens false (tokens'.map Token.truncated))).past
          (Lexeme.ofTokens false (tokens'.map Token.truncated))) := by
    have hopen : (!(l'.lexing tokens' []).truncated.modes.above.isEmpty) = false := by
      rw [Lexing.truncated, Lexer.lexing, hclosed]
      rfl
    rw [Lexing.query, hopen]
    exact query_apply (hcommand'.readsAs rfl _ _ hnominal') hcommand'.kindIn_zero
  have hparse := parse_eq_of_reads hreads' hquery
  rw [hparse]
  exact ⟨by simp [Diagnostic.sorted, State.initial], command', rfl, hcore⟩

/-- The qualifier of a policy is rendered in lower case, and is the same mode. -/
theorem Command.parse_render_enrich :
    ∃ command : Command,
      command.render = "ENRICH [ccq.mode:any] _remote:hosts ON `ip` WITH n = a.name, b" ∧
      (parse command.render .default).diagnostics = [] ∧
      ∃ command', (parse command.render .default).query.commands = [command'] ∧
        command'.core = command.core := by
  let text := "FROM a | enrich [ccq.mode:any]_REMOTE:hosts on `ip` with n=a.name,b"
  have hsecond : (parse text .default).query.commands[1]?.map
      (fun command => (command.render, command.verb.isNominal)) =
      some ("ENRICH [ccq.mode:any] _remote:hosts ON `ip` WITH n = a.name, b", true) := by
    decide +kernel
  obtain ⟨command, hcommand, hprops⟩ := Option.map_eq_some_iff.mp hsecond
  obtain ⟨hrender, hnominal⟩ := Prod.mk.inj hprops
  have hclean : (parse text .default).diagnostics = [] := by decide +kernel
  exact ⟨command, hrender,
    Command.parse_render hclean (.here (List.mem_of_getElem? hcommand)) hnominal rfl⟩

end PipeQuery
