import PipeQuery.Proofs.Command.Extended
import PipeQuery.Proofs.Command.Relocated
import PipeQuery.Proofs.Parse

/-!
# `PipeQuery.Proofs.Piping`: piping is concatenation

A text that is read without a diagnostic can be piped into any other: what is read are the commands
of the first, as they were, and those of the second, further on. What is wrong with the result is
what is wrong with the second.

The lexer has the lexemes of both with a pipe between them (`Lexer.reads_piped`). For the parser the
first text has more behind it (`PipeQuery.Proofs.Command.Extended`) and the second stands further on
(`PipeQuery.Proofs.Command.Relocated`). Behind the pipe it is in the same state as at the start of a
text, apart from the place of the last token.

`parse_piped` has the three texts shorter than 2 ^ 32 bytes. Where they are not, the spans of the
second may be no shift of what they were.
-/

set_option autoImplicit false

namespace PipeQuery

/-! ### Lexemes at both places -/

namespace Lexeme

/-- What stands before some tokens makes a difference to the first lexeme at most. -/
theorem ofTokens_spaced (spaced spaced' : Bool) (ts : List Token) :
    ofTokens spaced ts = [] ∧ ofTokens spaced' ts = [] ∨
      ∃ t b b' rest,
        ofTokens spaced ts = ⟨t, b⟩ :: rest ∧ ofTokens spaced' ts = ⟨t, b'⟩ :: rest := by
  cases ts with
  | nil => exact .inl ⟨rfl, rfl⟩
  | cons t ts =>
      rw [ofTokens, ofTokens]
      split
      · cases h : ofTokens true ts with
        | nil => exact .inl ⟨rfl, rfl⟩
        | cons l rest => exact .inr ⟨l.token, l.spaced, l.spaced, rest, rfl, rfl⟩
      · exact .inr ⟨t, spaced, spaced', _, rfl, rfl⟩

/-- The starts of the error tokens among some lexemes. -/
def errorStarts (ls : List Lexeme) : List Nat :=
  (ls.filter fun l => l.token.kind = .error).map fun l => l.token.span.start

/-- Where error tokens start is moved with them. -/
theorem errorStarts_moved {k : Nat} {ls ls' : List Lexeme} (h : List.Forall₂ (Moved k) ls ls') :
    errorStarts ls' = (errorStarts ls).map (· + k) := by
  induction h with
  | nil => rfl
  | @cons l l' ls ls' hl _ ih =>
      rw [errorStarts] at ih ⊢
      by_cases herror : l.token.kind = .error
      · simp [hl.token.kind_eq, herror, ih, hl.token.span_eq, errorStarts]
      · simp [hl.token.kind_eq, herror, ih, errorStarts]

end Lexeme

namespace Lexer

/-- What the parser knows of error tokens is what its lexemes tell. -/
theorem context_errorStarts_eq {l l' : Lexer} {tokens : List Token} {diagnostics : List Diagnostic}
    (h : Reads l tokens diagnostics l') (text : String) (spaced : Bool) :
    ((l'.lexing tokens diagnostics).context text).errorStarts =
      Lexeme.errorStarts (Lexeme.ofTokens spaced tokens) :=
  errorStarts_of_reads h spaced

end Lexer

/-! ### The pipeline of both -/

namespace Parser

/-- A text at the start of a longer one that goes on with a pipe. -/
def Embedding.first (pipe : Lexeme) (w : List Lexeme) (h : pipe.token.kind = .pipe) :
    Embedding where
  offset := 0
  behind := pipe :: w
  pipe heq := by
    obtain ⟨rfl, rfl⟩ := List.cons.inj heq
    exact h

/-- A text at the end of a longer one. -/
def Embedding.second (k : Nat) : Embedding where
  offset := k
  behind := []
  pipe := nofun

variable {c₁ c₂ c : Context} {maxDepth k : Nat} {pipe : Lexeme} {lexemes w : List Lexeme}
  {s₁ s₂ : State} {commands₁ commands₂ : List Command}

/-- The first text up to the pipe: its commands are read, and as many rounds are left as there are
lexemes behind it. -/
theorem chain_first (hpipe : pipe.token.kind = .pipe)
    (hc : (Embedding.first pipe w hpipe).Contexts c₁ c) (herr : c₁.errorStarts = [])
    (hkinds : ∀ l ∈ lexemes, l.token.kind ≠ .eof)
    (h : wholePipeline maxDepth c₁ (.initial lexemes) = (.ok commands₁, s₁)) (hclean : s₁.IsClean)
    (hne : commands₁ ≠ []) :
    ∃ s₁' fuel, Chain (command (expressionAt maxDepth) (explained maxDepth)) false c
        (.initial (lexemes ++ pipe :: w)) commands₁ s₁' ∧
      s₁'.rest = pipe :: w ∧ s₁'.IsClean ∧
      (lexemes ++ pipe :: w).length = commands₁.length + (fuel + 1) ∧ w.length ≤ fuel := by
  have hs : (Embedding.first pipe w hpipe).States lexemes.length (.initial lexemes)
      (.initial (lexemes ++ pipe :: w)) :=
    ⟨le_refl _, trivial, ⟨lexemes, rfl, List.forall₂_same.mpr fun l _ => .refl l⟩, rfl,
      fun _ => .inl .nil⟩
  obtain ⟨hlength, s₁', hchain, hrest, hclean'⟩ :=
    wholePipeline_extend hc trivial herr hs hkinds h hclean hne
  -- The first text stays where it is, so its commands keep their spans.
  rw [show (Embedding.first pipe w hpipe).offset = 0 from rfl, Span.shift_zero,
    Command.mapSpans_id, List.map_id]
    at hchain
  have hlength : commands₁.length ≤ lexemes.length := hlength
  refine ⟨s₁', lexemes.length - commands₁.length + w.length, hchain, hrest, hclean', ?_,
    Nat.le_add_left _ _⟩
  rw [List.length_append, List.length_cons]
  omega

/-- Behind the pipe the parser reads the second text as it does at the start, further on. -/
theorem wholePipeline_piped (hpipe : pipe.token.kind = .pipe) {l l' : Lexeme} {r r' : List Lexeme}
    (hc₁ : (Embedding.first pipe (l' :: r') hpipe).Contexts c₁ c)
    (hc₂ : (Embedding.second k).Contexts c₂ c) (herr : c₁.errorStarts = [])
    (hkinds : ∀ l ∈ lexemes, l.token.kind ≠ .eof)
    (h₁ : wholePipeline maxDepth c₁ (.initial lexemes) = (.ok commands₁, s₁)) (hclean : s₁.IsClean)
    (hne : commands₁ ≠ []) (hl : l.token.Moved k l'.token)
    (hr : List.Forall₂ (Lexeme.Moved k) r r') (hkind : l.token.kind ≠ .eof)
    (h₂ : wholePipeline maxDepth c₂ (.initial (l :: r)) = (.ok commands₂, s₂)) :
    ∃ s, wholePipeline maxDepth c (.initial (lexemes ++ pipe :: l' :: r')) =
        (.ok (commands₁ ++ commands₂.map (Command.mapSpans (.shift k))), s) ∧
      (s.IsClean ↔ s₂.IsClean) := by
  obtain ⟨s₁', fuel, hchain, hrest, hclean', hlength, hfuel⟩ :=
    chain_first hpipe hc₁ herr hkinds h₁ hclean hne
  have hbehind : (s₁'.past [pipe]).rest = l' :: r' := past_rest hrest
  have hbehind' : ((s₁'.past [pipe]).past [l']).rest = r' := past_rest hbehind
  -- The same token is ahead at both places, whatever was taken before.
  have hfront : (Embedding.second k).Front r.length (.initial (l :: r)) (s₁'.past [pipe]) l l' := by
    refine ⟨⟨r, rfl⟩, ⟨r', hbehind⟩, hl, le_refl _, trivial, ⟨r', ?_, hr⟩, ?_, fun _ => .inl ?_⟩
    · rw [hbehind']
      exact (List.append_nil _).symm
    · rw [past_prevEnd, lastStop_singleton, hl.span_eq]
      rfl
    · rw [past_recorded, past_recorded, past_recorded, hclean']
      exact .nil
  have hmore : ¬ EndsPipeline false (State.initial (l :: r)) := by
    rintro (heof | ⟨hbrackets, -⟩)
    · exact hkind heof
    · cases hbrackets
  have hmore' : ¬ EndsPipeline false (s₁'.past [pipe]) := by
    rwa [EndsPipeline, hfront.kindAt_zero.2, ← hfront.kindAt_zero.1]
  have hread := (Embedding.explained_carries rfl hc₂ maxDepth).2 maxDepth
  rw [wholePipeline, pipeline, bind_apply_of_ok remaining_apply] at h₂
  have hagrees := hfront.stages rfl hc₂ hread hmore fun hs =>
    hs.stages rfl hc₂ hread (le_refl r.length) (hr.length_eq ▸ (Nat.le_succ _).trans hfuel)
  obtain ⟨_, s, hstages, rfl, hs⟩ := hagrees.of_ok h₂
  refine ⟨s, ?_, fun hclean => ?_, hs.isClean trivial⟩
  · rw [wholePipeline, pipeline, bind_apply_of_ok remaining_apply]
    show stages _ _ (lexemes ++ pipe :: l' :: r').length c _ = _
    rw [hlength]
    exact hchain.stages_apply_more hrest hpipe hmore' hstages
  · have hall := (hs.recorded trivial).resolve_right fun h => h.1 rfl
    rw [State.IsClean] at hclean
    rw [hclean] at hall
    exact List.forall₂_nil_right_iff.mp hall

/-- Without lexemes behind it the pipe is one too many. -/
theorem wholePipeline_piped_nil (hpipe : pipe.token.kind = .pipe)
    (hc : (Embedding.first pipe [] hpipe).Contexts c₁ c) (herr₁ : c₁.errorStarts = [])
    (herr : c.errorStarts = []) (hkinds : ∀ l ∈ lexemes, l.token.kind ≠ .eof)
    (h : wholePipeline maxDepth c₁ (.initial lexemes) = (.ok commands₁, s₁)) (hclean : s₁.IsClean)
    (hne : commands₁ ≠ []) :
    ∃ s, wholePipeline maxDepth c (.initial (lexemes ++ [pipe])) = (.ok commands₁, s) ∧
      ¬ s.IsClean := by
  obtain ⟨s₁', fuel, hchain, hrest, -, hlength, -⟩ :=
    chain_first hpipe hc herr₁ hkinds h hclean hne
  have hends : EndsPipeline false (s₁'.past [pipe]) :=
    .inl (by rw [kindAt_eq, past_rest (w := [pipe]) hrest, kindIn_nil])
  obtain ⟨s, hstages, -, hdirty⟩ :=
    hchain.stages_apply_missing herr hrest hpipe hends (fuel + 1)
  refine ⟨s, ?_, hdirty⟩
  rw [wholePipeline, pipeline, bind_apply_of_ok remaining_apply]
  show stages _ _ (lexemes ++ [pipe]).length c _ = _
  rwa [hlength]

/-- Any second text, whose lexemes are those of `ts`. Its first lexeme has a blank in front of it
behind the pipe. -/
theorem wholePipeline_piped_tokens (hpipe : pipe.token.kind = .pipe)
    (hc₁ : (Embedding.first pipe w hpipe).Contexts c₁ c) (hc₂ : (Embedding.second k).Contexts c₂ c)
    (herr : c₁.errorStarts = []) (hkinds : ∀ l ∈ lexemes, l.token.kind ≠ .eof)
    (h₁ : wholePipeline maxDepth c₁ (.initial lexemes) = (.ok commands₁, s₁)) (hclean : s₁.IsClean)
    (hne : commands₁ ≠ []) {ts : List Token} (hkinds₂ : ∀ t ∈ ts, t.kind ≠ .eof)
    (hstarts : c₂.errorStarts = Lexeme.errorStarts (Lexeme.ofTokens true ts))
    (hw : List.Forall₂ (Lexeme.Moved k) (Lexeme.ofTokens true ts) w)
    (h₂ : wholePipeline maxDepth c₂ (.initial (Lexeme.ofTokens false ts)) = (.ok commands₂, s₂)) :
    ∃ s, wholePipeline maxDepth c (.initial (lexemes ++ pipe :: w)) =
        (.ok (commands₁ ++ commands₂.map (Command.mapSpans (.shift k))), s) ∧
      (c₂.errorStarts = [] → (s.IsClean ↔ s₂.IsClean ∧ commands₂ ≠ [])) := by
  rcases Lexeme.ofTokens_spaced true false ts with ⟨hnil, hnil'⟩ | ⟨t, b, b', r, hcons, hcons'⟩
  · -- Nothing behind the pipe: the joined text has a pipe to spare, and is not clean.
    rw [hnil] at hw hstarts
    obtain rfl := List.forall₂_nil_left_iff.mp hw
    rw [hnil'] at h₂
    have hempty : wholePipeline maxDepth c₂ (.initial []) = (.ok [], .initial []) := rfl
    obtain ⟨rfl, rfl⟩ : [] = commands₂ ∧ State.initial [] = s₂ := by simpa [hempty] using h₂
    have hstarts' : c.errorStarts = [] := by
      rw [hc₂.errorStarts rfl trivial, hstarts]
      rfl
    obtain ⟨s, hs, hdirty⟩ :=
      wholePipeline_piped_nil hpipe hc₁ herr hstarts' hkinds h₁ hclean hne
    refine ⟨s, ?_, fun _ => ⟨fun h => absurd h hdirty, fun h => absurd rfl h.2⟩⟩
    rw [hs, List.map_nil, List.append_nil]
  · -- The first lexeme behind the pipe is spaced there and need not be alone; no command asks.
    rw [hcons] at hw
    obtain ⟨l', r', hl, hr, rfl⟩ := List.forall₂_cons_left_iff.mp hw
    have hkinds₂' : ∀ l ∈ (⟨t, b'⟩ :: r : List Lexeme), l.token.kind ≠ .eof := by
      rw [← hcons']
      exact fun l hl => hkinds₂ _ (Lexeme.mem_ofTokens hl).1
    rw [hcons'] at h₂
    have ht : t.Moved k l'.token := hl.token
    obtain ⟨s, hs, hiff⟩ := wholePipeline_piped (l := ⟨t, b'⟩) hpipe hc₁ hc₂ herr hkinds h₁ hclean
      hne ht hr (hkinds₂' _ List.mem_cons_self) h₂
    refine ⟨s, hs, fun herr₂ => hiff.trans ⟨fun hclean₂ => ⟨hclean₂, ?_⟩, fun h => h.1⟩⟩
    exact ne_nil_of_wholePipeline_clean hc₂.eof herr₂ hkinds₂' (List.cons_ne_nil _ _) h₂ hclean₂

end Parser

/-! ### Piping -/

open PipeQuery.Parser

/-- What the parser knows of a text that stands further on in another. -/
theorem Lexer.contexts_second {l l' l₂ l₂' : Lexer} {tokens tokens₂ : List Token}
    {diagnostics diagnostics₂ : List Diagnostic} (hreads : Reads l tokens diagnostics l')
    (hreads₂ : Reads l₂ tokens₂ diagnostics₂ l₂') (text text₂ : String) {k : Nat}
    {before w : List Lexeme} {pipe : Lexeme} (hpipe : pipe.token.kind = .pipe)
    (hbefore : Lexeme.errorStarts before = [])
    (hlexemes : Lexeme.ofTokens false tokens = before ++ pipe :: w)
    (hw : List.Forall₂ (Lexeme.Moved k) (Lexeme.ofTokens true tokens₂) w)
    (hend : l'.cursor.position.offset = l₂'.cursor.position.offset + k) :
    (Embedding.second k).Contexts ((l₂'.lexing tokens₂ diagnostics₂).context text₂)
      ((l'.lexing tokens diagnostics).context text) where
  eof := rfl
  endToken _ := by
    refine ⟨rfl, fun _ => ⟨rfl, rfl, ?_, rfl⟩⟩
    show (⟨l'.cursor.position.offset, l'.cursor.position.offset + 0⟩ : Span) = Span.shift k ⟨_, _⟩
    rw [hend]
    rfl
  errorStarts _ _ := by
    have hnoError : ¬ pipe.token.kind = .error := by simp [hpipe]
    -- In front of the pipe no token is an error, so all error starts are those behind it.
    have hcut : Lexeme.errorStarts (before ++ pipe :: w) = Lexeme.errorStarts w := by
      rw [Lexeme.errorStarts] at hbefore ⊢
      rw [List.filter_append, List.map_append, hbefore, List.nil_append,
        List.filter_cons_of_neg (by simpa using hnoError)]
      rfl
    rw [context_errorStarts_eq hreads text false, context_errorStarts_eq hreads₂ text₂ true,
      hlexemes, hcut, Lexeme.errorStarts_moved hw]
    rfl
  accepted h := absurd rfl h.1

/-- A text without a diagnostic that is piped into another: its commands, as they were, and then
those of the other, further on. There is no diagnostic just if there is none for the other. The text
that they make has fewer than 2 ^ 32 bytes. -/
theorem parse_piped (t₁ t₂ : String) (options : Options)
    (hshort : (t₁ ++ "\n| " ++ t₂).utf8ByteSize < 2 ^ 32)
    (h : (parse t₁ options).diagnostics = []) :
    (parse (t₁ ++ "\n| " ++ t₂) options).query.commands =
        (parse t₁ options).query.commands ++
          (parse t₂ options).query.commands.map
            (Command.mapSpans (.shift (Text.byteLength t₁.toList + 3))) ∧
      ((parse (t₁ ++ "\n| " ++ t₂) options).diagnostics = [] ↔
        (parse t₂ options).diagnostics = []) := by
  obtain ⟨k, hk⟩ : ∃ k, k = Text.byteLength t₁.toList + 3 := ⟨_, rfl⟩
  rw [← hk]
  obtain ⟨hshort₁, hshort₂⟩ : t₁.utf8ByteSize < 2 ^ 32 ∧ t₂.utf8ByteSize < 2 ^ 32 := by
    rw [String.utf8ByteSize_append, String.utf8ByteSize_append] at hshort
    omega
  obtain ⟨tokens₁, l₁, s₁, hreads₁, hclosed, hquery₁, hclean₁, -⟩ := parse_clean_of_short hshort₁ h
  obtain ⟨tokens₂, diagnostics₂, l₂, hreads₂, -⟩ := Lexer.exists_lex_eq options.devFeatures t₂
  obtain ⟨tokens, diagnostics, l, pipe, w, hreads, hpipe, hlexemes, hw, hnone, hmodes, hend⟩ :=
    Lexer.reads_piped hreads₁ hclosed hreads₂ hk
  have herr₁ := Lexer.errorStarts_of_accepted hreads₁ t₁
  have hkinds₁ : ∀ l ∈ Lexeme.ofTokens false tokens₁, l.token.kind ≠ .eof :=
    fun l hl => Lexer.kind_ne_eof_of_reads hreads₁ _ (Lexeme.mem_ofTokens hl).1
  obtain ⟨-, hne, hpipeline₁⟩ := wholePipeline_of_query_clean herr₁ hquery₁ hclean₁
  obtain ⟨commands₂, s₂, hpipeline₂⟩ := total_wholePipeline options.maxDepth
    ((l₂.lexing tokens₂ diagnostics₂).context t₂) (.initial (Lexeme.ofTokens false tokens₂))
  -- The parser over both texts.
  have hc₁ : (Embedding.first pipe w hpipe).Contexts ((l₁.lexing tokens₁ []).context t₁)
      ((l.lexing tokens diagnostics).context (t₁ ++ "\n| " ++ t₂)) :=
    ⟨rfl, fun h => (List.cons_ne_nil _ _ h).elim, fun h => (List.cons_ne_nil _ _ h).elim,
      fun _ => herr₁⟩
  have hc₂ := Lexer.contexts_second hreads hreads₂ (t₁ ++ "\n| " ++ t₂) t₂ hpipe
    ((Lexer.context_errorStarts_eq hreads₁ t₁ false).symm.trans herr₁) hlexemes hw hend
  obtain ⟨s, hpipeline, hclean⟩ := wholePipeline_piped_tokens hpipe hc₁ hc₂ herr₁ hkinds₁
    hpipeline₁ hclean₁ hne (Lexer.kind_ne_eof_of_reads hreads₂)
    (Lexer.context_errorStarts_eq hreads₂ t₂ true) hw hpipeline₂
  rw [← hlexemes] at hpipeline
  obtain ⟨s', hquery, hquery_clean⟩ := query_of_wholePipeline hpipeline (!diagnostics.isEmpty)
    (!l.modes.unwind.above.isEmpty)
  obtain ⟨s₂', hquery₂, hquery_clean₂⟩ := query_of_wholePipeline hpipeline₂ (!diagnostics₂.isEmpty)
    (!l₂.modes.unwind.above.isEmpty)
  rw [parse_eq_of_short hshort hreads hquery, parse_eq_of_short hshort₂ hreads₂ hquery₂]
  refine ⟨rfl, ?_⟩
  rw [diagnostics_eq_nil_iff, diagnostics_eq_nil_iff, hnone]
  refine and_congr_right fun hnone₂ => ?_
  obtain rfl := hnone₂
  obtain rfl := hnone.mpr rfl
  have herr₂ := Lexer.errorStarts_of_accepted hreads₂ t₂
  have hne' : (parse t₁ options).query.commands ++
      commands₂.map (Command.mapSpans (.shift k)) ≠ [] :=
    fun hnil => hne (List.append_eq_nil_iff.mp hnil).1
  rw [(hquery_clean (Lexer.errorStarts_of_accepted hreads _) rfl).1, (hquery_clean₂ herr₂ rfl).1,
    hclean herr₂, hmodes]
  exact ⟨fun ⟨⟨h₁, h₂⟩, h₃, _⟩ => ⟨h₁, h₃, h₂⟩, fun ⟨h₁, h₃, h₂⟩ => ⟨⟨h₁, h₂⟩, h₃, hne'⟩⟩

/-- A pipeline between brackets, and behind the pipe a command that stops. -/
theorem parse_piped_explain :
    ("EXPLAIN [ROW a = 1]" ++ "\n| " ++ "LIMIT x").utf8ByteSize < 2 ^ 32 ∧
      (parse "EXPLAIN [ROW a = 1]" .default).diagnostics = [] ∧
      (parse "EXPLAIN [ROW a = 1]\n| LIMIT x" .default).query.commands =
        (parse "EXPLAIN [ROW a = 1]" .default).query.commands ++
          (parse "LIMIT x" .default).query.commands.map (Command.mapSpans (.shift 22)) ∧
      ((parse "EXPLAIN [ROW a = 1]\n| LIMIT x" .default).diagnostics = [] ↔
        (parse "LIMIT x" .default).diagnostics = []) := by
  have hclean : (parse "EXPLAIN [ROW a = 1]" .default).diagnostics = [] := by decide +kernel
  exact ⟨by decide, hclean,
    parse_piped "EXPLAIN [ROW a = 1]" "LIMIT x" .default (by decide) hclean⟩

/-- Byte 2 ^ 32 of a text may lie between a verb of the second text and the last token of its
command. Then the command ends with its verb, which is not where the second text alone ends it, be
the shift in full or in 32 bits. Blanks bring `LIMIT 1` there. -/
theorem parse_piped_across :
    let t₁ := String.ofList (Text.blankLine 4294967279 ++ "LIMIT 1".toList)
    let k := Text.byteLength t₁.toList + 3
    (parse t₁ .default).diagnostics = [] ∧
      ∀ f ∈ [Span.shift k, Span.truncated ∘ Span.shift k],
        (parse (t₁ ++ "\n| " ++ "LIMIT 1") .default).query.commands ≠
          (parse t₁ .default).query.commands ++
            (parse "LIMIT 1" .default).query.commands.map (Command.mapSpans f) := by
  obtain ⟨n, hn⟩ : ∃ n, n = 4294967279 := ⟨_, rfl⟩
  rw [← hn]
  intro t₁ k
  have hk : k = 4294967290 := by
    show Text.byteLength t₁.toList + 3 = _
    rw [String.toList_ofList, Text.byteLength_append, Text.byteLength_blankLine, hn]
    rfl
  have hrun : Lexer.run ⟨false, ⟨"LIMIT 1".toList,
      Text.Position.start.after (Text.blankLine n)⟩, .bottom⟩ [] [] =
        ⟨[⟨.command .limit, "LIMIT", ⟨4294967280, 4294967285⟩, 2, 1, .default⟩,
          ⟨.whitespace, " ", ⟨4294967285, 4294967286⟩, 2, 6, .hidden⟩,
          ⟨.integer, "1", ⟨4294967286, 4294967287⟩, 2, 7, .default⟩],
          ⟨.eof, "", ⟨4294967287, 4294967287⟩, 2, 8, .default⟩, [], .bottom⟩ := by
    rw [Text.Position.after_blankLine, hn]
    decide +kernel
  have hfirst := parse_blanks .default
    ⟨[.limit 1 "1" ⟨4294967280, 4294967287⟩], ⟨4294967280, 4294967287⟩⟩
    ⟨[], 4294967287, 0, []⟩ (by simp [Text.blankLine])
    (fun _ => Text.isBlank_of_mem_blankLine) rfl hrun rfl fun _ => by rfl
  have hrunBoth : Lexer.run ⟨false, ⟨"LIMIT 1\n| LIMIT 1".toList,
      Text.Position.start.after (Text.blankLine n)⟩, .bottom⟩ [] [] =
        ⟨[⟨.command .limit, "LIMIT", ⟨4294967280, 4294967285⟩, 2, 1, .default⟩,
          ⟨.whitespace, " ", ⟨4294967285, 4294967286⟩, 2, 6, .hidden⟩,
          ⟨.integer, "1", ⟨4294967286, 4294967287⟩, 2, 7, .default⟩,
          ⟨.whitespace, "\n", ⟨4294967287, 4294967288⟩, 2, 8, .hidden⟩,
          ⟨.pipe, "|", ⟨4294967288, 4294967289⟩, 3, 1, .default⟩,
          ⟨.whitespace, " ", ⟨4294967289, 4294967290⟩, 3, 2, .hidden⟩,
          ⟨.command .limit, "LIMIT", ⟨4294967290, 4294967295⟩, 3, 3, .default⟩,
          ⟨.whitespace, " ", ⟨4294967295, 0⟩, 3, 8, .hidden⟩,
          ⟨.integer, "1", ⟨0, 1⟩, 3, 9, .default⟩],
          ⟨.eof, "", ⟨1, 1⟩, 3, 10, .default⟩, [], .bottom⟩ := by
    rw [Text.Position.after_blankLine, hn]
    decide +kernel
  have hboth := parse_blanks .default
    ⟨[.limit 1 "1" ⟨4294967280, 4294967287⟩, .limit 1 "1" ⟨4294967290, 4294967295⟩],
      ⟨4294967280, 4294967295⟩⟩
    ⟨[], 1, 0, []⟩ (by simp [Text.blankLine]) (fun _ => Text.isBlank_of_mem_blankLine) rfl
    hrunBoth rfl fun _ => by rfl
  have htext : t₁ ++ "\n| " ++ "LIMIT 1" =
      String.ofList (Text.blankLine n ++ "LIMIT 1\n| LIMIT 1".toList) := by
    rw [← String.toList_inj]
    simp [t₁]
  -- Alone, the second text has a command of seven bytes.
  have hsecond : (parse "LIMIT 1" .default).query.commands.map Command.span = [⟨0, 7⟩] := by
    decide +kernel
  refine ⟨by rw [hfirst], fun f hf heq => ?_⟩
  rw [htext, hboth, hfirst] at heq
  have hspans : [⟨4294967280, 4294967287⟩, ⟨4294967290, 4294967295⟩] =
      [⟨4294967280, 4294967287⟩] ++ [f ⟨0, 7⟩] := by
    have hmoved : ((parse "LIMIT 1" .default).query.commands.map (Command.mapSpans f)).map
        Command.span = [f ⟨0, 7⟩] := by
      rw [List.map_map, show Command.span ∘ Command.mapSpans f = f ∘ Command.span from
        funext (Command.span_mapSpans f), ← List.map_map, hsecond]
      rfl
    rw [← hmoved]
    exact congrArg (List.map Command.span) heq
  have hspan : ⟨4294967290, 4294967295⟩ = f ⟨0, 7⟩ := by simpa using hspans
  rw [hk] at hf
  rcases List.mem_pair.mp hf with rfl | rfl <;> exact absurd hspan (by decide)

end PipeQuery
