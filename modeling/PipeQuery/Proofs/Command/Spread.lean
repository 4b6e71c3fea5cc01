import PipeQuery.Proofs.Command.Made
import PipeQuery.Proofs.Command.Segmented

/-!
# `PipeQuery.Proofs.Command.Spread`: pipelines are made of their lexemes

Between the commands of a pipeline there are pipes, and all that was passed over where a command was
given up. What a command took before it stopped is of no interest here, only that reading went on
further behind: `Embedding.within` puts a text at its own place, and then what carries leaves lexemes
that the text ends with. So the commands are scattered over the lexemes, one behind the other
(`wholePipeline_spreads`).
-/

set_option autoImplicit false

namespace PipeQuery.Parser

variable {c : Context} {s s' s₁ s₂ : State} {nodes nodes' : List Node} {l : Lexeme}
  {inBrackets : Bool}

/-- From `s` to `s'` the nodes were read, one behind the other, and anything may have been passed
over. -/
def Spreads (s : State) (nodes : List Node) (s' : State) : Prop :=
  ∃ w, s.rest = w ++ s'.rest ∧ (Placed w → Scattered Plain w nodes)

/-- What a step yields is spread over what it took. -/
theorem Yields.spreads (h : Yields s nodes s') : Spreads s nodes s' :=
  h.imp fun _ h => ⟨h.1.rest_eq, h.2⟩

/-- A step that only takes lexemes spreads nothing. -/
theorem Spreads.of_suffix (h : s'.rest <:+ s.rest) : Spreads s [] s' :=
  h.imp fun _ h => ⟨h.symm, fun _ => .nil⟩

/-- What two steps spread is spread over both. -/
theorem Spreads.trans (h : Spreads s nodes s₁) (h' : Spreads s₁ nodes' s') :
    Spreads s (nodes ++ nodes') s' := by
  obtain ⟨w, hrest, hnodes⟩ := h
  obtain ⟨w', hrest', hnodes'⟩ := h'
  exact ⟨w ++ w', by rw [hrest, hrest', List.append_assoc],
    fun hw => (hnodes hw.left).append (hnodes' hw.right)⟩

/-- What was spread stays spread when more lexemes are taken. -/
theorem Spreads.past (h : Spreads s nodes s₁) (h' : s'.rest <:+ s₁.rest) : Spreads s nodes s' := by
  simpa using h.trans (.of_suffix h')

/-! ### The pipeline of an `EXPLAIN` -/

/-- Commands in a row make a pipeline at the span of them. -/
theorem stretch_query {commands : List Command} {span : Span} {w : List Lexeme}
    (h : Scattered Plain w (commands.map .command)) (hw : Placed w)
    (hspan : Command.spanOf? commands = some span) : Stretch w [.query commands span] span := by
  cases commands with
  | nil => cases hspan
  | cons command commands =>
      obtain rfl : _ = span := Option.some.inj hspan
      have hstretch := h.stretch hw
      have hlast : ((commands.map Node.command).getLast?.getD (.command command)).span =
          (commands.getLast?.getD command).span := by
        rw [List.getLast?_map, Option.getD_map]
        rfl
      rw [hlast] at hstretch
      exact .wrap (.query (command :: commands) _) hstretch
        ⟨fun _ => trivial, trivial, rfl⟩

/-- What an `EXPLAIN` holds is between its brackets, or it is behind the first of them if it is
empty. -/
theorem scattered_explained (opening : Lexeme) {commands : List Command} {w : List Lexeme}
    (h : Scattered Plain w (commands.map .command)) (hw : Placed w) :
    Scattered Made (opening :: w)
      [.query commands ((Command.spanOf? commands).getD (.point opening.token.span.stop))] := by
  cases hspan : Command.spanOf? commands with
  | none =>
      obtain rfl : commands = [] := by
        cases commands with
        | nil => rfl
        | cons => cases hspan
      exact (Scattered.one Made.hollow).pad w
  | some span =>
      exact ((stretch_query h hw hspan).scattered.imp fun _ _ h => h.made).cons_lexeme opening

/-- An `EXPLAIN` is made of its verb and its brackets, with the commands of its pipeline spread
between. -/
theorem explainCommand_spreads {read : Parse (List Command)}
    (hread : ∀ {s commands s'}, read c s = (.ok commands, s') →
      Spreads s (commands.map .command) s')
    {rest : List Lexeme} {command : Command} (hrest : s.rest = l :: rest)
    (h : explainCommand read c s = (.ok command, s')) : Spreads s [.command command] s' := by
  obtain ⟨s₁, hmoves, h⟩ := verb_ok hrest h
  obtain ⟨t, s₂, hexpect, h⟩ := bind_ok.mp h
  obtain ⟨opening, -, rfl, hmoves₁⟩ := expect_ok (by simp) hexpect
  obtain ⟨commands, s₃, hcommands, h⟩ := bind_ok.mp h
  obtain ⟨w, hw, hscattered⟩ := hread hcommands
  obtain ⟨_, _, hstate, h⟩ := bind_ok.mp h
  obtain ⟨rfl, rfl⟩ : s₃ = _ ∧ s₃ = _ := by simpa [Parse.state] using hstate
  -- The closing bracket and the end of the command.
  have hclose : ∀ {s₄ : State}, s₄.rest = s₃.rest → (do
      let _ ← expect .closeBracket "']'"
      let inner := (Command.spanOf? commands).getD (.point opening.token.span.stop)
      return Command.explain commands inner (← spanFrom l.token.span)) c s₄ = (.ok command, s') →
      Spreads s [.command command] s' := by
    intro s₄ hsame h
    simp only [bind_ok, pure_ok, spanFrom_ok] at h
    obtain ⟨t, s₅, hexpect, _, _, ⟨rfl, rfl⟩, rfl, rfl⟩ := h
    obtain ⟨closing, -, -, hmoves₂⟩ := expect_ok (by simp) hexpect
    refine ⟨[l] ++ ((opening :: w) ++ [closing]), ?_, fun hplaced => .one ?_⟩
    · rw [hmoves.rest_eq, hmoves₁.rest_eq, hw, ← hsame, hmoves₂.rest_eq]
      simp
    · have hinside : Placed w := hplaced.right.left.tail
      have hchildren := (scattered_explained opening (hscattered hinside) hinside).pad [closing]
      have hlast : ([l] ++ ((opening :: w) ++ [closing])).getLast? = some closing := by
        rw [← List.append_assoc, List.getLast?_concat]
      have hspan := (Spans.single l).upTo hplaced (v := [closing]) hlast rfl
      rw [hmoves₂.prevEnd_eq]
      exact ⟨.mk hspan trivial (fun e he => by simp [Node.children, Command.children] at he) trivial
        (hchildren.cons_lexeme l) fun _ _ h => h, hspan, rfl⟩
  split at h
  · obtain ⟨s₄, hmoves₂, -, h⟩ := recordExpected_ok h
    exact hclose hmoves₂.rest_eq.symm h
  · exact hclose rfl h

/-- A command that is read is made of lexemes that are gone, if `sub` and `explained` read what
is. -/
theorem command_spreads (hend : c.endToken.kind = .eof) {sub : Nat → Parse Expr}
    (hsub : ReadsAll c sub) {explained : Parse (List Command)}
    (hexplained : ∀ {s commands s'}, explained c s = (.ok commands, s') →
      Spreads s (commands.map .command) s')
    {made : Command} (h : command sub explained c s = (.ok made, s')) :
    Spreads s [.command made] s' := by
  rw [command, bind_ok] at h
  obtain ⟨_, _, hcurrent, h⟩ := h
  obtain ⟨rfl, rfl⟩ := look_ok.mp hcurrent
  generalize hkind : (s.current c).kind = kind at h
  cases kind with
  | command verb =>
      obtain ⟨l, rest, hrest, -, -⟩ := current_eq hend hkind (by simp)
      cases verb with
      | «from» => exact (fromCommand_yields hend hrest h).spreads
      | row => exact (rowCommand_yields hend hsub hrest h).spreads
      | «show» => exact (showCommand_yields hrest h).spreads
      | explain => exact explainCommand_spreads hexplained hrest h
      | metrics => exact (metricsCommand_yields hend hsub hrest h).spreads
      | eval => exact (evalCommand_yields hend hsub hrest h).spreads
      | «where» => exact (whereCommand_yields hsub hrest h).spreads
      | stats => exact (statsCommand_yields hend hsub hrest h).spreads
      | inlineStats => exact (inlineStatsCommand_yields hend hsub hrest h).spreads
      | sort => exact (sortCommand_yields hsub hrest h).spreads
      | limit => exact (limitCommand_yields hrest h).spreads
      | keep => exact (keepCommand_yields hend hrest h).spreads
      | drop => exact (dropCommand_yields hend hrest h).spreads
      | rename => exact (renameCommand_yields hend hrest h).spreads
      | dissect => exact (dissectCommand_yields hend hsub hrest h).spreads
      | grok => exact (grokCommand_yields hend hsub hrest h).spreads
      | enrich => exact (enrichCommand_yields hend hrest h).spreads
      | mvExpand => exact (mvExpandCommand_yields hend hrest h).spreads
      | lookup => exact (lookupCommand_yields hend hrest h).spreads
      | «match» => exact (matchCommand_yields hrest h).spreads
  -- Nothing is returned where no command begins.
  | unknownCommand => exact (stop_ok.mp h).elim
  | _ => exact (unexpected_ok.mp h).elim

/-! ### Where reading goes on -/

/-- A text at its own place, which ends with the lexemes ahead. -/
def Embedding.within (r : List Lexeme) : Embedding where
  offset := 0
  behind := []
  pipe heq := endsSegment_nil heq
  traced := False
  ahead := (· <:+ r)
  ahead_tail := (List.suffix_cons _ _).trans

/-- A state stands in its own lexemes. -/
theorem Embedding.states_within (s : State) :
    (within s.rest).States s.rest.length s s where
  bound := le_refl _
  ahead := List.suffix_rfl
  rest := ⟨s.rest, (List.append_nil _).symm, List.forall₂_same.mpr fun l _ => .refl l⟩
  prevEnd := rfl
  recorded := False.elim

/-- Behind a command a stage only goes on. -/
theorem stageBehind_suffix (hend : c.endToken.kind = .eof) (made : Option Command) :
    (stageBehind inBrackets made c s).2.rest <:+ s.rest :=
  ((Embedding.states_within s).stageBehind rfl (Embedding.contexts_of_untraced id hend hend)
    made).states.ahead

/-- A stage goes on, whatever it read. -/
theorem stage_suffix (hend : c.endToken.kind = .eof) (hstart : StartsCommand inBrackets s)
    (levels headroom : Nat) :
    (stage (command (expressionAt levels) (explained headroom)) inBrackets c s).2.rest <:+
      s.rest := by
  obtain ⟨l, rest, hrest, hl⟩ := exists_lexeme rfl fun h => hstart.1 (.inl h)
  have hc : (Embedding.within s.rest).Contexts c c :=
    Embedding.contexts_of_untraced id hend hend
  have hfront : (Embedding.within s.rest).Front rest.length s s l l :=
    Embedding.front_of_untraced id rfl (hrest ▸ List.suffix_cons l rest) hrest
      (hrest.trans (by simp [Embedding.within]))
  have hpipe : l.token.kind ≠ .pipe := hl ▸ hstart.2
  have hbracket : ¬ (inBrackets = true ∧ l.token.kind = .closeBracket) :=
    fun h => hstart.1 (.inr ⟨h.1, hl ▸ h.2⟩)
  exact (hfront.stage rfl hc ((Embedding.explained_carries rfl hc headroom).2 levels) hpipe
    hbracket).states.ahead

/-! ### Pipelines -/

section

variable {levels headroom : Nat}

/-- A stage has the command that was read, or none if that was given up. -/
theorem stage_spreads (hend : c.endToken.kind = .eof)
    (hread : ∀ {s made s'}, command (expressionAt levels) (explained headroom) c s =
      (.ok made, s') → Spreads s [.command made] s')
    (hstart : StartsCommand inBrackets s) {made : Option Command}
    (h : stage (command (expressionAt levels) (explained headroom)) inBrackets c s =
      (.ok made, s')) : Spreads s (made.toList.map .command) s' := by
  have hsuffix := stage_suffix hend hstart levels headroom
  rw [h] at hsuffix
  rw [stage_apply] at h
  generalize hcommand : command (expressionAt levels) (explained headroom) c s = outcome at h
  obtain ⟨result, s₁⟩ := outcome
  cases result with
  | ok command =>
      dsimp only at h
      have hbehind : (stageBehind inBrackets (some command) c s₁).2.rest <:+ s₁.rest :=
        stageBehind_suffix hend _
      rw [h] at hbehind
      obtain rfl := stageBehind_made h
      exact (hread hcommand).past hbehind
  -- Without a command there is nothing to be found in what was skipped.
  | error d =>
      obtain ⟨u, s₂, -, h⟩ := bind_ok.mp h
      obtain ⟨u', s₃, -, h⟩ := bind_ok.mp h
      obtain rfl := stageBehind_made h
      exact .of_suffix hsuffix

/-- The commands of a pipeline are spread over it, one behind the other. -/
theorem stages_spreads (hend : c.endToken.kind = .eof)
    (hread : ∀ {s made s'}, command (expressionAt levels) (explained headroom) c s =
      (.ok made, s') → Spreads s [.command made] s') {fuel : Nat} {commands : List Command}
    (h : stages (command (expressionAt levels) (explained headroom)) inBrackets fuel c s =
      (.ok commands, s')) : Spreads s (commands.map .command) s' := by
  induction fuel generalizing s commands with
  | zero =>
      obtain ⟨rfl, rfl⟩ := pure_ok.mp h
      exact .of_suffix List.suffix_rfl
  | succ fuel ih =>
      rcases stages_succ_ok h with ⟨-, rfl, rfl⟩ | ⟨l, s₁, hmoves, -, h⟩ |
        ⟨hstart, made, s₁, rest, hstage, hrest, rfl⟩
      · exact .of_suffix List.suffix_rfl
      · -- A pipe where a command should be is passed over.
        exact hmoves.yields.spreads.trans (ih h)
      · rw [List.map_append]
        exact (stage_spreads hend hread hstart hstage).trans (ih hrest)

end

/-- The commands between the brackets of an `EXPLAIN`, with any number of levels left. -/
theorem explained_spreads (hend : c.endToken.kind = .eof) (headroom : Nat)
    {commands : List Command} (h : explained headroom c s = (.ok commands, s')) :
    Spreads s (commands.map .command) s' := by
  induction headroom generalizing s commands s' with
  | zero => simp only [explained, tooDeep, bind_ok, stop_ok, and_false, exists_false] at h
  | succ headroom ih =>
      obtain ⟨s₁, hpipeline, rfl⟩ := deeper_ok h
      rw [pipeline, bind_ok] at hpipeline
      obtain ⟨_, _, hremaining, hstages⟩ := hpipeline
      obtain ⟨-, rfl⟩ := look_ok.mp hremaining
      -- The depth is no part of what was passed over.
      have hspreads := stages_spreads hend
        (fun h => command_spreads hend (expressionAt_readsAll hend headroom) (fun h => ih h) h)
        hstages
      exact hspreads

/-- The commands of a whole text. -/
theorem wholePipeline_spreads (hend : c.endToken.kind = .eof) {maxDepth : Nat}
    {commands : List Command} (h : wholePipeline maxDepth c s = (.ok commands, s')) :
    Spreads s (commands.map .command) s' := by
  rw [wholePipeline, pipeline, bind_ok] at h
  obtain ⟨_, _, hremaining, h⟩ := h
  obtain ⟨-, rfl⟩ := look_ok.mp hremaining
  exact stages_spreads hend (fun h => command_spreads hend (expressionAt_readsAll hend maxDepth)
    (fun h => explained_spreads hend maxDepth h) h) h

end PipeQuery.Parser
