import PipeQuery.Proofs.Command.Carried
import PipeQuery.Proofs.Command.Pipeline

/-!
# `PipeQuery.Proofs.Command.Relocated`: a pipeline further on in a text

A text that another one ends with has the same pipeline there, whatever is wrong with it: the
commands are the same ones, further on, and as many diagnostics are recorded. Nothing stands behind
the text, so that its end is the end of both, and a pipe is a pipe.

Every round of the loop over the commands takes a lexeme, by the verb of the command or by passing
over what cannot begin one. So it makes no difference how many rounds there are, if they are enough
(`States.stages`), nor where the parser was in front of the first command (`Front.stages`).
-/

set_option autoImplicit false

namespace PipeQuery.Parser.Embedding

variable {e : Embedding} {c c' : Context} {n m : Nat} {s s' : State} {inBrackets : Bool}

/-! ### Passing over the rest of a command -/

/-- Passing over lexemes ends at the same one further on. -/
theorem resumption_moved {k : Nat} {r r' : List Lexeme} (h : List.Forall₂ (Lexeme.Moved k) r r')
    (inBrackets : Bool) (depth prevEnd : Nat) :
    List.Forall₂ (Lexeme.Moved k) (resumption inBrackets depth prevEnd r).1
        (resumption inBrackets depth (prevEnd + k) r').1 ∧
      (resumption inBrackets depth (prevEnd + k) r').2 =
        (resumption inBrackets depth prevEnd r).2 + k ∧
      (resumption inBrackets depth prevEnd r).1 <:+ r := by
  -- For any depth, since a bracket changes it on the way.
  induction h generalizing depth prevEnd with
  | nil => exact ⟨.nil, rfl, List.suffix_rfl⟩
  | @cons l l' r r' hl hr ih =>
      have hstop : l'.token.span.stop = l.token.span.stop + k := by
        rw [hl.token.span_eq, Span.shift_stop]
      have hskip : ∀ depth,
          List.Forall₂ (Lexeme.Moved k) (resumption inBrackets depth l.token.span.stop r).1
              (resumption inBrackets depth l'.token.span.stop r').1 ∧
            (resumption inBrackets depth l'.token.span.stop r').2 =
              (resumption inBrackets depth l.token.span.stop r).2 + k ∧
            (resumption inBrackets depth l.token.span.stop r).1 <:+ l :: r := by
        intro depth
        rw [hstop]
        obtain ⟨hmoved, hend, hsuffix⟩ := ih depth l.token.span.stop
        exact ⟨hmoved, hend, hsuffix.trans (List.suffix_cons l r)⟩
      rw [resumption, resumption, hl.token.kind_eq]
      cases l.token.kind with
      | pipe => exact ⟨.cons hl hr, rfl, List.suffix_rfl⟩
      | openBracket => exact hskip (depth + 1)
      | closeBracket =>
          dsimp only
          split
          · exact ⟨.cons hl hr, rfl, List.suffix_rfl⟩
          · exact hskip (depth - 1)
      | _ => exact hskip depth

/-- A lexeme that ends nothing is passed over. -/
theorem exists_resumption_cons {kind : Token.Kind} (hpipe : kind ≠ .pipe)
    (hclose : ¬ (inBrackets = true ∧ kind = .closeBracket)) :
    ∃ depth, ∀ (l : Lexeme) (prevEnd : Nat) (r : List Lexeme), l.token.kind = kind →
      resumption inBrackets 0 prevEnd (l :: r) =
        resumption inBrackets depth l.token.span.stop r := by
  cases kind with
  | pipe => exact absurd rfl hpipe
  | openBracket => exact ⟨1, fun l prevEnd r h => by rw [resumption, h]⟩
  | closeBracket =>
      obtain rfl : inBrackets = false := by simpa using hclose
      exact ⟨0, fun l prevEnd r h => by rw [resumption, h]; rfl⟩
  | _ => exact ⟨0, fun l prevEnd r h => by rw [resumption, h]⟩

variable (hnone : e.behind = [])

include hnone

/-- Nothing stands behind the text, so the lexemes ahead are the same, and their number. -/
theorem States.moved (hs : e.States n s s') :
    List.Forall₂ (Lexeme.Moved e.offset) s.rest s'.rest := by
  obtain ⟨w, hrest', hmoved⟩ := hs.rest
  rwa [hrest', hnone, List.append_nil]

/-- Two states with moved lexemes ahead belong together as the states before them do. -/
theorem States.of_moved (hs : e.States n s s') {r r' : List Lexeme} {p p' : Nat}
    (hr : List.Forall₂ (Lexeme.Moved e.offset) r r') (hp : p' = p + e.offset)
    (hsuffix : r <:+ s.rest) :
    e.States n { s with rest := r, prevEnd := p } { s' with rest := r', prevEnd := p' } where
  bound := hsuffix.length_le.trans hs.bound
  ahead := e.ahead_of_suffix hsuffix hs.ahead
  rest := ⟨r', by rw [hnone, List.append_nil], hr⟩
  prevEnd := hp
  recorded := hs.recorded

/-- A recovery passes over as many lexemes in both parses. -/
theorem States.recover (hs : e.States n s s') :
    e.Agrees n Eq (recover inBrackets c s) (recover inBrackets c' s') := by
  obtain ⟨hmoved, hend, hsuffix⟩ := resumption_moved (hs.moved hnone) inBrackets 0 s.prevEnd
  rw [← hs.prevEnd] at hmoved hend
  exact ⟨.ok rfl, hs.of_moved hnone hmoved hend hsuffix⟩

/-- The lexeme ahead is passed over, unless it ends the command. -/
theorem Front.recover {l l' : Lexeme} (hfront : e.Front m s s' l l')
    (hpipe : l.token.kind ≠ .pipe)
    (hclose : ¬ (inBrackets = true ∧ l.token.kind = .closeBracket)) :
    e.Agrees m Eq (recover inBrackets c s) (recover inBrackets c' s') := by
  obtain ⟨r, hrest⟩ := hfront.rest
  obtain ⟨r', hrest'⟩ := hfront.rest'
  -- What is behind the lexeme does not tell where the one in front of it ended.
  obtain ⟨depth, hcons⟩ := exists_resumption_cons hpipe hclose
  obtain ⟨hmoved, hend, hsuffix⟩ := resumption_moved (hfront.past.moved hnone) inBrackets depth
    (s.past [l]).prevEnd
  rw [← hfront.past.prevEnd] at hmoved hend
  have h := hfront.past.of_moved hnone hmoved hend hsuffix
  simp only [past_prevEnd, lastStop_singleton, past_rest (w := [l]) hrest,
    past_rest (w := [l']) hrest', ← hcons l s.prevEnd r rfl,
    ← hcons l' s'.prevEnd r' hfront.moved.kind_eq, ← hrest, ← hrest'] at h
  exact ⟨.ok rfl, h⟩

omit hnone in
/-- What is recorded in front of a lexeme is recorded behind it as well. -/
theorem Front.record (hc : e.Contexts c c') {l l' : Lexeme} (hfront : e.Front m s s' l l')
    {d d' : Diagnostic} (hd : e.Diagnoses d d') :
    ∃ s₁ s₁', record d c s = (.ok (), s₁) ∧ record d' c' s' = (.ok (), s₁') ∧
      e.Front m s₁ s₁' l l' := by
  have hpast : ∀ (c : Context) (s : State) (d : Diagnostic) (l : Lexeme),
      Parser.record d c s = (.ok (), (Parser.record d c s).2) ∧
        (Parser.record d c s).2.rest = s.rest ∧
        (Parser.record d c (s.past [l])).2 = (Parser.record d c s).2.past [l] := by
    intro c s d l
    rw [Parser.record, Parser.record, past_recorded]
    split <;> exact ⟨rfl, rfl, rfl⟩
  obtain ⟨hok, hrest, hbehind⟩ := hpast c s d l
  obtain ⟨hok', hrest', hbehind'⟩ := hpast c' s' d' l'
  refine ⟨_, _, hok, hok', ?_, ?_, hfront.moved, ?_⟩
  · rw [hrest]
    exact hfront.rest
  · rw [hrest']
    exact hfront.rest'
  · rw [← hbehind, ← hbehind']
    exact (hfront.past.record hc hd).states

/-! ### Commands in a row -/

/-- Within the segment both parses have the same kind ahead. -/
theorem States.kindAt_eq (hs : e.States n s s') : s'.kindAt 0 = s.kindAt 0 := by
  have hmoved := hs.moved hnone
  rw [Parser.kindAt_eq, Parser.kindAt_eq]
  generalize s.rest = r at hmoved
  generalize s'.rest = r' at hmoved
  cases hmoved with
  | nil => rfl
  | cons hl => exact hl.token.kind_eq

/-- Both parses are at the end of the pipeline, or neither is. -/
theorem States.atPipelineEnd (hs : e.States n s s') :
    e.Agrees n Eq (atPipelineEnd inBrackets c s) (atPipelineEnd inBrackets c' s') := by
  have hends : EndsPipeline inBrackets s ↔ EndsPipeline inBrackets s' := by
    rw [EndsPipeline, EndsPipeline, hs.kindAt_eq hnone]
  rw [atPipelineEnd_apply, atPipelineEnd_apply, decide_eq_decide.mpr hends]
  exact ⟨.ok rfl, hs⟩

/-- A pipe is ahead in both parses or in neither. -/
theorem States.checkPipe (hs : e.States n s s') :
    e.Agrees n Eq (Parser.check .pipe c s) (Parser.check .pipe c' s') := by
  rw [check_apply, check_apply, hs.kindAt_eq hnone]
  exact ⟨.ok rfl, hs⟩

/-- A pipe is taken in both parses or in neither. -/
theorem States.eatPipe (hs : e.States n s s') :
    e.Agrees n Eq (Parser.eat .pipe c s) (Parser.eat .pipe c' s') := by
  by_cases hahead : s.kindAt 0 = .pipe
  · rcases hs.front_or_end with ⟨m, l, l', rfl, hfront, -⟩ | ⟨hrest, -⟩
    · obtain ⟨r, hrest⟩ := hfront.rest
      obtain ⟨r', hrest'⟩ := hfront.rest'
      have hl : l.token.kind = .pipe := hfront.kindAt_zero.1.symm.trans hahead
      rw [eat_apply hrest hl, eat_apply hrest' (hfront.moved.kind_eq.trans hl)]
      exact ⟨.ok rfl, hfront.past.mono (Nat.le_succ m)⟩
    · rw [Parser.kindAt_eq, hrest] at hahead
      cases hahead
  · rw [eat_apply_of_ne hahead, eat_apply_of_ne (by rwa [hs.kindAt_eq hnone])]
    exact ⟨.ok rfl, hs⟩

/-- A command that does not carry stops in front of the lexeme ahead. -/
def CarriesCommand (e : Embedding) (c c' : Context) (read : Parse Command) : Prop :=
  ∀ ⦃m s s' l l'⦄, e.Front m s s' l l' →
    e.Agrees m (Image (Command.mapSpans (.shift e.offset))) (read c s) (read c' s') ∨
      ∃ d d', read c s = (.error d, s) ∧ read c' s' = (.error d', s') ∧ e.Diagnoses d d'

/-- The look for a pipe behind a stage agrees, and so does what it tells when a command is missing.
-/
theorem States.stagePipe (hc : e.Contexts c c') (hs : e.States n s s') (made : Option Command) :
    e.Agrees n (Image (Option.map (Command.mapSpans (.shift e.offset))))
      (stagePipe inBrackets made c s)
      (stagePipe inBrackets (made.map (Command.mapSpans (.shift e.offset))) c' s') := by
  refine (hs.eatPipe hnone).bind ?_
  rintro piped _ s₁ s₁' rfl hs₁
  refine .ite Iff.rfl (fun _ => (hs₁.atPipelineEnd hnone).bind ?_) fun _ => hs₁.pure rfl
  rintro ended _ s₂ s₂' rfl hs₂
  refine .ite Iff.rfl (fun _ => ?_) fun _ => hs₂.pure rfl
  refine (hs₂.expected hc _).bind fun hd hs₃ => ?_
  exact (hs₃.record hc hd).bind fun _ hs₄ => hs₄.pure rfl

/-- What follows a command in its stage agrees. -/
theorem States.stageBehind (hc : e.Contexts c c') (hs : e.States n s s') (made : Option Command) :
    e.Agrees n (Image (Option.map (Command.mapSpans (.shift e.offset))))
      (stageBehind inBrackets made c s)
      (stageBehind inBrackets (made.map (Command.mapSpans (.shift e.offset))) c' s') := by
  refine (hs.atPipelineEnd hnone).bind ?_
  rintro ended _ s₁ s₁' rfl hs₁
  refine (hs₁.checkPipe hnone).bind ?_
  rintro piped _ s₂ s₂' rfl hs₂
  refine .ite Iff.rfl (fun _ => ?_) fun _ => hs₂.stagePipe hnone hc made
  refine (hs₂.expected hc _).bind fun hd hs₃ => ?_
  refine (hs₃.record hc hd).bind fun _ hs₄ => ?_
  exact (hs₄.recover hnone).bind fun _ hs₅ => hs₅.stagePipe hnone hc made

/-- A stage carries and takes a lexeme, unless a pipe or the end of the pipeline is ahead. -/
theorem Front.stage (hc : e.Contexts c c') {read : Parse Command}
    (hread : e.CarriesCommand c c' read) {l l' : Lexeme} (hfront : e.Front m s s' l l')
    (hpipe : l.token.kind ≠ .pipe)
    (hclose : ¬ (inBrackets = true ∧ l.token.kind = .closeBracket)) :
    e.Agrees m (Image (Option.map (Command.mapSpans (.shift e.offset)))) (stage read inBrackets c s)
      (stage read inBrackets c' s') := by
  rw [stage_apply, stage_apply]
  rcases hread hfront with ⟨hresults, hstates⟩ | ⟨d, d', hstop, hstop', hd⟩
  · -- Both runs took something: they go on, or recover, in related states.
    generalize read c s = o at hresults hstates
    generalize read c' s' = o' at hresults hstates
    obtain ⟨result, s₁⟩ := o
    obtain ⟨result', s₁'⟩ := o'
    cases hresults with
    | @ok command _ h =>
        obtain rfl := h
        exact hstates.stageBehind hnone hc (some command)
    | error hd =>
        refine (hstates.record hc hd).bind fun _ hs₂ => ?_
        exact (hs₂.recover hnone).bind fun _ hs₃ => hs₃.stageBehind hnone hc none
  · -- Nothing was taken, so it is passed over now.
    rw [hstop, hstop']
    obtain ⟨s₁, s₁', hrecord, hrecord', hfront₁⟩ := hfront.record hc hd
    show e.Agrees m _ ((Parser.record d >>= fun _ => _) c s)
      ((Parser.record d' >>= fun _ => _) c' s')
    rw [bind_apply_of_ok hrecord, bind_apply_of_ok hrecord']
    exact (hfront₁.recover hnone hpipe hclose).bind fun _ hs₂ => hs₂.stageBehind hnone hc none

/-- One round of the loop, which takes a lexeme at least, and then the others. -/
theorem Front.stages (hc : e.Contexts c c') {read : Parse Command}
    (hread : e.CarriesCommand c c' read) {l l' : Lexeme} (hfront : e.Front m s s' l l')
    (hmore : ¬ EndsPipeline inBrackets s)
    {fuel fuel' : Nat}
    (hrest : ∀ {s₁ s₁'}, e.States m s₁ s₁' →
      e.Agrees m (Image (List.map (Command.mapSpans (.shift e.offset))))
        (stages read inBrackets fuel c s₁)
        (stages read inBrackets fuel' c' s₁')) :
    e.Agrees m (Image (List.map (Command.mapSpans (.shift e.offset))))
      (stages read inBrackets (fuel + 1) c s)
      (stages read inBrackets (fuel' + 1) c' s') := by
  obtain ⟨hkind, hkind'⟩ := hfront.kindAt_zero
  have hmore' : ¬ EndsPipeline inBrackets s' := by
    rwa [EndsPipeline, hkind', ← hkind]
  rw [Parser.stages, Parser.stages, bind_apply_of_ok (atPipelineEnd_apply _),
    bind_apply_of_ok (atPipelineEnd_apply _), decide_eq_false hmore, decide_eq_false hmore']
  simp only [Bool.false_eq_true, if_false]
  rw [bind_apply_of_ok (check_apply _), bind_apply_of_ok (check_apply _), hkind, hkind']
  refine .ite Iff.rfl (fun hpipe => ?_) fun hpipe => ?_
  · -- A pipe where a command should be.
    have hd : e.Diagnoses ((expectedCause "a command" l.token).onToken l.token)
        ((expectedCause "a command" l'.token).onToken l'.token) :=
      fun _ _ => ⟨rfl, congrArg Span.start hfront.moved.span_eq⟩
    obtain ⟨s₁, s₁', hrecord, hrecord', hfront₁⟩ := hfront.record hc hd
    have hexpected : expected "a command" c s =
        (.ok ((expectedCause "a command" l.token).onToken l.token), s) := by
      rw [← (hfront.current c c').1]
      rfl
    have hexpected' : expected "a command" c' s' =
        (.ok ((expectedCause "a command" l'.token).onToken l'.token), s') := by
      rw [← (hfront.current c c').2]
      rfl
    rw [bind_apply_of_ok hexpected, bind_apply_of_ok hexpected', bind_apply_of_ok hrecord,
      bind_apply_of_ok hrecord']
    exact hfront₁.advance (hrest hfront₁.past)
  · -- A command and its separator: both runs read the same, and go on in related states.
    have hclose : ¬ (inBrackets = true ∧ l.token.kind = .closeBracket) :=
      fun h => hmore (.inr ⟨h.1, hkind.trans h.2⟩)
    refine (hfront.stage hnone hc hread (of_decide_eq_false (by simpa using hpipe)) hclose).bind ?_
    rintro first _ s₁ s₁' rfl hs₁
    refine (hrest hs₁).bind ?_
    rintro rest _ s₂ s₂' rfl hs₂
    refine hs₂.pure ?_
    cases first <;> rfl

/-- Any numbers of rounds that are enough. -/
theorem States.stages (hc : e.Contexts c c') {read : Parse Command}
    (hread : e.CarriesCommand c c' read) (hs : e.States n s s') {fuel fuel' : Nat}
    (hfuel : n ≤ fuel) (hfuel' : n ≤ fuel') :
    e.Agrees n (Image (List.map (Command.mapSpans (.shift e.offset))))
      (stages read inBrackets fuel c s)
      (stages read inBrackets fuel' c' s') := by
  induction hfuel, hfuel' using rounds generalizing s s' with
  | last fuel fuel' =>
      obtain ⟨hends, -⟩ := hs.kindAt_end hs.rest_eq_nil
      rw [stages_apply_end (.inl hends), stages_apply_end (.inl ((hs.kindAt_eq hnone).trans hends))]
      exact ⟨.ok rfl, hs⟩
  | round m fuel fuel' _ _ ih =>
      by_cases hends : EndsPipeline inBrackets s
      · have hends' : EndsPipeline inBrackets s' := by
          rwa [EndsPipeline, hs.kindAt_eq hnone]
        rw [stages_apply_end hends, stages_apply_end hends']
        exact ⟨.ok rfl, hs⟩
      · rcases hs.front_or_end with ⟨_, l, l', hm, hfront, -⟩ | ⟨hrest, -⟩
        · obtain rfl := Nat.succ.inj hm
          exact Agrees.weaken (hfront.stages hnone hc hread hends fun hs₁ => ih hs₁)
        · exact absurd (.inl (hs.kindAt_end hrest).1) hends

/-! ### Nested pipelines -/

/-- Commands and what an `EXPLAIN` holds carry, with any number of levels of nesting left. -/
theorem explained_carries (hc : e.Contexts c c') (headroom : Nat) :
    e.Carries c c' (Image (List.map (Command.mapSpans (.shift e.offset)))) (explained headroom) ∧
      ∀ levels, e.CarriesCommand c c' (command (expressionAt levels) (explained headroom)) := by
  have hcommand : ∀ {explained : Parse (List Command)},
      e.Carries c c' (Image (List.map (Command.mapSpans (.shift e.offset)))) explained →
      ∀ levels, e.CarriesCommand c c' (command (expressionAt levels) explained) :=
    fun hexplained levels _ _ _ _ _ hfront =>
      command_agrees hc (expressionAt_carries hc levels) hfront fun _ =>
        explainCommand_agrees hc hfront fun _ hs => hexplained hs
  -- A command holds what is one level deeper, so both go by the levels together.
  induction headroom with
  | zero =>
      have hexplained : e.Carries c c' (Image (List.map (Command.mapSpans (.shift e.offset))))
          (explained 0) :=
        fun _ _ _ hs => hs.tooDeep hc
      exact ⟨hexplained, hcommand hexplained⟩
  | succ headroom ih =>
      have hexplained : e.Carries c c' (Image (List.map (Command.mapSpans (.shift e.offset))))
          (explained (headroom + 1)) := by
        refine Carries.deeper fun _ _ _ hs => hs.onRemaining fun hs hfuel hfuel' => ?_
        exact hs.stages hnone hc (ih.2 headroom) hfuel hfuel'
      exact ⟨hexplained, hcommand hexplained⟩

end PipeQuery.Parser.Embedding
