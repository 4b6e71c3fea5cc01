import PipeQuery.Proofs.Command.Extended
import PipeQuery.Proofs.Command.Relocated

/-!
# `PipeQuery.Proofs.Command.Segmented`: a pipeline goes from pipe to pipe

Whatever is wrong with a command, nothing of it reaches beyond the next pipe. The lexemes in front
of the first pipe are read as they are without those behind it (`Embedding.segment`): a reader cannot
tell the pipe from the end of the text, and where it stops, the rest is passed over up to the pipe or
the end, whatever brackets were left open. Behind the pipe the loop goes on as at the start of a
text.

An `EXPLAIN` is the exception, since its brackets hold pipes as well.
-/

set_option autoImplicit false

namespace PipeQuery.Parser

/-- Lexemes with no pipe and no end among them. -/
def IsSegment (w : List Lexeme) : Prop :=
  ∀ l ∈ w, ¬ Embedding.AtEnd l.token.kind

/-- A segment begins with no token that may end one, and a segment is behind it. -/
theorem isSegment_cons {l : Lexeme} {w : List Lexeme} :
    IsSegment (l :: w) ↔ ¬ Embedding.AtEnd l.token.kind ∧ IsSegment w :=
  List.forall_mem_cons

variable {c c' c₁ c₂ : Context} {s s' s₁ s₂ : State} {behind v w r : List Lexeme} {l pipe : Lexeme}
  {maxDepth : Nat}

/-! ### The end of a segment -/

/-- Nothing stands behind a segment or a pipe does. -/
def EndsSegment (behind : List Lexeme) : Prop :=
  ∀ ⦃l rest⦄, behind = l :: rest → l.token.kind = .pipe

/-- The end of the text ends a segment. -/
theorem endsSegment_nil : EndsSegment [] :=
  fun _ _ heq => absurd heq.symm (List.cons_ne_nil _ _)

/-- A pipe ends a segment. -/
theorem endsSegment_pipe (hpipe : pipe.token.kind = .pipe) : EndsSegment (pipe :: w) := by
  intro l rest heq
  obtain ⟨rfl, rfl⟩ := List.cons.inj heq
  exact hpipe

/-- Passing over lexemes outside of brackets ends at the next pipe or with the text. -/
theorem resumption_segment (hbehind : EndsSegment behind) (hw : IsSegment w)
    (depth prevEnd : Nat) : (resumption false depth prevEnd (w ++ behind)).1 = behind := by
  induction w generalizing depth prevEnd with
  | nil =>
      cases behind with
      | nil => rfl
      | cons l rest => rw [List.nil_append, resumption, hbehind rfl]
  | cons l w ih =>
      obtain ⟨hl, hw⟩ := isSegment_cons.mp hw
      rw [List.cons_append, resumption]
      generalize l.token.kind = kind at hl
      cases kind with
      | pipe => exact absurd (.inr rfl) hl
      | _ => exact ih hw _ _

/-- A recovery in a segment passes over the rest of it and stops at its end. -/
theorem recover_segment (hbehind : EndsSegment behind) (hw : IsSegment w)
    (hrest : s.rest = w ++ behind) :
    ∃ s₁, recover false c s = (.ok (), s₁) ∧ s₁.rest = behind :=
  ⟨_, rfl, hrest ▸ resumption_segment hbehind hw 0 s.prevEnd⟩

/-- The pipe behind a segment is taken, whatever follows it. -/
theorem stagePipe_segment (hbehind : EndsSegment behind) (hrest : s.rest = behind)
    (made : Option Command) :
    ∃ s₁, stagePipe false made c s = (.ok made, s₁) ∧ s₁.rest = behind.tail := by
  cases behind with
  | nil =>
      have hpipe : s.kindAt 0 ≠ .pipe := by
        rw [kindAt_eq, hrest, kindIn_nil]
        decide
      rw [stagePipe, bind_apply_of_ok (eat_apply_of_ne hpipe)]
      exact ⟨s, rfl, hrest⟩
  | cons l rest =>
      rw [stagePipe, bind_apply_of_ok (eat_apply hrest (hbehind rfl))]
      simp only [if_true]
      rw [bind_apply_of_ok (atPipelineEnd_apply _)]
      split
      · -- The report of a missing command takes nothing.
        obtain ⟨hok, hkeeps, -⟩ := Embedding.record_keeps
          ((expectedCause "a command after '|'" ((s.past [l]).current c)).onToken
            ((s.past [l]).current c)) c (s.past [l])
        exact ⟨_, by rw [bind_apply_of_ok rfl, bind_apply_of_ok (Prod.ext hok rfl)]; rfl,
          hkeeps.trans (past_rest (w := [l]) hrest)⟩
      · exact ⟨_, rfl, past_rest (w := [l]) hrest⟩

/-- A stage that has read its command leaves the segment and the pipe behind it. -/
theorem stageBehind_segment (hbehind : EndsSegment behind) (hw : IsSegment w)
    (hrest : s.rest = w ++ behind) (made : Option Command) :
    ∃ s₁, stageBehind false made c s = (.ok made, s₁) ∧ s₁.rest = behind.tail := by
  rw [stageBehind, bind_apply_of_ok (atPipelineEnd_apply _), bind_apply_of_ok (check_apply _)]
  split
  · obtain ⟨hok, hkeeps, -⟩ := Embedding.record_keeps
      ((expectedCause "'|'" (s.current c)).onToken (s.current c)) c s
    rw [bind_apply_of_ok rfl, bind_apply_of_ok (Prod.ext hok rfl)]
    obtain ⟨s₁, hrecover, hrest₁⟩ := recover_segment (c := c) hbehind hw (hkeeps.trans hrest)
    rw [bind_apply_of_ok hrecover]
    exact stagePipe_segment hbehind hrest₁ made
  · -- At a pipe or the end nothing is left of the segment.
    rename_i hahead
    cases w with
    | nil => exact stagePipe_segment hbehind hrest made
    | cons l w =>
        obtain ⟨hl, -⟩ := isSegment_cons.mp hw
        have hkind : s.kindAt 0 = l.token.kind := by rw [kindAt_eq, hrest]; rfl
        refine absurd ?_ hl
        simpa [EndsPipeline, hkind, Embedding.AtEnd, imp_iff_not_or] using hahead

/-- A command that was read in a segment, and what a stage does behind it. -/
theorem stage_segment_of_ok (hbehind : EndsSegment behind) {read : Parse Command}
    {command : Command} (h : read c s = (.ok command, s₁)) (hw : IsSegment w)
    (hrest : s₁.rest = w ++ behind) :
    ∃ s₂, stage read false c s = (.ok (some command), s₂) ∧ s₂.rest = behind.tail := by
  rw [stage_apply, h]
  exact stageBehind_segment hbehind hw hrest (some command)

/-- A command that stopped in a segment leaves no command. -/
theorem stage_segment_of_error (hbehind : EndsSegment behind) {read : Parse Command}
    {d : Diagnostic} (h : read c s = (.error d, s₁)) (hw : IsSegment w)
    (hrest : s₁.rest = w ++ behind) :
    ∃ s₂, stage read false c s = (.ok none, s₂) ∧ s₂.rest = behind.tail := by
  rw [stage_apply, h]
  obtain ⟨hok, hkeeps, -⟩ := Embedding.record_keeps d c s₁
  obtain ⟨s₂, hrecover, hrest₂⟩ := recover_segment (c := c) hbehind hw (hkeeps.trans hrest)
  show ∃ s₃, (record d >>= fun _ => _) c s₁ = _ ∧ _
  rw [bind_apply_of_ok (Prod.ext hok rfl), bind_apply_of_ok hrecover]
  exact stageBehind_segment (w := []) hbehind (fun _ h => absurd h List.not_mem_nil) hrest₂ none

/-! ### Readers without regard to diagnostics -/

namespace Embedding

variable {e : Embedding}

/-- Where nothing is traced the contexts need only agree in the kind of their last token. -/
theorem contexts_of_untraced (h : ¬ e.traced) (hend : c.endToken.kind = .eof)
    (hend' : c'.endToken.kind = .eof) : e.Contexts c c' :=
  ⟨hend, fun _ => ⟨hend', fun ht => absurd ht h⟩, fun _ ht => absurd ht h, fun ht => absurd ht.2 h⟩

/-- In front of the first lexeme it makes no difference what was taken before. -/
theorem front_of_untraced (h : ¬ e.traced) (hoffset : e.offset = 0) (hahead : e.ahead w)
    (hrest : s.rest = l :: w) (hrest' : s'.rest = l :: (w ++ e.behind)) :
    e.Front w.length s s' l l := by
  have hpast : (s.past [l]).rest = w := past_rest hrest
  have hmoved : ∀ l : Lexeme, l.Moved e.offset l := fun l => hoffset.symm ▸ .refl l
  refine ⟨⟨w, hrest⟩, ⟨_, hrest'⟩, (hmoved l).token, ?_, ?_, ⟨w, past_rest hrest', ?_⟩, ?_,
    fun ht => absurd ht h⟩
  · rw [hpast]
  · rwa [hpast]
  · rw [hpast]
    exact List.forall₂_same.mpr fun l _ => hmoved l
  · rw [past_prevEnd, past_prevEnd, lastStop_singleton, lastStop_singleton, hoffset]
    rfl

/-! ### A command in a segment -/

/-- A segment, alone and with `behind` behind it. -/
def segment (hbehind : EndsSegment behind) : Embedding where
  offset := 0
  behind := behind
  pipe heq := hbehind heq
  traced := False
  ahead := IsSegment
  ahead_tail h := (isSegment_cons.mp h).2

/-- What is left of a segment, alone and with `behind` behind it. -/
theorem segment_rest {hbehind : EndsSegment behind} {n : Nat}
    (hs : (segment hbehind).States n s s') :
    IsSegment s.rest ∧ ∃ w, IsSegment w ∧ s'.rest = w ++ behind := by
  obtain ⟨w, hrest', hmoved⟩ := hs.rest
  have hahead : IsSegment s.rest := hs.ahead
  refine ⟨hahead, w, ?_, hrest'⟩
  clear hrest'
  generalize s.rest = r at hmoved hahead
  induction hmoved with
  | nil => exact hahead
  | cons hl _ ih =>
      obtain ⟨hkind, hahead⟩ := isSegment_cons.mp hahead
      exact isSegment_cons.mpr ⟨hl.token.kind_eq ▸ hkind, ih hahead⟩

/-- A stage makes the same of a segment, alone and with `behind` behind it, and takes all of it and
the pipe. -/
theorem stage_segment (hbehind : EndsSegment behind) (hend : c.endToken.kind = .eof)
    (hend' : c'.endToken.kind = .eof) (hw : IsSegment (l :: w))
    (hexplain : l.token.kind ≠ .command .explain) (hrest : s.rest = l :: w)
    (hrest' : s'.rest = l :: (w ++ behind)) (levels : Nat) (explained : Parse (List Command)) :
    ∃ made s₁ s₁',
      stage (command (expressionAt levels) explained) false c s = (.ok made, s₁) ∧ s₁.rest = [] ∧
      stage (command (expressionAt levels) explained) false c' s' = (.ok made, s₁') ∧
      s₁'.rest = behind.tail := by
  have hc : (segment hbehind).Contexts c c' := contexts_of_untraced id hend hend'
  have hfront : (segment hbehind).Front w.length s s' l l :=
    front_of_untraced id rfl (isSegment_cons.mp hw).2 hrest hrest'
  have halone : ∀ {w : List Lexeme}, w = w ++ [] := (List.append_nil _).symm
  -- The two runs see the same lexemes up to the end of the segment, so no span is moved.
  have hagrees := (segment hbehind).command_agrees hc (expressionAt_carries hc levels) hfront
    (show l.token.kind = .command .explain →
      (segment hbehind).Agrees w.length (Image (Command.mapSpans (.shift 0)))
        (explainCommand explained c s)
        (explainCommand explained c' s') from fun h => absurd h hexplain)
  generalize hread : command (expressionAt levels) explained = read at hagrees ⊢
  rcases hagrees with ⟨hresults, hstates⟩ | ⟨d, d', hstop, hstop', -⟩
  · obtain ⟨hleft, w', hw', hleft'⟩ := segment_rest hstates
    generalize ho : read c s = o at hresults hleft
    generalize ho' : read c' s' = o' at hresults hleft'
    obtain ⟨result, s₁⟩ := o
    obtain ⟨result', s₁'⟩ := o'
    cases hresults with
    | @ok command _ h =>
        obtain rfl : _ = command := h.trans (Command.mapSpans_id_apply command)
        obtain ⟨s₂, hstage, hnil⟩ := stage_segment_of_ok endsSegment_nil ho hleft halone
        obtain ⟨s₂', hstage', hbehind'⟩ := stage_segment_of_ok hbehind ho' hw' hleft'
        exact ⟨_, s₂, s₂', hstage, hnil, hstage', hbehind'⟩
    | error =>
        obtain ⟨s₂, hstage, hnil⟩ := stage_segment_of_error endsSegment_nil ho hleft halone
        obtain ⟨s₂', hstage', hbehind'⟩ := stage_segment_of_error hbehind ho' hw' hleft'
        exact ⟨_, s₂, s₂', hstage, hnil, hstage', hbehind'⟩
  · -- No command begins here: both runs report at the first lexeme and skip the segment.
    obtain ⟨s₂, hstage, hnil⟩ :=
      stage_segment_of_error endsSegment_nil hstop hw (hrest.trans halone)
    obtain ⟨s₂', hstage', hbehind'⟩ := stage_segment_of_error hbehind hstop' hw hrest'
    exact ⟨_, s₂, s₂', hstage, hnil, hstage', hbehind'⟩

end Embedding

/-! ### The pipeline behind a pipe -/

/-- Lexemes at two places, with nothing behind them at either. -/
def Embedding.again : Embedding where
  offset := 0
  behind := []
  pipe heq := endsSegment_nil heq
  traced := False

/-- With enough rounds the loop reads some lexemes as a whole text, wherever it comes from. -/
theorem stages_again (hend : c.endToken.kind = .eof) (hend' : c'.endToken.kind = .eof)
    (hrest : s.rest = w) {fuel : Nat} (hfuel : w.length ≤ fuel) {commands : List Command}
    (h : wholePipeline maxDepth c' (.initial w) = (.ok commands, s')) :
    ∃ s₁, stages (command (expressionAt maxDepth) (explained maxDepth)) false fuel c s =
      (.ok commands, s₁) := by
  rw [wholePipeline, pipeline, bind_apply_of_ok remaining_apply] at h
  by_cases hends : EndsPipeline false (State.initial w)
  · have hends' : EndsPipeline false s := by
      rwa [EndsPipeline, kindAt_eq, hrest]
    rw [stages_apply_end hends] at h
    obtain ⟨rfl, -⟩ : [] = commands ∧ State.initial w = s' := by simpa using h
    exact ⟨s, stages_apply_end hends' fuel⟩
  · cases w with
    | nil => exact absurd (.inl rfl) hends
    | cons l w =>
        obtain ⟨fuel, rfl⟩ := Nat.exists_eq_add_one.mpr (Nat.zero_lt_of_lt hfuel)
        have hc : Embedding.again.Contexts c' c := Embedding.contexts_of_untraced id hend' hend
        have hread := (Embedding.explained_carries rfl hc maxDepth).2 maxDepth
        have hfront : Embedding.again.Front w.length (.initial (l :: w)) s l l :=
          Embedding.front_of_untraced id rfl trivial rfl (hrest.trans (by simp [Embedding.again]))
        -- The state differs in what came before, and no command that is read depends on that.
        have hagrees := hfront.stages rfl hc hread hends fun hs =>
          hs.stages rfl hc hread (le_refl w.length) (Nat.le_of_succ_le_succ hfuel)
        obtain ⟨_, s₁, hstages, heq, -⟩ := hagrees.of_ok h
        obtain rfl : _ = commands :=
          heq.trans (by rw [show Embedding.again.offset = 0 from rfl, Span.shift_zero]; simp)
        exact ⟨s₁, hstages⟩

/-- A pipe where a command should be is passed over. -/
theorem stages_apply_stray (read : Parse Command) (hrest : s.rest = pipe :: w)
    (hpipe : pipe.token.kind = .pipe) (fuel : Nat) :
    ∃ s₁, s₁.rest = w ∧ stages read false (fuel + 1) c s = stages read false fuel c s₁ := by
  have hkind : s.kindAt 0 = .pipe := by rw [kindAt_eq, hrest, kindIn_cons_zero, hpipe]
  have hmore : ¬ EndsPipeline false s := by
    rw [EndsPipeline, hkind]
    decide
  have hexpected : expected "a command" c s =
      (.ok ((expectedCause "a command" (s.current c)).onToken (s.current c)), s) := rfl
  obtain ⟨hok, hkeeps, -⟩ := Embedding.record_keeps
    ((expectedCause "a command" (s.current c)).onToken (s.current c)) c s
  have hrest' := hkeeps.trans hrest
  refine ⟨_, past_rest (w := [pipe]) hrest', ?_⟩
  rw [stages, bind_apply_of_ok (atPipelineEnd_apply _), decide_eq_false hmore]
  simp only [Bool.false_eq_true, if_false]
  rw [bind_apply_of_ok (check_apply _), decide_eq_true hkind]
  simp only [if_true]
  rw [bind_apply_of_ok hexpected, bind_apply_of_ok (Prod.ext hok rfl),
    bind_apply_of_ok (advance_apply hrest')]

/-- A lexeme of a segment may begin a command. -/
theorem startsCommand_of_segment (hl : ¬ Embedding.AtEnd l.token.kind) (hrest : s.rest = l :: w) :
    StartsCommand false s := by
  have hkind : s.kindAt 0 = l.token.kind := by rw [kindAt_eq, hrest, kindIn_cons_zero]
  rw [StartsCommand, EndsPipeline, hkind]
  exact ⟨fun h => h.elim (fun h => hl (.inl h)) fun h => absurd h.1 (by decide),
    fun h => hl (.inr h)⟩

/-- Alone, a segment has one stage. -/
theorem wholePipeline_alone (hl : ¬ Embedding.AtEnd l.token.kind) {commands : List Command}
    (h : wholePipeline maxDepth c (.initial (l :: v)) = (.ok commands, s₁)) {made : Option Command}
    (hstage : stage (command (expressionAt maxDepth) (explained maxDepth)) false c
      (.initial (l :: v)) = (.ok made, s)) (hnil : s.rest = []) :
    commands = made.toList := by
  have hends : EndsPipeline false s := .inl (by rw [kindAt_eq, hnil, kindIn_nil])
  have hstages := stages_apply_succ (c := c) (command (expressionAt maxDepth) (explained maxDepth))
    (startsCommand_of_segment (s := .initial (l :: v)) hl rfl) v.length
  rw [bind_apply_of_ok hstage, bind_apply_of_ok (stages_apply_end hends _), List.append_nil]
    at hstages
  rw [wholePipeline, pipeline, bind_apply_of_ok remaining_apply] at h
  obtain ⟨h, -⟩ := Prod.mk.inj (h.symm.trans hstages)
  exact Except.ok.inj h

/-- A segment gives one command or none. -/
theorem length_le_one_of_segment (hend : c.endToken.kind = .eof) (hv : IsSegment v)
    (hexplain : ∀ l ∈ v, l.token.kind ≠ .command .explain) {commands : List Command}
    (h : wholePipeline maxDepth c (.initial v) = (.ok commands, s₁)) : commands.length ≤ 1 := by
  cases v with
  | nil =>
      have hnil : wholePipeline maxDepth c (.initial []) = (.ok [], .initial []) := rfl
      obtain ⟨h, -⟩ := Prod.mk.inj (h.symm.trans hnil)
      rw [Except.ok.inj h]
      exact Nat.zero_le 1
  | cons l v =>
      have hrest : (State.initial (l :: v)).rest = l :: v := rfl
      obtain ⟨made, s, -, hstage, hnil, -⟩ := Embedding.stage_segment endsSegment_nil hend hend hv
        (hexplain l List.mem_cons_self) hrest (hrest.trans (List.append_nil _).symm) maxDepth
        (explained maxDepth)
      rw [wholePipeline_alone (isSegment_cons.mp hv).1 h hstage hnil]
      cases made with
      | none => exact Nat.zero_le 1
      | some command => exact le_refl 1

/-- The first segment of a pipeline gives what it gives alone, and so does what stands behind the
pipe. -/
theorem wholePipeline_segment (hend : c.endToken.kind = .eof) (hend₁ : c₁.endToken.kind = .eof)
    (hend₂ : c₂.endToken.kind = .eof) (hv : IsSegment v)
    (hexplain : ∀ l ∈ v, l.token.kind ≠ .command .explain) (hpipe : pipe.token.kind = .pipe)
    {commands₁ commands₂ : List Command}
    (h₁ : wholePipeline maxDepth c₁ (.initial v) = (.ok commands₁, s₁))
    (h₂ : wholePipeline maxDepth c₂ (.initial w) = (.ok commands₂, s₂)) :
    ∃ s, wholePipeline maxDepth c (.initial (v ++ pipe :: w)) =
      (.ok (commands₁ ++ commands₂), s) := by
  rw [wholePipeline, pipeline, bind_apply_of_ok remaining_apply]
  cases v with
  | nil =>
      have hnil : wholePipeline maxDepth c₁ (.initial []) = (.ok [], .initial []) := rfl
      obtain ⟨h₁, -⟩ := Prod.mk.inj (h₁.symm.trans hnil)
      -- An empty segment: its pipe is a stray one, and what is behind is read as if it were alone.
      obtain ⟨s, hrest, hstages⟩ := stages_apply_stray (c := c)
        (command (expressionAt maxDepth) (explained maxDepth))
        (s := .initial (pipe :: w)) rfl hpipe w.length
      obtain ⟨s', hagain⟩ := stages_again hend hend₂ hrest (le_refl _) h₂
      rw [Except.ok.inj h₁]
      exact ⟨s', hstages.trans hagain⟩
  | cons l v =>
      -- One command is made of the segment, alone or in front of the pipe, and then the rest is
      -- read.
      obtain ⟨made, s, s', hstage, hnil, hstage', hbehind⟩ := Embedding.stage_segment
        (endsSegment_pipe (w := w) hpipe) hend₁ hend hv (hexplain l List.mem_cons_self)
        (rfl : (State.initial (l :: v)).rest = l :: v)
        (rfl : (State.initial (l :: (v ++ pipe :: w))).rest = l :: (v ++ pipe :: w)) maxDepth
        (explained maxDepth)
      have hlength : w.length ≤ (v ++ pipe :: w).length := by
        rw [List.length_append, List.length_cons]
        omega
      obtain ⟨s'', hagain⟩ := stages_again hend hend₂ hbehind hlength h₂
      have hstages := stages_apply_succ (c := c)
        (command (expressionAt maxDepth) (explained maxDepth))
        (startsCommand_of_segment (s := .initial (l :: (v ++ pipe :: w)))
          (isSegment_cons.mp hv).1 rfl) (v ++ pipe :: w).length
      rw [bind_apply_of_ok hstage', bind_apply_of_ok hagain] at hstages
      rw [wholePipeline_alone (isSegment_cons.mp hv).1 h₁ hstage hnil]
      exact ⟨s'', hstages⟩

end PipeQuery.Parser
