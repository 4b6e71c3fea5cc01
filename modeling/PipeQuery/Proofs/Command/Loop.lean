import PipeQuery.Proofs.Parser.Loop

/-!
# `PipeQuery.Proofs.Command.Loop`: the loop over the commands of a pipeline

A command may stop without having taken anything, and what is passed over after that may be nothing
as well, in front of a pipe or of the bracket that closes an `EXPLAIN`. A round takes a lexeme
nevertheless: it begins in front of neither, or else it takes the pipe. This holds whatever reads
the commands, so long as it is steady.
-/

set_option autoImplicit false

namespace PipeQuery.Parser

variable {c : Context} {s s₁ s' : State} {inBrackets : Bool}

/-! ### Passing over the rest of a command -/

/-- A lexeme is passed over, unless reading goes on there. `depth` brackets were opened on the
way. -/
def recoverRound (inBrackets : Bool) (depth : Nat) : Parse (Nat ⊕ Unit) := do
  if (← remaining) = 0 then return .inr ()
  else
    match ← peek with
    | .pipe => return .inr ()
    | .openBracket =>
      let _ ← advance
      return .inl (depth + 1)
    | .closeBracket =>
      if inBrackets && depth = 0 then return .inr ()
      else
        let _ ← advance
        return .inl (depth - 1)
    | _ =>
      let _ ← advance
      return .inl depth

/-- Passes over what is left of a command, behind so many opened brackets. -/
def recoverBehind (inBrackets : Bool) (depth : Nat) : Parse Unit :=
  fun _ s =>
    match resumption inBrackets depth s.prevEnd s.rest with
    | (rest, prevEnd) => (.ok (), { s with rest := rest, prevEnd := prevEnd })

/-- A recovery is a loop that starts outside of all brackets. -/
theorem recover_eq (inBrackets : Bool) : recover inBrackets = recoverBehind inBrackets 0 := rfl

/-- A round in front of a lexeme stays there or takes it, as the kind says. -/
theorem recoverRound_apply (inBrackets : Bool) (depth : Nat) {l : Lexeme} {rest : List Lexeme}
    (hrest : s.rest = l :: rest) :
    recoverRound inBrackets depth c s =
      match l.token.kind with
      | .pipe => (.ok (.inr ()), s)
      | .openBracket => (.ok (.inl (depth + 1)), s.past [l])
      | .closeBracket =>
        if inBrackets && depth = 0 then (.ok (.inr ()), s)
        else (.ok (.inl (depth - 1)), s.past [l])
      | _ => (.ok (.inl depth), s.past [l]) := by
  have hpeek : peek c s = (.ok l.token.kind, s) := by
    show (Except.ok (s.kindAt 0), s) = _
    rw [kindAt_eq, hrest, kindIn_cons_zero]
  rw [recoverRound, bind_apply_of_ok remaining_apply, hrest, List.length_cons,
    if_neg (Nat.succ_ne_zero _), bind_apply_of_ok hpeek]
  -- Whatever the depth is then, the lexeme in front is passed by.
  have htake : ∀ next : Nat ⊕ Unit,
      (do let _ ← advance; return next : Parse _) c s = (.ok next, s.past [l]) :=
    fun _ => bind_apply_of_ok (advance_apply hrest)
  cases l.token.kind with
  | pipe => rfl
  | closeBracket =>
      by_cases hcloses : (inBrackets && decide (depth = 0)) = true
      · simp only [hcloses, if_true]
        rfl
      · simp only [hcloses]
        exact htake _
  | _ => exact htake _

/-- Its rounds take a lexeme each, and count the brackets. -/
theorem isLoop_recover (inBrackets : Bool) :
    IsLoop (recoverRound inBrackets) (recoverBehind inBrackets) := by
  constructor
  · -- The round by round form stops where `resumption` does, lexeme by lexeme.
    intro depth
    funext c s
    obtain ⟨rest, prevEnd, level, recorded⟩ := s
    cases rest with
    | nil => rfl
    | cons l rest =>
        rw [Parse.bind_apply, recoverRound_apply inBrackets depth rfl, recoverBehind, resumption]
        cases l.token.kind with
        | closeBracket =>
            by_cases hcloses : (inBrackets && decide (depth = 0)) = true
            · simp only [hcloses, if_true]
              rfl
            · simp only [hcloses]
              rfl
        | _ => rfl
  · -- A round that goes on passes by the lexeme in front.
    intro depth depth' c s s' h
    cases hrest : s.rest with
    | nil =>
        rw [recoverRound, bind_apply_of_ok remaining_apply, hrest] at h
        exact absurd (pure_ok.mp h).1 Sum.inr_ne_inl
    | cons l rest =>
        have htook : s.Took (s.past [l]) :=
          ⟨l, rest, hrest, past_rest (w := [l]) hrest ▸ List.suffix_refl _⟩
        rw [recoverRound_apply inBrackets depth hrest] at h
        split at h
        · simp at h
        · obtain ⟨-, rfl⟩ := Prod.mk.inj h
          exact htook
        · split at h
          · simp at h
          · obtain ⟨-, rfl⟩ := Prod.mk.inj h
            exact htook
        · obtain ⟨-, rfl⟩ := Prod.mk.inj h
          exact htook

/-! ### The commands of a pipeline -/

/-- A command of a pipeline behind others, or a pipe in front of which there is none. -/
def pipelineRound (read : Parse Command) (inBrackets : Bool) (before : List Command) :
    Parse (List Command ⊕ List Command) := do
  if ← atPipelineEnd inBrackets then return .inr before
  else if ← check .pipe then
    record (← expected "a command")
    let _ ← advance
    return .inl before
  else
    let next ← stage read inBrackets
    return .inl (before ++ next.toList)

/-- The commands of a pipeline behind others. -/
def pipelineBehind (read : Parse Command) (inBrackets : Bool) (before : List Command) :
    Parse (List Command) := do
  return before ++ (← pipeline read inBrackets)

/-- Whether a command may start is told by what is ahead. -/
theorem StartsCommand.of_rest (hstart : StartsCommand inBrackets s) (hrest : s'.rest = s.rest) :
    StartsCommand inBrackets s' := by
  rwa [StartsCommand, EndsPipeline, kindAt_eq, hrest, ← kindAt_eq]

/-- To record a diagnostic takes nothing. -/
theorem record_rest {d : Diagnostic} {u : Unit} (h : record d c s = (.ok u, s')) :
    s'.rest = s.rest := by
  have hrest := (Embedding.record_keeps d c s).2.1
  rwa [h] at hrest

/-- In front of what a command may begin with, something is passed over. -/
theorem took_recover (hstart : StartsCommand inBrackets s) {u : Unit}
    (h : recover inBrackets c s = (.ok u, s')) : s.Took s' := by
  have hrest : s.rest ≠ [] := rest_ne_nil_of_kindAt fun heof => hstart.1 (.inl heof)
  obtain ⟨l, rest, hcons⟩ := List.exists_cons_of_ne_nil hrest
  have hahead : s.kindAt 0 = l.token.kind := by rw [kindAt_eq, hcons, kindIn_cons_zero]
  have hpipe : l.token.kind ≠ .pipe := hahead ▸ hstart.2
  have hcloses : ¬ (inBrackets = true ∧ l.token.kind = .closeBracket) :=
    fun hcloses => hstart.1 (.inr (hahead ▸ hcloses))
  have hs' : s'.rest = (resumption inBrackets 0 s.prevEnd s.rest).1 := by
    obtain ⟨-, rfl⟩ := Prod.mk.inj h
    rfl
  refine ⟨l, rest, hcons, ?_⟩
  rw [hs', hcons, resumption]
  split
  case h_1 hkind => exact absurd hkind hpipe
  case h_2 => exact resumption_suffix ..
  case h_3 hkind =>
    cases inBrackets with
    | true => exact absurd ⟨rfl, hkind⟩ hcloses
    | false => exact resumption_suffix ..
  case h_4 => exact resumption_suffix ..

/-- What follows a command that took nothing passes it over. -/
theorem took_stageBehind (hstart : StartsCommand inBrackets s) {made made' : Option Command}
    (h : stageBehind inBrackets made c s = (.ok made', s')) : s.Took s' := by
  rw [stageBehind, bind_apply_of_ok (atPipelineEnd_apply _), bind_apply_of_ok (check_apply _),
    decide_eq_false hstart.1, decide_eq_false hstart.2] at h
  simp only [Bool.not_false, Bool.and_self, if_true] at h
  obtain ⟨s₁, hmoves, -, h⟩ := recordExpected_ok h
  obtain ⟨_, s₂, hrecover, h⟩ := bind_ok.mp h
  have htook := took_recover (hstart.of_rest hmoves.rest_eq.symm) hrecover
  exact hmoves.onward.took (htook.onward ((steady_stagePipe inBrackets made).onward h))

/-- A stage takes a lexeme at least, even if its command stops at once. -/
theorem took_stage {read : Parse Command} (hread : Steady read)
    (hstart : StartsCommand inBrackets s) {made : Option Command}
    (h : stage read inBrackets c s = (.ok made, s')) : s.Took s' := by
  rw [stage_apply] at h
  generalize hcommand : read c s = outcome at h
  obtain ⟨result, s₁⟩ := outcome
  have honward := hread.onward hcommand
  cases result with
  | ok command =>
      have hbehind := (steady_stageBehind inBrackets _).onward h
      -- A command that took nothing leaves its lexeme to what is behind.
      rcases honward.took_or with htook | hrest
      · exact htook.onward hbehind
      · exact honward.took (took_stageBehind (hstart.of_rest hrest) h)
  | error d =>
      obtain ⟨_, s₂, hrecord, h⟩ := bind_ok.mp h
      obtain ⟨_, s₃, hrecover, h⟩ := bind_ok.mp h
      have hrecord' := (steady_record d).onward hrecord
      have hbehind := (steady_stageBehind inBrackets _).onward h
      -- So does one that failed at once, and then it is skipped.
      rcases honward.took_or with htook | hrest
      · exact htook.onward (hrecord'.trans
          (((steady_recover inBrackets).onward hrecover).trans hbehind))
      · have hstart₂ := hstart.of_rest ((record_rest hrecord).trans hrest)
        exact (honward.trans hrecord').took ((took_recover hstart₂ hrecover).onward hbehind)

/-- A round of the pipeline is steady. -/
theorem steady_pipelineRound {read : Parse Command} (hread : Steady read) (inBrackets : Bool)
    (before : List Command) : Steady (pipelineRound read inBrackets before) :=
  Steady.bind (steady_atPipelineEnd inBrackets) fun _ => .ite (steady_pure _)
    (Steady.bind (steady_look _) fun _ => .ite
      ((steady_expected _).bind fun d => (steady_record d).bind fun _ =>
        steady_advance.bind fun _ => steady_pure _)
      ((steady_stage hread inBrackets).bind fun _ => steady_pure _))

/-- A pipeline is a loop that starts with no commands. -/
theorem pipeline_eq (read : Parse Command) (inBrackets : Bool) :
    pipeline read inBrackets = pipelineBehind read inBrackets [] := by
  simp [pipelineBehind]

/-- Its rounds take a lexeme each, since a stage that made nothing passes over something. -/
theorem isLoop_pipeline {read : Parse Command} (hread : Steady read) (inBrackets : Bool) :
    IsLoop (pipelineRound read inBrackets) (pipelineBehind read inBrackets) := by
  have hbound : pipelineBehind read inBrackets = fun before => do
      let n ← remaining
      return before ++ (← stages read inBrackets n) := by
    funext before
    rw [pipelineBehind, pipeline, bind_assoc]
  rw [hbound]
  refine isLoop_of_bounded (fun n before => do
    return before ++ (← stages read inBrackets n)) ?_ ?_ ?_
  · -- A round that goes on takes a lexeme: the stray pipe, or one in the stage.
    intro before before' c s s' h
    rw [pipelineRound, bind_apply_of_ok (atPipelineEnd_apply _)] at h
    split at h
    case isTrue => exact absurd (pure_ok.mp h).1 Sum.inr_ne_inl
    case isFalse hends =>
      rw [decide_eq_true_iff] at hends
      rw [bind_apply_of_ok (check_apply _)] at h
      split at h
      case isTrue =>
        obtain ⟨s₁, hmoves, -, h⟩ := recordExpected_ok h
        obtain ⟨t, s₂, hadvance, h⟩ := bind_ok.mp h
        obtain ⟨-, rfl⟩ := pure_ok.mp h
        have hrest : s₁.rest ≠ [] := by
          have hsame : s₁.rest = s.rest := hmoves.rest_eq.symm
          rw [hsame]
          exact rest_ne_nil_of_kindAt fun heof => hends (.inl heof)
        exact hmoves.onward.took (took_advance hrest hadvance)
      case isFalse hpipe =>
        rw [decide_eq_true_iff] at hpipe
        obtain ⟨next, s₁, hstage, h⟩ := bind_ok.mp h
        obtain ⟨-, rfl⟩ := pure_ok.mp h
        exact took_stage hread ⟨hends, hpipe⟩ hstage
  · -- Without lexemes the pipeline is at its end.
    intro before c s hrest
    have hends : EndsPipeline inBrackets s := .inl (by rw [kindAt_eq, hrest, kindIn_nil])
    refine ⟨before, ?_, ?_⟩
    · rw [pipelineRound, bind_apply_of_ok (atPipelineEnd_apply _), decide_eq_true hends]
      rfl
    · show (Except.ok (before ++ []), s) = _
      rw [List.append_nil]
  · -- A loop with fuel for one round more is that round and the loop behind it.
    intro n before
    simp only [stages, pipelineRound, bind_assoc]
    congr 1
    funext ends
    cases ends with
    | true => simp
    | false =>
        simp only [Bool.false_eq_true, if_false, bind_assoc]
        congr 1
        funext pipe
        cases pipe with
        | true => simp
        | false =>
            simp only [Bool.false_eq_true, if_false, bind_assoc, pure_bind, Sum.elim_inl,
              List.append_assoc]

/-- A pipeline is read up to its end, whatever goes wrong on the way. -/
theorem endsPipeline_of_pipeline {read : Parse Command} (hread : Steady read)
    {commands : List Command} (h : pipeline read inBrackets c s = (.ok commands, s')) :
    EndsPipeline inBrackets s' := by
  rw [pipeline_eq] at h
  refine (isLoop_pipeline hread inBrackets).ends (fun hround => ?_) h
  rw [pipelineRound, bind_apply_of_ok (atPipelineEnd_apply _)] at hround
  split at hround
  case isTrue hends =>
    obtain ⟨-, rfl⟩ := pure_ok.mp hround
    exact decide_eq_true_iff.mp hends
  case isFalse =>
    rw [bind_apply_of_ok (check_apply _)] at hround
    split at hround
    · obtain ⟨s₁, -, -, hround⟩ := recordExpected_ok hround
      obtain ⟨t, s₂, -, hround⟩ := bind_ok.mp hround
      exact absurd (pure_ok.mp hround).1 Sum.inl_ne_inr
    · obtain ⟨next, s₁, -, hround⟩ := bind_ok.mp hround
      exact absurd (pure_ok.mp hround).1 Sum.inl_ne_inr

end PipeQuery.Parser
