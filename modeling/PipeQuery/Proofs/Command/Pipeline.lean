import PipeQuery.Parser.Pipeline
import PipeQuery.Proofs.Command.Sound

/-!
# `PipeQuery.Proofs.Command.Pipeline`: a query that is read without a report

A pipeline always ends with a list of commands, whatever went wrong: a command that stops leaves a
diagnostic, and what is left of it is passed over. In a clean state neither of that happened, so the
lexemes taken are those of the commands with pipes between them (`stages_ok`). `EXPLAIN` reads
another pipeline, which is why `command_ok` goes by the levels of nesting that are left. For a whole
text the result is `query_clean`.
-/

set_option autoImplicit false

namespace PipeQuery.Parser

variable {α β : Type} {c : Context} {s s' : State}

/-! ### Steps that never stop -/

/-- The step has an answer in every state. -/
def Total (p : Parse α) : Prop :=
  ∀ c s, ∃ a s', p c s = (.ok a, s')

/-- A constant always succeeds. -/
theorem total_pure (a : α) : Total (pure a : Parse α) :=
  fun _ s => ⟨a, s, rfl⟩

/-- A look at the state always succeeds. -/
theorem total_look (f : Context → State → α) : Total (.look f) :=
  fun c s => ⟨f c s, s, rfl⟩

/-- To record a diagnostic always succeeds. -/
theorem total_record (d : Diagnostic) : Total (record d) := by
  intro c s
  unfold record
  split <;> exact ⟨_, _, rfl⟩

/-- To report a cause always succeeds. -/
theorem total_report (cause : Diagnostic.Cause) (span : Span) : Total (report cause span) :=
  fun c s => total_record _ c s

/-- The taking of a token always succeeds, at the end with the end token. -/
theorem total_advance : Total advance := by
  intro c s
  unfold advance
  split <;> exact ⟨_, _, rfl⟩

/-- A recovery always succeeds. -/
theorem total_recover (inBrackets : Bool) : Total (recover inBrackets) :=
  fun _ _ => ⟨_, _, rfl⟩

/-- A sequence of steps that always succeed is one. -/
theorem Total.bind {p : Parse α} {f : α → Parse β} (hp : Total p) (hf : ∀ a, Total (f a)) :
    Total (p >>= f) := by
  intro c s
  obtain ⟨a, s₁, h⟩ := hp c s
  rw [bind_apply_of_ok h]
  exact hf a c s₁

/-- A choice between steps that always succeed is one. -/
theorem Total.ite {p q : Parse α} {b : Prop} [Decidable b] (hp : Total p) (hq : Total q) :
    Total (if b then p else q) := by
  split
  · exact hp
  · exact hq

/-- To say what was expected always succeeds; it is the stop that does not. -/
theorem total_expected (what : String) : Total (expected what) :=
  (total_look _).bind fun _ => total_pure _

/-- The question for the end of a pipeline always has an answer. -/
theorem total_atPipelineEnd (inBrackets : Bool) : Total (atPipelineEnd inBrackets) :=
  (total_look _).bind fun _ => total_pure _

/-- A token that may be taken is taken or left, and either is a success. -/
theorem total_eat (kind : Token.Kind) : Total (eat kind) :=
  (total_look _).bind fun _ =>
    .ite (total_advance.bind fun _ => total_pure _) (total_pure _)

/-- The end of a stage with the command `made`: the pipe, behind which another one has to
follow. -/
def stagePipe (inBrackets : Bool) (made : Option Command) : Parse (Option Command) := do
  if ← eat .pipe then
    if ← atPipelineEnd inBrackets then
      record (← expected "a command after '|'")
  return made

/-- What a stage does behind the command `made`: only a pipe or the end of the pipeline may be
there. -/
def stageBehind (inBrackets : Bool) (made : Option Command) : Parse (Option Command) := do
  if !(← atPipelineEnd inBrackets) && !(← check .pipe) then
    record (← expected "'|'")
    recover inBrackets
  stagePipe inBrackets made

/-- A stage goes on behind its command; a command that stopped has its diagnostic recorded and is
passed over first. -/
theorem stage_apply (read : Parse Command) (inBrackets : Bool) (c : Context) (s : State) :
    stage read inBrackets c s =
      match read c s with
      | (.ok command, s₁) => stageBehind inBrackets (some command) c s₁
      | (.error d, s₁) => (do
          record d
          recover inBrackets
          stageBehind inBrackets none) c s₁ := by
  have hcaught : caught read c s = (.ok (read c s).1, (read c s).2) := rfl
  rw [stage, bind_apply_of_ok hcaught]
  obtain ⟨result, s₁⟩ := read c s
  cases result <;> rfl

/-- The look for a pipe behind a stage always succeeds. -/
theorem total_stagePipe (inBrackets : Bool) (made : Option Command) :
    Total (stagePipe inBrackets made) :=
  (total_eat _).bind fun _ => .ite
    ((total_atPipelineEnd _).bind fun _ => .ite
      ((total_expected _).bind fun _ => (total_record _).bind fun _ => total_pure _)
      (total_pure _))
    (total_pure _)

/-- What follows a command in its stage always succeeds. -/
theorem total_stageBehind (inBrackets : Bool) (made : Option Command) :
    Total (stageBehind inBrackets made) :=
  (total_atPipelineEnd _).bind fun _ => (total_look _).bind fun _ => .ite
    ((total_expected _).bind fun _ => (total_record _).bind fun _ =>
      (total_recover _).bind fun _ => total_stagePipe inBrackets made)
    (total_stagePipe inBrackets made)

/-- A stage always succeeds, whatever becomes of its command. -/
theorem total_stage (read : Parse Command) (inBrackets : Bool) : Total (stage read inBrackets) := by
  intro c s
  rw [stage_apply]
  split
  · exact total_stageBehind inBrackets _ c _
  · exact ((total_record _).bind fun _ => (total_recover _).bind fun _ =>
      total_stageBehind inBrackets none) c _

/-- The loop over stages always succeeds, so every pipeline gives a list of commands. -/
theorem total_stages (read : Parse Command) (inBrackets : Bool) (fuel : Nat) :
    Total (stages read inBrackets fuel) := by
  induction fuel with
  | zero => exact total_pure _
  | succ fuel ih =>
      exact (total_atPipelineEnd _).bind fun _ => .ite (total_pure _)
        ((total_look _).bind fun _ => .ite
          ((total_expected _).bind fun _ => (total_record _).bind fun _ =>
            total_advance.bind fun _ => ih)
          ((total_stage read inBrackets).bind fun _ => ih.bind fun _ => total_pure _))

/-! ### Pipelines in clean states -/

/-- In front of the end of a pipeline: the end of the text or, in brackets, a `]`. -/
def EndsPipeline (inBrackets : Bool) (s : State) : Prop :=
  s.kindAt 0 = .eof ∨ (inBrackets = true ∧ s.kindAt 0 = .closeBracket)

/-- The end of a pipeline can be decided, so the parser may ask for it. -/
instance (inBrackets : Bool) (s : State) : Decidable (EndsPipeline inBrackets s) :=
  inferInstanceAs (Decidable (_ ∨ _))

/-- The question for the end of a pipeline is answered by the token ahead. -/
theorem atPipelineEnd_apply (inBrackets : Bool) :
    atPipelineEnd inBrackets c s = (.ok (decide (EndsPipeline inBrackets s)), s) := by
  have hends : decide (EndsPipeline inBrackets s) = (decide (s.kindAt 0 = .eof) ||
      (inBrackets && decide (s.kindAt 0 = .closeBracket))) := by
    rw [Bool.eq_iff_iff, decide_eq_true_iff]
    simp [EndsPipeline]
  rw [hends]
  rfl

/-- What is read in a clean way takes lexemes that are in relation to the result. -/
def ReadsClean (c : Context) (R : List Lexeme → α → Prop) (p : Parse α) : Prop :=
  ∀ {s a s'}, p c s = (.ok a, s') → s'.IsClean → ∃ w, Moves s w s' ∧ R w a

/-- No lexemes and no commands, or commands with pipes between them. -/
def IsPipeline (item : List Lexeme → Command → Prop) (w : List Lexeme) (commands : List Command) :
    Prop :=
  w = [] ∧ commands = [] ∨ SepBy .pipe item w commands

/-- To say what was expected changes nothing. -/
theorem expected_ok {what : String} {d : Diagnostic} (h : expected what c s = (.ok d, s')) :
    s' = s := by
  simp only [expected, current, bind_ok, look_ok, pure_ok] at h
  obtain ⟨_, _, ⟨-, rfl⟩, -, rfl⟩ := h
  rfl

/-- A record of what was expected takes nothing, and the state behind it is not clean. -/
theorem recordExpected_ok {what : String} {k : Unit → Parse α} {a : α}
    (h : (do let u ← record (← expected what); k u) c s = (.ok a, s')) :
    ∃ s₁, Moves s [] s₁ ∧ (c.errorStarts = [] → ¬ s₁.IsClean) ∧ k () c s₁ = (.ok a, s') := by
  rw [bind_ok] at h
  obtain ⟨d, s₁, hexpected, h⟩ := h
  obtain rfl := expected_ok hexpected
  obtain ⟨u, s₂, hrecord, h⟩ := bind_ok.mp h
  exact ⟨s₂, record_moves hrecord, fun herr => (record_ok herr hrecord).2, h⟩

/-- An answer to the question for the end is right, and asking changes nothing. -/
theorem atPipelineEnd_ok {inBrackets b : Bool}
    (h : atPipelineEnd inBrackets c s = (.ok b, s')) :
    s' = s ∧ (b = true ↔ EndsPipeline inBrackets s) := by
  obtain ⟨hb, rfl⟩ := Prod.mk.inj (h.symm.trans (atPipelineEnd_apply inBrackets))
  obtain rfl := Except.ok.inj hb
  exact ⟨rfl, decide_eq_true_iff⟩

/-- Recording is not undone by passing over the rest of a command. -/
theorem recover_ok {inBrackets : Bool} {u : Unit} (h : recover inBrackets c s = (.ok u, s')) :
    s'.recorded = s.recorded := by
  simp only [recover] at h
  obtain ⟨-, rfl⟩ := Prod.mk.inj h
  rfl

/-- A stage keeps its command when it goes on behind it. -/
theorem stagePipe_made {inBrackets : Bool} {made made' : Option Command}
    (h : stagePipe inBrackets made c s = (.ok made', s')) : made' = made := by
  rw [stagePipe, bind_ok] at h
  obtain ⟨_, s₁, -, h⟩ := h
  split at h
  · rw [bind_ok] at h
    obtain ⟨_, s₂, -, h⟩ := h
    split at h
    · obtain ⟨s₃, -, -, h⟩ := recordExpected_ok h
      exact (pure_ok.mp h).1.symm
    · exact (pure_ok.mp h).1.symm
  · exact (pure_ok.mp h).1.symm

/-- What follows a command in its stage does not change what the stage made. -/
theorem stageBehind_made {inBrackets : Bool} {made made' : Option Command}
    (h : stageBehind inBrackets made c s = (.ok made', s')) : made' = made := by
  rw [stageBehind, bind_ok] at h
  obtain ⟨_, s₁, -, h⟩ := h
  rw [bind_ok] at h
  obtain ⟨_, s₂, -, h⟩ := h
  split at h
  · obtain ⟨s₃, -, -, h⟩ := recordExpected_ok h
    obtain ⟨u, s₄, -, h⟩ := bind_ok.mp h
    exact stagePipe_made h
  · exact stagePipe_made h

/-- The pipe behind a command, if there is one. In a clean state a command follows it. -/
theorem stagePipe_ok (herr : c.errorStarts = []) {inBrackets : Bool} {r r' : Option Command}
    (h : stagePipe inBrackets r c s = (.ok r', s')) (hclean : s'.IsClean) :
    s.kindAt 0 ≠ .pipe ∧ s' = s ∨
      ∃ l, l.token.kind = .pipe ∧ Moves s [l] s' ∧ ¬ EndsPipeline inBrackets s' := by
  rw [stagePipe, bind_ok] at h
  obtain ⟨b, s₁, heat, h⟩ := h
  rcases eat_ok (by simp) heat with ⟨rfl, l, hl, hmoves⟩ | ⟨rfl, hnot, rfl⟩
  · simp only [if_true] at h
    rw [bind_ok] at h
    obtain ⟨b, s₂, hend, h⟩ := h
    obtain ⟨rfl, hends⟩ := atPipelineEnd_ok hend
    cases b with
    | true =>
        simp only [if_true] at h
        obtain ⟨s₃, -, hdirty, h⟩ := recordExpected_ok h
        obtain ⟨-, rfl⟩ := pure_ok.mp h
        exact absurd hclean (hdirty herr)
    | false =>
        obtain ⟨rfl, rfl⟩ := pure_ok.mp h
        exact .inr ⟨l, hl, hmoves, fun hends' => by simpa using hends.mpr hends'⟩
  · obtain ⟨rfl, rfl⟩ := pure_ok.mp h
    exact .inl ⟨hnot, rfl⟩

/-- In a clean state a command stands at the end of the pipeline or in front of a pipe. -/
theorem stageBehind_ok (herr : c.errorStarts = []) {inBrackets : Bool} {r r' : Option Command}
    (h : stageBehind inBrackets r c s = (.ok r', s')) (hclean : s'.IsClean) :
    s.IsClean ∧ (EndsPipeline inBrackets s ∧ s' = s ∨
      ∃ l, l.token.kind = .pipe ∧ Moves s [l] s' ∧ ¬ EndsPipeline inBrackets s') := by
  rw [stageBehind, bind_ok] at h
  obtain ⟨b, s₁, hend, h⟩ := h
  obtain ⟨rfl, hends⟩ := atPipelineEnd_ok hend
  rw [bind_ok] at h
  obtain ⟨b', s₂, hcheck, h⟩ := h
  obtain ⟨rfl, rfl⟩ := check_ok.mp hcheck
  split at h
  case isTrue =>
    obtain ⟨s₃, -, hdirty, h⟩ := recordExpected_ok h
    obtain ⟨u, s₄, hrecover, h⟩ := bind_ok.mp h
    -- Something else than a pipe was ahead and was reported, which stays in the state.
    have hpipe := stagePipe_ok herr h hclean
    have hclean₄ : s₄.IsClean := by
      rcases hpipe with ⟨-, rfl⟩ | ⟨l, -, hmoves, -⟩
      · exact hclean
      · exact hmoves.isClean hclean
    exact absurd ((recover_ok hrecover).symm.trans hclean₄) (hdirty herr)
  case isFalse hnot =>
    rcases stagePipe_ok herr h hclean with ⟨hahead, rfl⟩ | ⟨l, hl, hmoves, hmore⟩
    · exact ⟨hclean, .inl ⟨hends.mp (by simpa [hahead] using hnot), rfl⟩⟩
    · exact ⟨hmoves.isClean hclean, .inr ⟨l, hl, hmoves, hmore⟩⟩

/-- In a clean state a stage is a command, at the end of the pipeline or behind a pipe. -/
theorem stage_ok (herr : c.errorStarts = []) {read : Parse Command} {inBrackets : Bool}
    {r : Option Command} (h : stage read inBrackets c s = (.ok r, s')) (hclean : s'.IsClean) :
    ∃ command s₁, r = some command ∧ read c s = (.ok command, s₁) ∧
      (EndsPipeline inBrackets s₁ ∧ s' = s₁ ∨
        ∃ l, l.token.kind = .pipe ∧ Moves s₁ [l] s' ∧ ¬ EndsPipeline inBrackets s') := by
  rw [stage_apply] at h
  generalize hread : read c s = outcome at h
  obtain ⟨result, s₁⟩ := outcome
  cases result with
  | ok command =>
      obtain ⟨-, hbehind⟩ := stageBehind_ok herr h hclean
      exact ⟨command, s₁, stageBehind_made h, rfl, hbehind⟩
  | error d =>
      obtain ⟨u, s₂, hrecord, h⟩ := bind_ok.mp h
      obtain ⟨u', s₃, hrecover, h⟩ := bind_ok.mp h
      obtain ⟨hclean₃, -⟩ := stageBehind_ok herr h hclean
      exact absurd ((recover_ok hrecover).symm.trans hclean₃) (record_ok herr hrecord).2

/-- At the end of the pipeline there are no more stages. -/
theorem stages_apply_end {read : Parse Command} {inBrackets : Bool}
    (hends : EndsPipeline inBrackets s) (fuel : Nat) :
    stages read inBrackets fuel c s = (.ok [], s) := by
  cases fuel with
  | zero => rfl
  | succ fuel =>
      rw [stages, bind_apply_of_ok (atPipelineEnd_apply _), decide_eq_true hends]
      rfl

/-- In front of what a command may begin with. -/
def StartsCommand (inBrackets : Bool) (s : State) : Prop :=
  ¬ EndsPipeline inBrackets s ∧ s.kindAt 0 ≠ .pipe

/-- One round of the stages: the pipeline ends, or there is a pipe where a command should be, which
is recorded and taken, or a stage is read. -/
theorem stages_succ_ok {read : Parse Command} {inBrackets : Bool} {fuel : Nat}
    {commands : List Command} (h : stages read inBrackets (fuel + 1) c s = (.ok commands, s')) :
    EndsPipeline inBrackets s ∧ commands = [] ∧ s' = s ∨
      (∃ l s₁, Moves s [l] s₁ ∧ (c.errorStarts = [] → ¬ s₁.IsClean) ∧
        stages read inBrackets fuel c s₁ = (.ok commands, s')) ∨
      StartsCommand inBrackets s ∧ ∃ made s₁ rest, stage read inBrackets c s = (.ok made, s₁) ∧
        stages read inBrackets fuel c s₁ = (.ok rest, s') ∧ commands = made.toList ++ rest := by
  rw [stages, bind_ok] at h
  obtain ⟨b, s₁, hend, h⟩ := h
  obtain ⟨rfl, hends⟩ := atPipelineEnd_ok hend
  cases b with
  | true =>
      obtain ⟨rfl, rfl⟩ := pure_ok.mp h
      exact .inl ⟨hends.mp rfl, rfl, rfl⟩
  | false =>
      simp only [Bool.false_eq_true, if_false] at h
      rw [bind_ok] at h
      obtain ⟨b, s₂, hcheck, h⟩ := h
      obtain ⟨rfl, rfl⟩ := check_ok.mp hcheck
      split at h
      case isTrue hpipe =>
        obtain ⟨l, rest, hrest, -⟩ := exists_lexeme (of_decide_eq_true hpipe) (by simp)
        obtain ⟨s₂, hmoves, hdirty, h⟩ := recordExpected_ok h
        obtain ⟨t, s₃, hadvance, h⟩ := bind_ok.mp h
        have hmoves' := (advance_ok (hmoves.rest_eq.symm.trans hrest) hadvance).2
        exact .inr (.inl ⟨l, s₃, hmoves.trans hmoves',
          fun herr hclean => hdirty herr (hmoves'.isClean hclean), h⟩)
      case isFalse hpipe =>
        obtain ⟨made, s₂, hstage, h⟩ := bind_ok.mp h
        obtain ⟨rest, s₃, hrest, h⟩ := bind_ok.mp h
        obtain ⟨rfl, rfl⟩ := pure_ok.mp h
        exact .inr (.inr ⟨⟨fun h => Bool.false_ne_true (hends.mpr h), by simpa using hpipe⟩,
          made, s₂, rest, hstage, hrest, rfl⟩)

/-- In front of stages that end in a clean state the state is clean. -/
theorem stages_isClean (herr : c.errorStarts = []) {R : List Lexeme → Command → Prop}
    {read : Parse Command} (hread : ReadsClean c R read) {inBrackets : Bool} {fuel : Nat}
    {commands : List Command} (h : stages read inBrackets fuel c s = (.ok commands, s'))
    (hclean : s'.IsClean) : s.IsClean := by
  induction fuel generalizing s commands with
  | zero =>
      obtain ⟨-, rfl⟩ := pure_ok.mp h
      exact hclean
  | succ fuel ih =>
      rcases stages_succ_ok h with ⟨-, -, rfl⟩ | ⟨l, s₁, -, hdirty, h⟩ |
        ⟨-, made, s₁, rest, hstage, hrest, -⟩
      · exact hclean
      · -- A pipe without a command is recorded, and no clean state is behind that.
        exact absurd (ih h) (hdirty herr)
      · obtain ⟨command, s₂, -, hcommand, hbehind⟩ := stage_ok herr hstage (ih hrest)
        have hclean₂ : s₂.IsClean := by
          rcases hbehind with ⟨-, rfl⟩ | ⟨l, -, hmoves, -⟩
          · exact ih hrest
          · exact hmoves.isClean (ih hrest)
        obtain ⟨w, hmoves, -⟩ := hread hcommand hclean₂
        exact hmoves.isClean hclean₂

/-- Commands that are read one behind the other, with pipes between them. -/
inductive Chain (read : Parse Command) (inBrackets : Bool) (c : Context) :
    State → List Command → State → Prop where
  | one {s s' : State} {command : Command} (hstart : StartsCommand inBrackets s)
    (h : read c s = (.ok command, s')) : Chain read inBrackets c s [command] s'
  | more {s s₁ s' : State} {l : Lexeme} {rest : List Lexeme} {command : Command}
    {commands : List Command} (hstart : StartsCommand inBrackets s)
    (h : read c s = (.ok command, s₁)) (hrest : s₁.rest = l :: rest) (hl : l.token.kind = .pipe)
    (hbehind : Chain read inBrackets c (s₁.past [l]) commands s') :
    Chain read inBrackets c s (command :: commands) s'

/-- Where a chain of stages begins, a command may start. -/
theorem Chain.startsCommand {read : Parse Command} {inBrackets : Bool} {commands : List Command}
    (h : Chain read inBrackets c s commands s') : StartsCommand inBrackets s := by
  cases h <;> assumption

/-- In a clean state the stages are a chain of commands up to the end of the pipeline, unless they
begin there. -/
theorem chain_of_stages (herr : c.errorStarts = []) {R : List Lexeme → Command → Prop}
    {read : Parse Command} (hread : ReadsClean c R read) {inBrackets : Bool} {fuel : Nat}
    (hfuel : s.rest.length ≤ fuel) {commands : List Command}
    (h : stages read inBrackets fuel c s = (.ok commands, s')) (hclean : s'.IsClean) :
    EndsPipeline inBrackets s' ∧
      (commands = [] ∧ s' = s ∨ Chain read inBrackets c s commands s') := by
  induction fuel generalizing s commands with
  | zero =>
      obtain ⟨rfl, rfl⟩ := pure_ok.mp h
      have hnil := List.length_eq_zero_iff.mp (Nat.le_zero.mp hfuel)
      exact ⟨.inl (by rw [kindAt_eq, hnil, kindIn_nil]), .inl ⟨rfl, rfl⟩⟩
  | succ fuel ih =>
      rcases stages_succ_ok h with ⟨hends, rfl, rfl⟩ | ⟨l, s₁, -, hdirty, h⟩ |
        ⟨hstart, made, s₁, rest, hstage, hrest, rfl⟩
      · exact ⟨hends, .inl ⟨rfl, rfl⟩⟩
      · -- A pipe where a command should be is recorded, and what is recorded is not taken back.
        exact absurd (stages_isClean herr hread h hclean) (hdirty herr)
      · -- Clean at the end is clean at each step before, so every reader below gives its word.
        have hclean₁ := stages_isClean herr hread hrest hclean
        obtain ⟨command, s₂, rfl, hcommand, hbehind⟩ := stage_ok herr hstage hclean₁
        rcases hbehind with ⟨hends₂, rfl⟩ | ⟨l, hl, hmoves', hmore⟩
        · rw [stages_apply_end hends₂] at hrest
          obtain ⟨⟩ := hrest
          exact ⟨hends₂, .inr (.one hstart hcommand)⟩
        · have hclean₂ := hmoves'.isClean hclean₁
          obtain rfl := hmoves'.eq_past (hclean₁.trans hclean₂.symm)
          obtain ⟨w, hmoves, hR⟩ := hread hcommand hclean₂
          have hlength := (hmoves.trans hmoves').length_eq
          rw [List.length_append, List.length_singleton] at hlength
          obtain ⟨hends', ⟨rfl, rfl⟩ | hchain⟩ := ih (by omega) hrest
          · -- Nothing was read behind the pipe, so the pipeline would end there.
            exact absurd hends' hmore
          · exact ⟨hends', .inr (.more hstart hcommand hmoves'.rest_eq hl hchain)⟩

/-- A chain that ends in a clean state takes the lexemes of its commands and the pipes between
them. -/
theorem Chain.moves {R : List Lexeme → Command → Prop} {read : Parse Command}
    (hread : ReadsClean c R read) {inBrackets : Bool} {commands : List Command}
    (h : Chain read inBrackets c s commands s') (hclean : s'.IsClean) :
    ∃ w, Moves s w s' ∧ SepBy .pipe R w commands := by
  induction h with
  | one _ h =>
      obtain ⟨w, hmoves, hR⟩ := hread h hclean
      exact ⟨w, hmoves, .one hR⟩
  | @more s s₁ s' l rest command commands _ h hrest hl _ ih =>
      obtain ⟨w', hmoves', hall⟩ := ih hclean
      have hpast : Moves s₁ [l] (s₁.past [l]) := .past hrest
      obtain ⟨w, hmoves, hR⟩ := hread h (hpast.isClean (hmoves'.isClean hclean))
      exact ⟨w ++ ([l] ++ w'), hmoves.trans (hpast.trans hmoves'), .more hR hl hall⟩

/-- Every command of such a chain takes a lexeme at least. -/
theorem Chain.length_le {read : Parse Command} (hread : ReadsClean c IsCommand read)
    {inBrackets : Bool} {commands : List Command} (h : Chain read inBrackets c s commands s')
    (hclean : s'.IsClean) : commands.length ≤ s.rest.length := by
  obtain ⟨w, hmoves, hall⟩ := h.moves hread hclean
  have hne : ∀ w command, IsCommand w command → w ≠ [] := by
    rintro w command ⟨⟩
    exact List.cons_ne_nil _ _
  exact (hall.length_le hne).trans (hmoves.length_eq ▸ Nat.le_add_right _ _)

/-- In a clean state the stages are commands with pipes between them, up to the end of the
pipeline. -/
theorem stages_ok (herr : c.errorStarts = []) {R : List Lexeme → Command → Prop}
    {read : Parse Command} (hread : ReadsClean c R read) {inBrackets : Bool} {fuel : Nat}
    (hfuel : s.rest.length ≤ fuel) {commands : List Command}
    (h : stages read inBrackets fuel c s = (.ok commands, s')) (hclean : s'.IsClean) :
    ∃ w, Moves s w s' ∧ EndsPipeline inBrackets s' ∧ IsPipeline R w commands := by
  obtain ⟨hends, ⟨rfl, rfl⟩ | hchain⟩ := chain_of_stages herr hread hfuel h hclean
  · exact ⟨[], .refl _, hends, .inl ⟨rfl, rfl⟩⟩
  · obtain ⟨w, hmoves, hall⟩ := hchain.moves hread hclean
    exact ⟨w, hmoves, hends, .inr hall⟩

/-- A pipeline that leaves a clean state is commands with pipes between, and the pipeline's end is
ahead. -/
theorem pipeline_ok (herr : c.errorStarts = []) {R : List Lexeme → Command → Prop}
    {read : Parse Command} (hread : ReadsClean c R read) {inBrackets : Bool}
    {commands : List Command} (h : pipeline read inBrackets c s = (.ok commands, s'))
    (hclean : s'.IsClean) :
    ∃ w, Moves s w s' ∧ EndsPipeline inBrackets s' ∧ IsPipeline R w commands := by
  rw [pipeline, bind_ok] at h
  obtain ⟨_, _, hremaining, h⟩ := h
  obtain ⟨rfl, rfl⟩ := look_ok.mp hremaining
  exact stages_ok herr hread (Nat.le_refl _) h hclean

/-! ### Chains of commands are read -/

/-- Where a command may start, one round of the loop is a stage, and then the loop goes on. -/
theorem stages_apply_succ (read : Parse Command) {inBrackets : Bool}
    (hstart : StartsCommand inBrackets s) (fuel : Nat) :
    stages read inBrackets (fuel + 1) c s = (do
      let first ← stage read inBrackets
      let rest ← stages read inBrackets fuel
      return first.toList ++ rest) c s := by
  rw [stages, bind_apply_of_ok (atPipelineEnd_apply _), decide_eq_false hstart.1]
  simp only [Bool.false_eq_true, if_false]
  rw [bind_apply_of_ok (check_apply _), decide_eq_false hstart.2]
  rfl

/-- A command that is read up to the end of the pipeline. -/
theorem stage_apply_end {read : Parse Command} {inBrackets : Bool} {command : Command}
    (h : read c s = (.ok command, s')) (hends : EndsPipeline inBrackets s') :
    stage read inBrackets c s = (.ok (some command), s') := by
  have hpipe : s'.kindAt 0 ≠ .pipe := by
    rcases hends with hends | ⟨-, hends⟩ <;> rw [hends] <;> decide
  rw [stage_apply, h]
  show stageBehind inBrackets (some command) c s' = _
  rw [stageBehind, bind_apply_of_ok (atPipelineEnd_apply _), bind_apply_of_ok (check_apply _),
    decide_eq_true hends]
  simp only [Bool.not_true, Bool.false_and, Bool.false_eq_true, if_false]
  rw [stagePipe, bind_apply_of_ok (eat_apply_of_ne hpipe)]
  rfl

/-- A command that is read up to a pipe, behind which another one has to follow. -/
theorem stage_apply_pipe {read : Parse Command} {inBrackets : Bool} {command : Command}
    (h : read c s = (.ok command, s')) {l : Lexeme} {rest : List Lexeme}
    (hrest : s'.rest = l :: rest)
    (hl : l.token.kind = .pipe) :
    stage read inBrackets c s = (do
      if ← atPipelineEnd inBrackets then
        record (← expected "a command after '|'")
      return some command) c (s'.past [l]) := by
  have hahead : s'.kindAt 0 = .pipe := by rw [kindAt_eq, hrest, kindIn_cons_zero, hl]
  rw [stage_apply, h]
  show stageBehind inBrackets (some command) c s' = _
  rw [stageBehind, bind_apply_of_ok (atPipelineEnd_apply _), bind_apply_of_ok (check_apply _),
    hahead]
  simp only [decide_true, Bool.not_true, Bool.and_false, Bool.false_eq_true, if_false]
  rw [stagePipe, bind_apply_of_ok (eat_apply hrest hl)]
  rfl

/-- The same if another one may follow. -/
theorem stage_apply_more {read : Parse Command} {inBrackets : Bool} {command : Command}
    (h : read c s = (.ok command, s')) {l : Lexeme} {rest : List Lexeme}
    (hrest : s'.rest = l :: rest)
    (hl : l.token.kind = .pipe) (hmore : ¬ EndsPipeline inBrackets (s'.past [l])) :
    stage read inBrackets c s = (.ok (some command), s'.past [l]) := by
  rw [stage_apply_pipe h hrest hl, bind_apply_of_ok (atPipelineEnd_apply _),
    decide_eq_false hmore]
  rfl

/-- The stages of a chain, as far as its last command; what that one and those behind it are read
as is added. -/
theorem Chain.stages_apply_last {read : Parse Command} {inBrackets : Bool}
    {commands : List Command} (h : Chain read inBrackets c s commands s') (fuel : Nat) :
    ∃ s₀ init command, commands = init ++ [command] ∧ StartsCommand inBrackets s₀ ∧
      read c s₀ = (.ok command, s') ∧
      ∀ {rest s''}, stages read inBrackets (fuel + 1) c s₀ = (.ok rest, s'') →
        stages read inBrackets (commands.length + fuel) c s = (.ok (init ++ rest), s'') := by
  induction h with
  | one hstart h =>
      refine ⟨_, [], _, rfl, hstart, h, fun hstages => ?_⟩
      rwa [List.length_singleton, Nat.add_comm]
  | more hstart h hrest hl hbehind ih =>
      obtain ⟨s₀, init, last, rfl, hstart₀, hlast, hstages⟩ := ih
      refine ⟨s₀, _ :: init, last, rfl, hstart₀, hlast, fun hrest' => ?_⟩
      rw [List.length_cons, Nat.add_right_comm, stages_apply_succ _ hstart,
        bind_apply_of_ok (stage_apply_more h hrest hl hbehind.startsCommand.1),
        bind_apply_of_ok (hstages hrest')]
      rfl

/-- A chain up to the end of the pipeline is all of it. -/
theorem Chain.stages_apply {read : Parse Command} {inBrackets : Bool} {commands : List Command}
    (h : Chain read inBrackets c s commands s') (hends : EndsPipeline inBrackets s') {fuel : Nat}
    (hfuel : commands.length ≤ fuel) : stages read inBrackets fuel c s = (.ok commands, s') := by
  obtain ⟨more, rfl⟩ := Nat.exists_eq_add_of_le hfuel
  obtain ⟨s₀, init, command, rfl, hstart, hread, hstages⟩ := h.stages_apply_last more
  refine hstages ?_
  rw [stages_apply_succ _ hstart, bind_apply_of_ok (stage_apply_end hread hends),
    bind_apply_of_ok (stages_apply_end hends _)]
  rfl

/-- Behind a chain and a pipe the pipeline goes on. -/
theorem Chain.stages_apply_more {read : Parse Command} {inBrackets : Bool}
    {commands rest : List Command} {s'' : State} (h : Chain read inBrackets c s commands s')
    {l : Lexeme} {r : List Lexeme} (hrest : s'.rest = l :: r) (hl : l.token.kind = .pipe)
    (hmore : ¬ EndsPipeline inBrackets (s'.past [l])) {fuel : Nat}
    (hbehind : stages read inBrackets fuel c (s'.past [l]) = (.ok rest, s'')) :
    stages read inBrackets (commands.length + fuel) c s = (.ok (commands ++ rest), s'') := by
  obtain ⟨s₀, init, command, rfl, hstart, hread, hstages⟩ := h.stages_apply_last fuel
  rw [List.append_assoc]
  refine hstages ?_
  rw [stages_apply_succ _ hstart, bind_apply_of_ok (stage_apply_more hread hrest hl hmore),
    bind_apply_of_ok hbehind]
  rfl

/-- Behind a chain and a pipe a command is missed if there is none. -/
theorem Chain.stages_apply_missing (herr : c.errorStarts = []) {read : Parse Command}
    {inBrackets : Bool} {commands : List Command} (h : Chain read inBrackets c s commands s')
    {l : Lexeme} {r : List Lexeme} (hrest : s'.rest = l :: r) (hl : l.token.kind = .pipe)
    (hends : EndsPipeline inBrackets (s'.past [l])) (fuel : Nat) :
    ∃ s'', stages read inBrackets (commands.length + fuel) c s = (.ok commands, s'') ∧
      s''.rest = (s'.past [l]).rest ∧ ¬ s''.IsClean := by
  obtain ⟨s₀, init, command, rfl, hstart, hread, hstages⟩ := h.stages_apply_last fuel
  obtain ⟨u, s'', hrecord⟩ := total_record
    ((expectedCause "a command after '|'" ((s'.past [l]).current c)).onToken
      ((s'.past [l]).current c)) c (s'.past [l])
  obtain ⟨hmoves, hdirty⟩ := record_ok herr hrecord
  have hsame : s''.rest = (s'.past [l]).rest := by rw [hmoves.rest_eq, List.nil_append]
  -- The last stage takes the pipe, finds no command behind it and records that.
  have hstage : stage read inBrackets c s₀ = (.ok (some command), s'') := by
    rw [stage_apply_pipe hread hrest hl, bind_apply_of_ok (atPipelineEnd_apply _),
      decide_eq_true hends]
    simp only [if_true]
    rw [bind_apply_of_ok rfl, bind_apply_of_ok hrecord]
    rfl
  have hends'' : EndsPipeline inBrackets s'' := by
    rwa [EndsPipeline, kindAt_eq, hsame, ← kindAt_eq]
  refine ⟨s'', hstages ?_, hsame, hdirty⟩
  rw [stages_apply_succ _ hstart, bind_apply_of_ok hstage,
    bind_apply_of_ok (stages_apply_end hends'' _)]
  rfl

/-! ### Commands and queries -/

/-- What an `EXPLAIN` is read of in a clean way. An empty pipeline between the brackets is
recorded. -/
theorem explainCommand_parts (herr : c.errorStarts = []) {read : Parse (List Command)} {l : Lexeme}
    {rest : List Lexeme} {command : Command} (hrest : s.rest = l :: rest)
    (h : explainCommand read c s = (.ok command, s')) (hclean : s'.IsClean) :
    ∃ opening s₁ commands s₂ closing,
      expect .openBracket "'['" c (s.past [l]) = (.ok opening, s₁) ∧
      read c s₁ = (.ok commands, s₂) ∧ ¬ (commands = [] ∧ s₂.prevEnd = opening.span.stop) ∧
      closing.token.kind = .closeBracket ∧ Moves s₂ [closing] s' ∧
      command = .explain commands ((Command.spanOf? commands).getD (.point opening.span.stop))
        ⟨l.token.span.start, max s'.prevEnd l.token.span.stop⟩ := by
  rw [explainCommand, bind_apply_of_ok (advance_apply hrest)] at h
  obtain ⟨opening, s₁, hexpect, h⟩ := bind_ok.mp h
  obtain ⟨commands, s₂, hcommands, h⟩ := bind_ok.mp h
  obtain ⟨_, _, hstate, h⟩ := bind_ok.mp h
  obtain ⟨rfl, rfl⟩ : s₂ = _ ∧ s₂ = _ := by simpa [Parse.state] using hstate
  -- The closing bracket and the end of the command.
  have hclose : ∀ {s₃}, (do
      let _ ← expect .closeBracket "']'"
      let inner := (Command.spanOf? commands).getD (.point opening.span.stop)
      return Command.explain commands inner (← spanFrom l.token.span)) c s₃ = (.ok command, s') →
      ∃ closing, closing.token.kind = .closeBracket ∧ Moves s₃ [closing] s' ∧
        command = .explain commands ((Command.spanOf? commands).getD (.point opening.span.stop))
          ⟨l.token.span.start, max s'.prevEnd l.token.span.stop⟩ := by
    intro s₃ h
    simp only [bind_ok, pure_ok, spanFrom_ok] at h
    obtain ⟨t, s₄, hexpect, _, _, ⟨rfl, rfl⟩, rfl, rfl⟩ := h
    obtain ⟨closing, hclosing, -, hmoves⟩ := expect_ok (by simp) hexpect
    exact ⟨closing, hclosing, hmoves, rfl⟩
  split at h
  case isTrue =>
    obtain ⟨s₃, -, hdirty, h⟩ := recordExpected_ok h
    obtain ⟨closing, -, hmoves, -⟩ := hclose h
    exact absurd (hmoves.isClean hclean) (hdirty herr)
  case isFalse hsome =>
    obtain ⟨closing, hclosing, hmoves, rfl⟩ := hclose h
    exact ⟨opening, s₁, commands, s₂, closing, hexpect, hcommands, by simpa using hsome, hclosing,
      hmoves, rfl⟩

/-- An `EXPLAIN` is read off its verb, an opening bracket, a pipeline and a closing one. -/
theorem explainCommand_ok (herr : c.errorStarts = []) {R : List Lexeme → Command → Prop}
    {read : Parse (List Command)} (hread : ReadsClean c (IsPipeline R) read) {l : Lexeme}
    {rest : List Lexeme} {command : Command} (hrest : s.rest = l :: rest)
    (h : explainCommand read c s = (.ok command, s')) : ReadsVerb R .explain l s command s' := by
  intro hclean
  obtain ⟨_, s₁, commands, s₂, closing, hexpect, hcommands, hsome, hclosing, hmoves₂, rfl⟩ :=
    explainCommand_parts herr hrest h hclean
  have hmoves : Moves s [l] (s.past [l]) := .past hrest
  obtain ⟨opening, hopening, rfl, hmoves₁⟩ := expect_ok (by simp) hexpect
  obtain ⟨w, hmoves', hpipeline⟩ := hread hcommands (hmoves₂.isClean hclean)
  rcases hpipeline with ⟨rfl, rfl⟩ | hpipeline
  · refine absurd ⟨rfl, ?_⟩ hsome
    rw [hmoves'.prevEnd_eq, lastStop_nil, hmoves₁.prevEnd_eq, lastStop_singleton]
  · obtain ⟨first, others, rfl⟩ := List.exists_cons_of_ne_nil hpipeline.ne_nil
    have hall := hmoves.trans (hmoves₁.trans (hmoves'.trans hmoves₂))
    refine ⟨opening :: (w ++ [closing]), _, hall, .explain hopening hpipeline hclosing rfl, ?_⟩
    rw [hall.prevEnd_eq, spanFrom_eq (by simp)]
    rfl

/-- A command behind its verb is a command of the grammar if nothing was reported. -/
theorem ReadsVerb.isCommand {verb : Verb} {l : Lexeme} {command : Command}
    (h : ReadsVerb IsCommand verb l s command s') (hverb : l.token.kind = .command verb)
    (hclean : s'.IsClean) : ∃ w, Moves s w s' ∧ IsCommand w command := by
  obtain ⟨w, make, hmoves, hbody, rfl⟩ := h hclean
  exact ⟨l :: w, hmoves, .mk hverb hbody fun _ _ h => h⟩

/-- A command that is read in a clean way is in the grammar, if `sub` and `explained` read what
is. -/
theorem command_ok (hend : c.endToken.kind = .eof) (herr : c.errorStarts = [])
    {sub : Nat → Parse Expr} (hsub : ReadsAll c sub) {explained : Parse (List Command)}
    (hexplained : ReadsClean c (IsPipeline IsCommand) explained) :
    ReadsClean c IsCommand (command sub explained) := by
  intro s command s' h hclean
  rw [Parser.command, bind_ok] at h
  obtain ⟨_, _, hcurrent, h⟩ := h
  obtain ⟨rfl, rfl⟩ := look_ok.mp hcurrent
  generalize hkind : (s.current c).kind = kind at h
  cases kind with
  | command verb =>
      obtain ⟨l, rest, hrest, hl, -⟩ := current_eq hend hkind (by simp)
      refine ReadsVerb.isCommand ?_ hl hclean
      cases verb with
      | «from» => exact fromCommand_ok hend herr hrest h
      | row => exact rowCommand_ok hend hsub hrest h
      | «show» => exact showCommand_ok hrest h
      | explain => exact explainCommand_ok herr hexplained hrest h
      | metrics => exact metricsCommand_ok hend herr hsub hrest h
      | eval => exact evalCommand_ok hend hsub hrest h
      | «where» => exact whereCommand_ok hsub hrest h
      | stats => exact statsCommand_ok hend herr hsub hrest h
      | inlineStats => exact inlineStatsCommand_ok hend herr hsub hrest h
      | sort => exact sortCommand_ok hsub hrest h
      | limit => exact limitCommand_ok hrest h
      | keep => exact keepCommand_ok hend hrest h
      | drop => exact dropCommand_ok hend herr hrest h
      | rename => exact renameCommand_ok hend herr hrest h
      | dissect => exact dissectCommand_ok hend herr hsub hrest h
      | grok => exact grokCommand_ok hend hsub hrest h
      | enrich => exact enrichCommand_ok hend herr hrest h
      | mvExpand => exact mvExpandCommand_ok hend hrest h
      | lookup => exact lookupCommand_ok hend herr hrest h
      | «match» => exact matchCommand_ok hrest h
  -- Nothing is returned where no command begins.
  | unknownCommand => exact (stop_ok.mp h).elim
  | _ => exact (unexpected_ok.mp h).elim

/-- The commands between the brackets of an `EXPLAIN`, with any number of levels left. -/
theorem explained_ok (hend : c.endToken.kind = .eof) (herr : c.errorStarts = []) (headroom : Nat) :
    ReadsClean c (IsPipeline IsCommand) (explained headroom) := by
  induction headroom with
  | zero =>
      intro s commands s' h
      simp only [explained, tooDeep, bind_ok, stop_ok, and_false, exists_false] at h
  | succ headroom ih =>
      intro s commands s' h hclean
      obtain ⟨s₁, hpipeline, rfl⟩ := deeper_ok h
      obtain ⟨w, hmoves, -, hall⟩ := pipeline_ok herr
        (command_ok hend herr (expressionAt_readsAll hend headroom) ih) hpipeline hclean
      exact ⟨w, hmoves.of_deeper, hall⟩

/-- The whole pipeline always succeeds, at every limit of nesting. -/
theorem total_wholePipeline (maxDepth : Nat) : Total (wholePipeline maxDepth) :=
  (total_look _).bind fun _ => total_stages _ _ _

/-- The commands of a whole text, and those between brackets with as many levels left. -/
theorem commandAt_ok (hend : c.endToken.kind = .eof) (herr : c.errorStarts = []) (levels : Nat) :
    ReadsClean c IsCommand (command (expressionAt levels) (explained levels)) :=
  command_ok hend herr (expressionAt_readsAll hend levels) (explained_ok hend herr levels)

/-- Only the token behind the last lexeme ends the pipeline of a text. -/
theorem rest_eq_nil_of_endsPipeline (hkinds : ∀ l ∈ s.rest, l.token.kind ≠ .eof)
    (h : EndsPipeline false s) : s.rest = [] := by
  rcases h with heof | ⟨hbrackets, -⟩
  · cases hrest : s.rest with
    | nil => rfl
    | cons l rest =>
        rw [kindAt_eq, hrest, kindIn_cons_zero] at heof
        exact absurd heof (hkinds l (by rw [hrest]; exact List.mem_cons_self))
  · exact absurd hbrackets Bool.false_ne_true

/-- A pipeline of lexemes that is read in a clean way has a command. -/
theorem ne_nil_of_wholePipeline_clean (hend : c.endToken.kind = .eof) (herr : c.errorStarts = [])
    {maxDepth : Nat} (hkinds : ∀ l ∈ s.rest, l.token.kind ≠ .eof) (hrest : s.rest ≠ [])
    {commands : List Command} (h : wholePipeline maxDepth c s = (.ok commands, s'))
    (hclean : s'.IsClean) : commands ≠ [] := by
  rintro rfl
  obtain ⟨w, hmoves, hends, hall⟩ := pipeline_ok herr (commandAt_ok hend herr maxDepth) h hclean
  have hw : w = [] := hall.elim (fun hnil => hnil.1) fun hall => absurd rfl hall.ne_nil
  have hsame : s'.rest = s.rest := by rw [hmoves.rest_eq, hw, List.nil_append]
  rw [EndsPipeline, kindAt_eq, hsame, ← kindAt_eq] at hends
  exact hrest (rest_eq_nil_of_endsPipeline hkinds hends)

/-- A query has the commands of its pipeline. Without lexical errors it is read in a clean way just
if the pipeline is, no bracket is open behind it and there is a command. -/
theorem query_of_wholePipeline {maxDepth : Nat} {commands : List Command}
    (h : wholePipeline maxDepth c s = (.ok commands, s')) (lexicalErrors openBracket : Bool) :
    ∃ s₁, query maxDepth lexicalErrors openBracket c s = (.ok (.ofCommands commands), s₁) ∧
      (c.errorStarts = [] → lexicalErrors = false →
        (s₁.IsClean ↔ s'.IsClean ∧ openBracket = false ∧ commands ≠ []) ∧
          (s₁.IsClean → s₁ = s')) := by
  -- Without commands something is recorded, at the latest behind the pipeline.
  have hempty : ∀ s₂ : State, ∃ s₁, (do
      let s ← Parse.state
      if commands.isEmpty && s.recorded.isEmpty && !lexicalErrors then
        let token ← current
        record (Diagnostic.Cause.emptyQuery.onToken token)
      return Query.ofCommands commands) c s₂ = (.ok (.ofCommands commands), s₁) ∧
      (c.errorStarts = [] → lexicalErrors = false →
        (s₁.IsClean ↔ s₂.IsClean ∧ commands ≠ []) ∧ (s₁.IsClean → s₁ = s₂)) := by
    intro s₂
    have hstate : Parse.state c s₂ = (.ok s₂, s₂) := rfl
    rw [bind_apply_of_ok hstate]
    split
    case isTrue hnone =>
      obtain ⟨u, s₁, hrecord⟩ :=
        total_record (Diagnostic.Cause.emptyQuery.onToken (s₂.current c)) c s₂
      have hcommands : commands = [] := by
        simp only [Bool.and_eq_true, List.isEmpty_iff] at hnone
        exact hnone.1.1
      refine ⟨s₁, ?_, fun herr _ => ?_⟩
      · rw [bind_apply_of_ok (current_run c s₂), bind_apply_of_ok hrecord]
        rfl
      · have hdirty := (record_ok herr hrecord).2
        exact ⟨⟨fun hclean => absurd hclean hdirty, fun h => absurd hcommands h.2⟩,
          fun hclean => absurd hclean hdirty⟩
    case isFalse hsome =>
      refine ⟨s₂, rfl, fun _ hlexical => ⟨⟨fun hclean => ⟨hclean, fun hnil => hsome ?_⟩,
        fun h => h.1⟩, fun _ => rfl⟩⟩
      rw [State.IsClean] at hclean
      simp [hnil, hclean, hlexical]
  rw [query, bind_apply_of_ok h]
  cases openBracket with
  | false =>
      obtain ⟨s₁, hquery, hclean⟩ := hempty s'
      exact ⟨s₁, hquery, fun herr hlexical => by simpa using hclean herr hlexical⟩
  | true =>
      simp only [if_true]
      obtain ⟨u, s₂, hreport⟩ := total_report .unclosedBracket (s'.current c).span c s'
      obtain ⟨s₁, hquery, hclean⟩ := hempty s₂
      rw [bind_apply_of_ok (current_run c s'), bind_apply_of_ok hreport]
      refine ⟨s₁, hquery, fun herr hlexical => ?_⟩
      have hdirty : ¬ s₁.IsClean := fun h =>
        (report_ok hreport).2 herr ((hclean herr hlexical).1.mp h).1
      exact ⟨⟨fun h => absurd h hdirty, fun h => absurd h.2.1.symm Bool.false_ne_true⟩,
        fun h => absurd h hdirty⟩

/-- There is always a query. -/
theorem total_query (maxDepth : Nat) (lexicalErrors openBracket : Bool) :
    Total (query maxDepth lexicalErrors openBracket) := by
  intro c s
  obtain ⟨commands, s', hcommands⟩ := total_wholePipeline maxDepth c s
  obtain ⟨s₁, hquery, -⟩ := query_of_wholePipeline hcommands lexicalErrors openBracket
  exact ⟨.ofCommands commands, s₁, hquery⟩

/-- A query that is read in a clean way is a pipeline with a command, and no bracket is open behind
it. -/
theorem wholePipeline_of_query_clean (herr : c.errorStarts = []) {maxDepth : Nat}
    {openBracket : Bool} {q : Query} (h : query maxDepth false openBracket c s = (.ok q, s'))
    (hclean : s'.IsClean) :
    openBracket = false ∧ q.commands ≠ [] ∧ wholePipeline maxDepth c s = (.ok q.commands, s') := by
  obtain ⟨commands, s₁, hcommands⟩ := total_wholePipeline maxDepth c s
  obtain ⟨s₂, hquery, hboth⟩ := query_of_wholePipeline hcommands false openBracket
  rw [hquery] at h
  obtain ⟨⟩ := h
  obtain ⟨hiff, hsame⟩ := hboth herr rfl
  obtain ⟨-, hopen, hne⟩ := hiff.mp hclean
  exact ⟨hopen, hne, hsame hclean ▸ hcommands⟩

/-- A query that is read in a clean way takes all lexemes, which are those of its commands with
pipes between them. No bracket is open behind it. -/
theorem query_clean (hend : c.endToken.kind = .eof) (herr : c.errorStarts = []) {maxDepth : Nat}
    {openBracket : Bool} {lexemes : List Lexeme} (hlexemes : ∀ l ∈ lexemes, l.token.kind ≠ .eof)
    {q : Query} (h : query maxDepth false openBracket c (.initial lexemes) = (.ok q, s'))
    (hclean : s'.IsClean) :
    openBracket = false ∧ SepBy .pipe IsCommand lexemes q.commands := by
  obtain ⟨rfl, hne, hcommands⟩ := wholePipeline_of_query_clean herr h hclean
  obtain ⟨w, hmoves, hends, hall⟩ :=
    pipeline_ok herr (commandAt_ok hend herr maxDepth) hcommands hclean
  have hrest : lexemes = w ++ s'.rest := hmoves.rest_eq
  have hnil : s'.rest = [] :=
    rest_eq_nil_of_endsPipeline
      (fun l hl => hlexemes l (by rw [hrest]; exact List.mem_append_right _ hl)) hends
  rw [hnil, List.append_nil] at hrest
  rcases hall with ⟨-, hnone⟩ | hall
  · exact absurd hnone hne
  · exact ⟨rfl, hrest ▸ hall⟩

end PipeQuery.Parser
