import PipeQuery.Proofs.Command.Lockstep
import PipeQuery.Proofs.Parser.Steady

/-!
# `PipeQuery.Proofs.Command.Steady`: readers that keep their spans

In a comparison that keeps spans the results of readers in lockstep are the same. `operation`,
`command` and `pipeline` are in lockstep with themselves over other parts, if the parts are. In the
comparison at one level of nesting that makes every reader of the parser steady.
-/

set_option autoImplicit false

namespace PipeQuery.Parser

/-! ### Comparisons that keep spans -/

/-- The comparison keeps spans, and steady steps fit themselves. -/
structure Lockstep.IsStill (L : Lockstep) : Prop where
  place : L.place = id
  token : L.token = id
  self : ∀ {α : Type} {p : Parse α}, Steady p → L.relates id p p

/-- To report a hollow pipeline is steady. -/
theorem steady_reportHollow (opening : Token) (commands : List Command) :
    Steady (reportHollow opening commands) :=
  Steady.bind (p := Parse.state) (fun _ s => .refl s) fun _ =>
    .ite ((steady_expected _).bind fun d => steady_record d) (steady_pure _)

namespace Lockstep.IsStill

variable {L : Lockstep} (hL : L.IsStill) {sub sub' : Nat → Parse Expr}
  {explained explained' : Parse (List Command)} {read read' : Parse Command}

include hL

/-- Readers of parts that are in lockstep have in common what the readers of expressions ask of
them. -/
theorem relatesAll (hsub : ∀ power, L.relates id (sub power) (sub' power)) :
    L.RelatesAll sub sub' := by
  intro power
  rw [hL.place, Expr.mapSpans_id]
  exact hsub power

/-- With them an operation is read in lockstep, results unchanged. -/
theorem relates_operation (hsub : ∀ power, L.relates id (sub power) (sub' power))
    (minPower : Nat) : L.relates id (operation sub minPower) (operation sub' minPower) := by
  have h := Lockstep.relates_operation (hL.relatesAll hsub) minPower
  rwa [hL.place, Expr.mapSpans_id] at h

/-- With them, and with the pipelines of `EXPLAIN`, a command is read in lockstep. -/
theorem relates_command (hsub : ∀ power, L.relates id (sub power) (sub' power))
    (hexplained : L.relates id explained explained') :
    L.relates id (command sub explained) (command sub' explained') := by
  have hcommands : List.map (Command.mapSpans L.place) = id := by
    rw [hL.place, Command.mapSpans_id, List.map_id_fun]
  have henclosed : L.RelatesEnclosed explained explained' := by
    refine relates_enclosed (fun opening commands => ?_) ?_
    · rw [hL.token, hcommands]
      exact hL.self (steady_reportHollow opening commands)
    · rwa [hcommands]
  have h := Lockstep.relates_command (hL.relatesAll hsub) henclosed
  rwa [hL.place, Command.mapSpans_id] at h

/-- With commands read in lockstep so is a pipeline. -/
theorem relates_pipeline (hread : L.relates id read read') (inBrackets : Bool) :
    L.relates id (pipeline read inBrackets) (pipeline read' inBrackets) := by
  have hread' : L.relates (Command.mapSpans L.place) read read' := by
    rwa [hL.place, Command.mapSpans_id]
  have h := Lockstep.relates_pipeline hread' inBrackets
  rwa [hL.place, Command.mapSpans_id, List.map_id_fun] at h

end Lockstep.IsStill

/-! ### At one level -/

/-- To do the same in all states of one level keeps spans where they are. -/
theorem isStill_level (depth : Nat) : (Lockstep.level depth).IsStill :=
  ⟨rfl, rfl, SameAt.self⟩

variable {depth : Nat} {sub sub' : Nat → Parse Expr} {inner inner' : Parse (List Command)}
  {read read' : Parse Command}

/-- An operation does the same in a level if its parts do. -/
theorem sameAt_operation (hsub : ∀ power, SameAt depth id (sub power) (sub' power))
    (minPower : Nat) : SameAt depth id (operation sub minPower) (operation sub' minPower) :=
  (isStill_level depth).relates_operation hsub minPower

/-- A command does the same in a level if its parts and the pipeline in it do. -/
theorem sameAt_command (hsub : ∀ power, SameAt depth id (sub power) (sub' power))
    (hinner : SameAt depth id inner inner') :
    SameAt depth id (command sub inner) (command sub' inner') :=
  (isStill_level depth).relates_command hsub hinner

/-- A pipeline does the same in a level if its commands do. -/
theorem sameAt_pipeline (hread : SameAt depth id read read') (inBrackets : Bool) :
    SameAt depth id (pipeline read inBrackets) (pipeline read' inBrackets) :=
  (isStill_level depth).relates_pipeline hread inBrackets

/-! ### Steady readers -/

/-- A step that does the same as some step in every level is steady. -/
theorem steady_of_level {α : Type} {f : Nat → α → α} {p : Parse α} {p' : Nat → Parse α}
    (h : ∀ depth, (Lockstep.level depth).relates (f depth) p (p' depth)) : Steady p :=
  fun c s => (h s.depth c s rfl).1

/-- An identifier is read by a steady step. -/
theorem steady_identifier (what : String) : Steady (identifier what) :=
  steady_of_level fun depth => (Lockstep.level depth).relates_identifier what

/-- What stands in a setting is read by a steady step. -/
theorem steady_settingBehind (opening : Token) : Steady (settingBehind opening) :=
  steady_of_level fun depth => (Lockstep.level depth).relates_settingBehind opening

section

variable (hsub : ∀ power, Steady (sub power))

include hsub

/-- Steady readers of parts do the same as themselves in every level. -/
theorem relatesAll_level (depth : Nat) : (Lockstep.level depth).RelatesAll sub sub :=
  (isStill_level depth).relatesAll fun power => SameAt.self (hsub power)

/-- What stands behind a `NOT` of a predicate is read by a steady step. -/
theorem steady_predicateBehind (operand : Expr) (negated : Bool) (t : Token) :
    Steady (Embedding.predicateBehind sub operand negated t) :=
  steady_of_level fun depth =>
    Lockstep.relates_predicateBehind (relatesAll_level hsub depth) operand negated t

/-- An operation is read by a steady step. -/
theorem steady_operation (minPower : Nat) : Steady (operation sub minPower) :=
  steady_of_level fun _ => sameAt_operation (fun power => SameAt.self (hsub power)) minPower

/-- A command is read by a steady step. -/
theorem steady_command (hinner : Steady inner) : Steady (command sub inner) :=
  steady_of_level fun _ =>
    sameAt_command (fun power => SameAt.self (hsub power)) (SameAt.self hinner)

end

/-- To ask for the end of a pipeline is steady. -/
theorem steady_atPipelineEnd (inBrackets : Bool) : Steady (atPipelineEnd inBrackets) :=
  (steady_look _).bind fun _ => steady_pure _

/-- To take the pipe behind a stage is steady. -/
theorem steady_stagePipe (inBrackets : Bool) (made : Option Command) :
    Steady (stagePipe inBrackets made) :=
  steady_of_level fun depth => (Lockstep.level depth).relates_stagePipe inBrackets made

/-- What follows a command in its stage is steady. -/
theorem steady_stageBehind (inBrackets : Bool) (made : Option Command) :
    Steady (stageBehind inBrackets made) :=
  steady_of_level fun depth => (Lockstep.level depth).relates_stageBehind inBrackets made

/-- A stage is steady, also when its command stops. -/
theorem steady_stage (hread : Steady read) (inBrackets : Bool) : Steady (stage read inBrackets) := by
  rw [stage_eq]
  exact (hread.salvage inBrackets).bind fun made => steady_stageBehind inBrackets made

/-- A pipeline is steady. -/
theorem steady_pipeline (hread : Steady read) (inBrackets : Bool) :
    Steady (pipeline read inBrackets) :=
  steady_of_level fun _ => sameAt_pipeline (SameAt.self hread) inBrackets

/-- An expression is read by a steady step, at every headroom. -/
theorem steady_expressionAt (headroom minPower : Nat) : Steady (expressionAt headroom minPower) := by
  induction headroom generalizing minPower with
  | zero => exact steady_tooDeep
  | succ headroom ih => exact (steady_operation ih minPower).deeper

/-- So is the pipeline of an `EXPLAIN`. -/
theorem steady_explained (headroom : Nat) : Steady (explained headroom) := by
  induction headroom with
  | zero => exact steady_tooDeep
  | succ headroom ih =>
      exact (steady_pipeline (steady_command (steady_expressionAt headroom) ih) true).deeper

/-- The whole pipeline is read by a steady step. -/
theorem steady_wholePipeline (maxDepth : Nat) : Steady (wholePipeline maxDepth) :=
  steady_pipeline (steady_command (steady_expressionAt maxDepth) (steady_explained maxDepth)) false

end PipeQuery.Parser
