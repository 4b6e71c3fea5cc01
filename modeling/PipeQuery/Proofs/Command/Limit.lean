import PipeQuery.Proofs.Command.Steady

/-!
# `PipeQuery.Proofs.Command.Limit`: the limit of nesting

`expressionAt` and `explained` go by the levels that are left, which makes them structural
recursions. Seen from the counter they are recursions of another kind: `expressionIn limit` reads an
operation whose parts are again read by `expressionIn limit`, one level deeper, and refuses to go
beyond the limit. `expressionIn_eq` and `explainedIn_eq` are these equations.

To see that the counter stays within the limit, a `watch` is set behind every place where it is
raised. Above the limit it sounds an alarm, which may do anything at all. A parser with watches does
what the one without does (`watchedPipeline_apply`), so no alarm is ever sounded.
-/

set_option autoImplicit false

namespace PipeQuery.Parser

variable {α : Type} {limit depth headroom : Nat} {c : Context} {s : State}

/-! ### The counter and the limit -/

/-- A step one level deeper, if that is within the limit. -/
def nested (limit : Nat) (p : Parse α) : Parse α :=
  fun c s => if s.depth < limit then deeper p c s else tooDeep c s

/-- An expression of at least this power, as deep as the limit allows. -/
def expressionIn (limit minPower : Nat) : Parse Expr :=
  fun c s => expressionAt (limit - s.depth) minPower c s

/-- The commands between the brackets of an `EXPLAIN`, as deep as the limit allows. -/
def explainedIn (limit : Nat) : Parse (List Command) :=
  fun c s => explained (limit - s.depth) c s

/-- The command ahead, as deep as the limit allows. -/
def commandIn (limit : Nat) : Parse Command :=
  command (expressionIn limit) (explainedIn limit)

/-- To read an expression within the limit is steady. -/
theorem steady_expressionIn (limit minPower : Nat) : Steady (expressionIn limit minPower) :=
  fun c s => steady_expressionAt (limit - s.depth) minPower c s

/-- To read the pipeline of an `EXPLAIN` within it is steady. -/
theorem steady_explainedIn (limit : Nat) : Steady (explainedIn limit) :=
  fun c s => steady_explained (limit - s.depth) c s

/-- To read a command within it is steady. -/
theorem steady_commandIn (limit : Nat) : Steady (commandIn limit) :=
  steady_command (steady_expressionIn limit) (steady_explainedIn limit)

/-- At one level the levels left and the limit say the same. -/
theorem sameAt_expressionIn (h : depth + headroom = limit) (minPower : Nat) :
    SameAt depth id (expressionAt headroom minPower) (expressionIn limit minPower) := by
  intro c s hs
  have hheadroom : limit - s.depth = headroom := by omega
  rw [expressionIn, hheadroom]
  exact SameAt.self (steady_expressionAt headroom minPower) c s hs

/-- With as much headroom as there is up to the limit, `EXPLAIN` is read the same. -/
theorem sameAt_explainedIn (h : depth + headroom = limit) :
    SameAt depth id (explained headroom) (explainedIn limit) := by
  intro c s hs
  have hheadroom : limit - s.depth = headroom := by omega
  rw [explainedIn, hheadroom]
  exact SameAt.self (steady_explained headroom) c s hs

/-- So is a command. -/
theorem sameAt_commandIn (h : depth + headroom = limit) :
    SameAt depth id (command (expressionAt headroom) (explained headroom)) (commandIn limit) :=
  sameAt_command (sameAt_expressionIn h) (sameAt_explainedIn h)

/-- An expression is an operation over expressions one level deeper, unless the limit is reached. -/
theorem expressionIn_eq (limit minPower : Nat) :
    expressionIn limit minPower = nested limit (operation (expressionIn limit) minPower) := by
  funext c s
  unfold expressionIn nested
  split
  case isTrue hlt =>
    obtain ⟨headroom, hheadroom⟩ := Nat.exists_eq_add_of_lt hlt
    have hleft : limit - s.depth = headroom + 1 := by omega
    rw [hleft]
    exact ((sameAt_operation (sameAt_expressionIn (by omega)) minPower).deeper.eq rfl).symm
  case isFalse hge => rw [Nat.sub_eq_zero_of_le (Nat.le_of_not_lt hge), expressionAt]

/-- What an `EXPLAIN` holds is a pipeline one level deeper, unless the limit is reached. -/
theorem explainedIn_eq (limit : Nat) :
    explainedIn limit = nested limit (pipeline (commandIn limit) true) := by
  funext c s
  unfold explainedIn nested
  split
  case isTrue hlt =>
    obtain ⟨headroom, hheadroom⟩ := Nat.exists_eq_add_of_lt hlt
    have hleft : limit - s.depth = headroom + 1 := by omega
    rw [hleft]
    exact ((sameAt_pipeline (sameAt_commandIn (by omega)) true).deeper.eq rfl).symm
  case isFalse hge => rw [Nat.sub_eq_zero_of_le (Nat.le_of_not_lt hge), explained]

/-- The pipeline of a whole text is entered at level 0. -/
theorem wholePipeline_apply_limit (hs : s.depth = 0) :
    wholePipeline limit c s = pipeline (commandIn limit) false c s :=
  ((sameAt_pipeline (sameAt_commandIn (Nat.zero_add limit)) false).eq hs).symm

/-! ### Watches -/

/-- Sounds the alarm above the limit. -/
def watch (limit : Nat) (alarm : Parse Unit) : Parse Unit :=
  fun c s => if s.depth ≤ limit then (.ok (), s) else alarm c s

/-- `expressionAt` with a watch at every level. -/
def watchedExpressionAt (limit : Nat) (alarm : Parse Unit) : Nat → Nat → Parse Expr
  | 0, _ => tooDeep
  | headroom + 1, minPower => deeper do
    watch limit alarm
    operation (watchedExpressionAt limit alarm headroom) minPower

/-- `explained` with a watch at every level. -/
def watchedExplained (limit : Nat) (alarm : Parse Unit) : Nat → Parse (List Command)
  | 0 => tooDeep
  | headroom + 1 => deeper do
    watch limit alarm
    pipeline (command (watchedExpressionAt limit alarm headroom)
      (watchedExplained limit alarm headroom)) true

/-- `wholePipeline` with a watch at every level. -/
def watchedPipeline (limit : Nat) (alarm : Parse Unit) (maxDepth : Nat) : Parse (List Command) :=
  pipeline (command (watchedExpressionAt limit alarm maxDepth)
    (watchedExplained limit alarm maxDepth)) false

variable {alarm : Parse Unit}

/-- Within the limit a watch does nothing. -/
theorem SameAt.watched {f : α → α} {p p' : Parse α} (h : SameAt depth f p p')
    (hdepth : depth ≤ limit) : SameAt depth f p (do watch limit alarm; p') := by
  intro c s hs
  have hwatch : watch limit alarm c s = (.ok (), s) := if_pos (hs ▸ hdepth)
  rw [bind_apply_of_ok hwatch]
  exact h c s hs

/-- A watch behind every place where the counter is raised changes no expression. -/
theorem sameAt_watchedExpressionAt (h : depth + headroom ≤ limit) (minPower : Nat) :
    SameAt depth id (expressionAt headroom minPower)
      (watchedExpressionAt limit alarm headroom minPower) := by
  induction headroom generalizing depth minPower with
  | zero => exact SameAt.self steady_tooDeep
  | succ headroom ih =>
      exact ((sameAt_operation (ih (by omega)) minPower).watched (by omega)).deeper

/-- Nor does it change the pipeline of an `EXPLAIN`. -/
theorem sameAt_watchedExplained (h : depth + headroom ≤ limit) :
    SameAt depth id (explained headroom) (watchedExplained limit alarm headroom) := by
  induction headroom generalizing depth with
  | zero => exact SameAt.self steady_tooDeep
  | succ headroom ih =>
      have hcommand : SameAt (depth + 1) id (command (expressionAt headroom) (explained headroom))
          (command (watchedExpressionAt limit alarm headroom)
            (watchedExplained limit alarm headroom)) :=
        sameAt_command (sameAt_watchedExpressionAt (by omega)) (ih (by omega))
      exact ((sameAt_pipeline hcommand true).watched (by omega)).deeper

/-- No watch sounds the alarm over a whole text. -/
theorem watchedPipeline_apply (hs : s.depth = 0) :
    watchedPipeline limit alarm limit c s = wholePipeline limit c s :=
  (sameAt_pipeline (sameAt_command (sameAt_watchedExpressionAt (Nat.zero_add limit).le)
    (sameAt_watchedExplained (Nat.zero_add limit).le)) false).eq hs

end PipeQuery.Parser
