import PipeQuery.Proofs.Command.Steady

/-!
# `PipeQuery.Proofs.Command.Headroom`: more levels of nesting

A reader with more levels left does what one with fewer does, so long as that ends in a clean state.
This is a comparison of steps: a refused descent stops, and what stops is either recorded, so that
the state is not clean, or stands in an attempt, and no attempt of the parser descends. So it is
enough that a clean success carries over (`CarriesOver`), and the levels come in by induction.
-/

set_option autoImplicit false

namespace PipeQuery.Parser

variable {α β : Type} {c : Context} {s s' : State} {f : α → α} {g : β → β}

/-- Where the first step succeeds and leaves a clean state, the second one does the same. The first
one is steady. -/
def CarriesOver (f : α → α) (p p' : Parse α) : Prop :=
  Steady p ∧ ∀ {c : Context} {s s' : State} {a : α}, c.errorStarts = [] →
    p c s = (.ok a, s') → s'.IsClean → p' c s = (.ok (f a), s')

namespace CarriesOver

/-- A steady step carries over to itself. -/
theorem self {p : Parse α} (hp : Steady p) : CarriesOver id p p :=
  ⟨hp, fun _ h _ => h⟩

/-- A sequence carries over if its steps do: a clean state at the end was clean in between. -/
theorem bind {p p' : Parse α} {k k' : α → Parse β} (hp : CarriesOver f p p')
    (hk : ∀ a, CarriesOver g (k a) (k' (f a))) : CarriesOver g (p >>= k) (p' >>= k') := by
  refine ⟨hp.1.bind fun a => (hk a).1, fun herr h hclean => ?_⟩
  obtain ⟨a, s₁, hfirst, h⟩ := bind_ok.mp h
  have hclean₁ := ((hk a).1.onward h).isClean hclean
  rw [bind_apply_of_ok (hp.2 herr hfirst hclean₁)]
  exact (hk a).2 herr h hclean

/-- What stops is recorded, and no clean state is behind that. -/
theorem salvage {p p' : Parse α} (hp : CarriesOver f p p') (inBrackets : Bool) :
    CarriesOver (Option.map f) (salvage p inBrackets) (salvage p' inBrackets) := by
  refine ⟨hp.1.salvage inBrackets, fun {c s s' made} herr h hclean => ?_⟩
  rw [salvage_apply] at h ⊢
  generalize hfirst : p c s = outcome at h
  obtain ⟨result, s₁⟩ := outcome
  cases result with
  | ok a =>
      obtain ⟨hmade, rfl⟩ := Prod.mk.inj h
      rw [hp.2 herr hfirst hclean, ← Except.ok.inj hmade]
      rfl
  | error d =>
      obtain ⟨_, s₂, hrecord, h⟩ := bind_ok.mp h
      obtain ⟨_, s₃, hrecover, h⟩ := bind_ok.mp h
      obtain ⟨-, rfl⟩ := pure_ok.mp h
      exact absurd (((steady_recover inBrackets).onward hrecover).isClean hclean)
        (record_ok herr hrecord).2

/-- An attempt carries over, for where it fails nothing was recorded. -/
theorem attempt {p : Parse (Option α)} (hp : CarriesOver (Option.map f) p p) :
    CarriesOver (Option.map f) (attempt p) (attempt p) := by
  refine ⟨hp.1.attempt, fun {c s s' r} herr h hclean => ?_⟩
  cases r with
  | none => exact h
  | some a =>
      -- An attempt has an answer only if the step has it, and that one is its own image.
      have hstep : p c s = (.ok (some a), s') := by
        unfold Parser.attempt at h
        split at h
        · next heq => rw [heq, h]
        · simp at h
      obtain ⟨heq, -⟩ := Prod.mk.inj (hstep.symm.trans (hp.2 herr hstep hclean))
      rw [h, heq]

/-- One level deeper, what carries over carries over. -/
theorem deeper {p p' : Parse α} (hp : CarriesOver f p p') :
    CarriesOver f (deeper p) (deeper p') := by
  refine ⟨hp.1.deeper, fun herr h hclean => ?_⟩
  obtain ⟨s₁, hstep, rfl⟩ := deeper_ok h
  unfold Parser.deeper
  rw [hp.2 herr hstep hclean]

end CarriesOver

/-- Two steps are compared by what carries over from the first to the second. -/
def Lockstep.carriesOver : Lockstep :=
  .still CarriesOver CarriesOver.self
    (fun a => ⟨steady_pure a, fun _ h _ => by obtain ⟨rfl, rfl⟩ := pure_ok.mp h; rfl⟩)
    (fun d => ⟨steady_stop d, fun _ h _ => (stop_ok.mp h).elim⟩)
    CarriesOver.bind CarriesOver.salvage CarriesOver.attempt

/-- To carry over keeps spans where they are. -/
theorem isStill_carriesOver : Lockstep.carriesOver.IsStill :=
  ⟨rfl, rfl, CarriesOver.self⟩

/-! ### Readers with more levels left -/

/-- A descent that is refused never succeeds. -/
theorem carriesOver_tooDeep (p : Parse α) : CarriesOver id tooDeep p :=
  ⟨steady_tooDeep, fun _ h _ => by simp [tooDeep, bind_ok, stop_ok] at h⟩

/-- An expression that is read with some headroom is read to the same with more. -/
theorem carriesOver_expressionAt {headroom headroom' : Nat} (h : headroom ≤ headroom')
    (minPower : Nat) :
    CarriesOver id (expressionAt headroom minPower) (expressionAt headroom' minPower) := by
  induction headroom generalizing headroom' minPower with
  | zero => exact carriesOver_tooDeep _
  | succ headroom ih =>
      obtain ⟨headroom', rfl⟩ := Nat.exists_eq_add_one.mpr (Nat.zero_lt_of_lt h)
      exact (isStill_carriesOver.relates_operation
        (fun power => ih (Nat.le_of_succ_le_succ h) power) minPower).deeper

/-- So is the pipeline of an `EXPLAIN`. -/
theorem carriesOver_explained {headroom headroom' : Nat} (h : headroom ≤ headroom') :
    CarriesOver id (explained headroom) (explained headroom') := by
  induction headroom generalizing headroom' with
  | zero => exact carriesOver_tooDeep _
  | succ headroom ih =>
      obtain ⟨headroom', rfl⟩ := Nat.exists_eq_add_one.mpr (Nat.zero_lt_of_lt h)
      have hle := Nat.le_of_succ_le_succ h
      exact (isStill_carriesOver.relates_pipeline (isStill_carriesOver.relates_command
        (carriesOver_expressionAt hle) (ih hle)) true).deeper

/-- And so is a whole query, whatever the greater limit is. -/
theorem carriesOver_wholePipeline {maxDepth maxDepth' : Nat} (h : maxDepth ≤ maxDepth') :
    CarriesOver id (wholePipeline maxDepth) (wholePipeline maxDepth') :=
  isStill_carriesOver.relates_pipeline (isStill_carriesOver.relates_command
    (carriesOver_expressionAt h) (carriesOver_explained h)) false

/-- A query that is read in a clean way is read the same with a higher limit. -/
theorem query_of_le {maxDepth maxDepth' : Nat} (hle : maxDepth ≤ maxDepth')
    (herr : c.errorStarts = []) {openBracket : Bool} {q : Query}
    (h : query maxDepth false openBracket c s = (.ok q, s')) (hclean : s'.IsClean) :
    query maxDepth' false openBracket c s = (.ok q, s') := by
  obtain ⟨commands, s₁, hcommands⟩ := total_wholePipeline maxDepth c s
  obtain ⟨s₂, hquery, hboth⟩ := query_of_wholePipeline hcommands false openBracket
  obtain ⟨hq, rfl⟩ := Prod.mk.inj (hquery.symm.trans h)
  have hclean₁ := ((hboth herr rfl).1.mp hclean).1
  have hcommands' := (carriesOver_wholePipeline hle).2 herr hcommands hclean₁
  rw [← h, query, query, bind_apply_of_ok hcommands, bind_apply_of_ok hcommands']
  rfl

end PipeQuery.Parser
