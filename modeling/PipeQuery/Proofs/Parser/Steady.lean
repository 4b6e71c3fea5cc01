import PipeQuery.Proofs.Parser.Lockstep

/-!
# `PipeQuery.Proofs.Parser.Steady`: what no step does

Whatever comes of a step, an answer or a diagnostic, it only takes lexemes from the front, only adds
diagnostics, and leaves the level of nesting as it was (`Steady`). This is so because the level is
raised in `deeper` alone, which lowers it again on either way out.

The steps below that are made of no others are steady, so a comparison of steps that keep their
spans is given by few rules: `Lockstep.still`. The first such comparison is `level`: two steps do the
same in all states of one level of nesting. A steady step that is entered there calls the readers
one level deeper in states of that level only.
-/

set_option autoImplicit false

namespace PipeQuery.Parser

open Diagnostic (Cause)

variable {α β : Type} {c : Context} {s s₁ s' : State}

/-! ### Steady steps -/

/-- A state that a step may lead to. -/
structure State.Onward (s s' : State) : Prop where
  rest : s'.rest <:+ s.rest
  depth : s'.depth = s.depth
  recorded : s.recorded <:+ s'.recorded

/-- Every state leads onward to itself. -/
theorem State.Onward.refl (s : State) : s.Onward s :=
  ⟨List.suffix_refl _, rfl, List.suffix_refl _⟩

/-- Onward from a state onward is onward. -/
theorem State.Onward.trans (h : s.Onward s₁) (h' : s₁.Onward s') : s.Onward s' :=
  ⟨h'.rest.trans h.rest, h'.depth.trans h.depth, h.recorded.trans h'.recorded⟩

/-- A move leads onward. -/
theorem Moves.onward {w : List Lexeme} (h : Moves s w s') : s.Onward s' :=
  ⟨h.rest_eq ▸ List.suffix_append w s'.rest, h.depth_eq, h.grown⟩

/-- A state that is clean was clean before, since diagnostics are never taken back. -/
theorem State.Onward.isClean (h : s.Onward s') (hclean : s'.IsClean) : s.IsClean :=
  List.suffix_nil.mp (hclean ▸ h.recorded)

/-- Whatever comes of the step, it leads onward. -/
def Steady (p : Parse α) : Prop :=
  ∀ (c : Context) (s : State), s.Onward (p c s).2

/-- The state that a steady step is seen to lead to is onward. -/
theorem Steady.onward {p : Parse α} (hp : Steady p) {r : Except Diagnostic α}
    (h : p c s = (r, s')) : s.Onward s' := by
  have honward := hp c s
  rwa [h] at honward

/-- A constant is steady. -/
theorem steady_pure (a : α) : Steady (pure a : Parse α) :=
  fun _ s => .refl s

/-- A stop is steady: it keeps the state in which it stops. -/
theorem steady_stop (d : Diagnostic) : Steady (.stop d : Parse α) :=
  fun _ s => .refl s

/-- A look at the state is steady. -/
theorem steady_look (f : Context → State → α) : Steady (.look f) :=
  fun _ s => .refl s

/-- A sequence of steady steps is steady, also when the first one stops. -/
theorem Steady.bind {p : Parse α} {f : α → Parse β} (hp : Steady p) (hf : ∀ a, Steady (f a)) :
    Steady (p >>= f) := by
  intro c s
  have hfirst := hp c s
  rw [Parse.bind_apply]
  generalize p c s = outcome at hfirst ⊢
  obtain ⟨result, s₁⟩ := outcome
  cases result with
  | ok a => exact hfirst.trans (hf a c s₁)
  | error d => exact hfirst

/-- A choice between steady steps is steady. -/
theorem Steady.ite {p q : Parse α} {b : Prop} [Decidable b] (hp : Steady p) (hq : Steady q) :
    Steady (if b then p else q) := by
  split
  · exact hp
  · exact hq

/-- The taking of a token is steady, and at the end it takes none. -/
theorem steady_advance : Steady advance := by
  intro c s
  unfold advance
  split
  case h_1 => exact .refl s
  case h_2 l rest hrest => exact ⟨hrest ▸ List.suffix_cons l rest, rfl, List.suffix_refl _⟩

/-- A token that may be taken is taken by a steady step. -/
theorem steady_eat (kind : Token.Kind) : Steady (eat kind) :=
  (steady_look _).bind fun _ => .ite (steady_advance.bind fun _ => steady_pure _) (steady_pure _)

/-- The colon of an index pattern is looked for by a steady step. -/
theorem steady_colon : Steady colon :=
  (steady_look _).bind fun _ => (steady_eat _).bind fun _ =>
    .ite ((steady_look _).bind fun _ => steady_pure _) (steady_pure _)

/-- A record adds a diagnostic or leaves the state as it is. -/
theorem steady_record (d : Diagnostic) : Steady (record d) := by
  intro c s
  unfold record
  split
  · exact .refl s
  · exact ⟨List.suffix_refl _, rfl, List.suffix_cons _ _⟩

/-- A report is steady as the record of its diagnostic is. -/
theorem steady_report (cause : Cause) (span : Span) : Steady (report cause span) :=
  (steady_look _).bind fun d => steady_record d

/-- A look for what was expected is steady. -/
theorem steady_expected (what : String) : Steady (expected what) :=
  (steady_look _).bind fun _ => steady_pure _

/-- What is passed over is taken from the front. -/
theorem resumption_suffix (inBrackets : Bool) (depth prevEnd : Nat) (rest : List Lexeme) :
    (resumption inBrackets depth prevEnd rest).1 <:+ rest := by
  induction rest generalizing depth prevEnd with
  | nil => exact List.suffix_refl _
  | cons l rest ih =>
      have hmore : ∀ depth prevEnd, (resumption inBrackets depth prevEnd rest).1 <:+ l :: rest :=
        fun depth prevEnd => (ih depth prevEnd).trans (List.suffix_cons l rest)
      rw [resumption]
      split
      · exact List.suffix_refl _
      · exact hmore _ _
      · split
        · exact List.suffix_refl _
        · exact hmore _ _
      · exact hmore _ _

/-- A recovery only takes lexemes. -/
theorem steady_recover (inBrackets : Bool) : Steady (recover inBrackets) :=
  fun _ s => ⟨resumption_suffix inBrackets 0 s.prevEnd s.rest, rfl, List.suffix_refl _⟩

/-- An attempt that fails goes back to where it began, and that is onward as well. -/
theorem Steady.attempt {p : Parse (Option α)} (hp : Steady p) : Steady (attempt p) := by
  intro c s
  have honward := hp c s
  unfold Parser.attempt
  generalize p c s = outcome at honward ⊢
  obtain ⟨result, s₁⟩ := outcome
  match result with
  | .ok (some a) => exact honward
  | .ok none => exact ⟨List.suffix_refl _, honward.depth, honward.recorded⟩
  | .error d => exact ⟨List.suffix_refl _, honward.depth, honward.recorded⟩

/-- To catch a diagnostic is steady: the state is that of the step that stopped. -/
theorem Steady.caught {p : Parse α} (hp : Steady p) : Steady (caught p) :=
  fun c s => hp c s

/-- A salvaged step is steady, on either way. -/
theorem Steady.salvage {p : Parse α} (hp : Steady p) (inBrackets : Bool) :
    Steady (salvage p inBrackets) := by
  refine hp.caught.bind fun result => ?_
  cases result with
  | ok a => exact steady_pure _
  | error d =>
      exact (steady_record d).bind fun _ => (steady_recover _).bind fun _ => steady_pure _

/-- The level is lowered again whether the step stops or not. -/
theorem Steady.deeper {p : Parse α} (hp : Steady p) : Steady (deeper p) := by
  intro c s
  have honward := hp c { s with depth := s.depth + 1 }
  refine ⟨honward.rest, ?_, honward.recorded⟩
  show (p c { s with depth := s.depth + 1 }).2.depth - 1 = s.depth
  rw [honward.depth, Nat.add_sub_cancel]

/-- The stop at the limit of nesting is steady. -/
theorem steady_tooDeep : Steady (tooDeep : Parse α) :=
  Steady.bind (p := Parse.state) (fun _ s => .refl s) fun _ =>
    (steady_look _).bind fun _ => steady_stop _

/-! ### Comparisons that keep spans -/

/-- A comparison of steps with the same spans. A steady step that is made of no others fits itself,
so only the ways to make steps of others have to be given. -/
def Lockstep.still (relates : {α : Type} → (α → α) → Parse α → Parse α → Prop)
    (relates_self : ∀ {α : Type} {p : Parse α}, Steady p → relates id p p)
    (relates_pure : ∀ {α : Type} {f : α → α} (a : α), relates f (pure a) (pure (f a)))
    (relates_stop : ∀ {α : Type} {f : α → α} (d : Diagnostic), relates f (.stop d) (.stop d))
    (relates_bind : ∀ {α β : Type} {f : α → α} {g : β → β} {p p' : Parse α}
      {k k' : α → Parse β}, relates f p p' → (∀ a, relates g (k a) (k' (f a))) →
        relates g (p >>= k) (p' >>= k'))
    (relates_salvage : ∀ {α : Type} {f : α → α} {read read' : Parse α}, relates f read read' →
      ∀ inBrackets, relates (Option.map f) (salvage read inBrackets) (salvage read' inBrackets))
    (relates_attempt : ∀ {α : Type} {f : α → α} {p : Parse (Option α)},
      relates (Option.map f) p p → relates (Option.map f) (attempt p) (attempt p)) : Lockstep where
  place := id
  token := id
  diagnostic := id
  relates := relates
  place_merge _ _ := rfl
  place_point _ := rfl
  token_kind _ := rfl
  token_text _ := rfl
  token_span _ := rfl
  diagnostic_onToken _ _ := rfl
  relates_pure := relates_pure
  relates_bind := relates_bind
  relates_stop := relates_stop
  relates_current := relates_self (steady_look _)
  relates_peek := relates_self (steady_look _)
  relates_peekSecond := relates_self (steady_look _)
  relates_remaining := relates_self (steady_look _)
  relates_advance := relates_self steady_advance
  relates_colon := relates_self steady_colon
  relates_spanFrom _ := relates_self (steady_look _)
  relates_located _ _ := relates_self (steady_look _)
  relates_record d := relates_self (steady_record d)
  relates_recover inBrackets := relates_self (steady_recover inBrackets)
  relates_salvage := relates_salvage
  relates_attempt := relates_attempt

/-! ### The same at one level -/

/-- The outcome with another answer, if there is one. -/
def mapAnswer (f : α → β) (outcome : Except Diagnostic α × State) :
    Except Diagnostic β × State :=
  (outcome.1.map f, outcome.2)

/-- Two steps do the same in the states of one level, and go onward from there. -/
def SameAt (depth : Nat) (f : α → α) (p p' : Parse α) : Prop :=
  ∀ (c : Context) (s : State),
    s.depth = depth → s.Onward (p c s).2 ∧ p' c s = mapAnswer f (p c s)

namespace SameAt

variable {depth : Nat} {f : α → α} {g : β → β}

/-- A steady step does the same as itself. -/
theorem self {p : Parse α} (hp : Steady p) : SameAt depth id p p := by
  intro c s _
  refine ⟨hp c s, ?_⟩
  obtain ⟨result, s₁⟩ := p c s
  cases result <;> rfl

/-- Two sequences do the same in a level if their steps do, as the first leads to no other level. -/
theorem bind {p p' : Parse α} {k k' : α → Parse β} (hp : SameAt depth f p p')
    (hk : ∀ a, SameAt depth g (k a) (k' (f a))) : SameAt depth g (p >>= k) (p' >>= k') := by
  intro c s hs
  obtain ⟨honward, hsame⟩ := hp c s hs
  rw [Parse.bind_apply, Parse.bind_apply, hsame]
  generalize p c s = outcome at honward ⊢
  obtain ⟨result, s₁⟩ := outcome
  cases result with
  | ok a =>
      obtain ⟨honward', hsame'⟩ := hk a c s₁ (honward.depth.trans hs)
      exact ⟨honward.trans honward', hsame'⟩
  | error d => exact ⟨honward, rfl⟩

/-- Salvaged, two steps do the same, for the recovery goes by the state alone. -/
theorem salvage {p p' : Parse α} (hp : SameAt depth f p p') (inBrackets : Bool) :
    SameAt depth (Option.map f) (salvage p inBrackets) (salvage p' inBrackets) := by
  intro c s hs
  obtain ⟨honward, hsame⟩ := hp c s hs
  rw [salvage_apply, salvage_apply, hsame]
  generalize p c s = outcome at honward ⊢
  obtain ⟨result, s₁⟩ := outcome
  cases result with
  | ok a => exact ⟨honward, rfl⟩
  | error d =>
      obtain ⟨_, s₂, hrecord⟩ := total_record d c s₁
      obtain ⟨_, s₃, hrecover⟩ := total_recover inBrackets c s₂
      simp only [mapAnswer, Except.map, bind_apply_of_ok hrecord, bind_apply_of_ok hrecover]
      exact ⟨honward.trans (((steady_record d).onward hrecord).trans
        ((steady_recover inBrackets).onward hrecover)), rfl⟩

/-- An attempt does the same as itself, whatever it goes back to. -/
theorem attempt {p : Parse (Option α)} (hp : SameAt depth (Option.map f) p p) :
    SameAt depth (Option.map f) (attempt p) (attempt p) := by
  intro c s hs
  obtain ⟨honward, hsame⟩ := hp c s hs
  unfold Parser.attempt
  generalize p c s = outcome at honward hsame ⊢
  obtain ⟨result, s₁⟩ := outcome
  match result with
  | .ok (some a) => exact ⟨honward, hsame⟩
  | .ok none => exact ⟨⟨List.suffix_refl _, honward.depth, honward.recorded⟩, rfl⟩
  | .error d => exact ⟨⟨List.suffix_refl _, honward.depth, honward.recorded⟩, rfl⟩

/-- Steps that do the same one level deeper. -/
theorem deeper {p p' : Parse α} (hp : SameAt (depth + 1) f p p') :
    SameAt depth f (deeper p) (deeper p') := by
  intro c s hs
  obtain ⟨honward, hsame⟩ := hp c { s with depth := s.depth + 1 } (congrArg (· + 1) hs)
  refine ⟨⟨honward.rest, ?_, honward.recorded⟩, ?_⟩
  · show (p c { s with depth := s.depth + 1 }).2.depth - 1 = s.depth
    rw [honward.depth, Nat.add_sub_cancel]
  · unfold Parser.deeper
    rw [hsame]
    rfl

/-- In a state of its level a step may be replaced by the other one. -/
theorem eq {p p' : Parse α} (hp : SameAt depth id p p') (hs : s.depth = depth) :
    p' c s = p c s := by
  rw [(hp c s hs).2]
  obtain ⟨result, s₁⟩ := p c s
  cases result <;> rfl

end SameAt

/-- Two steps are compared in the states of one level of nesting. -/
def Lockstep.level (depth : Nat) : Lockstep :=
  .still (SameAt depth) SameAt.self (fun _ _ s _ => ⟨.refl s, rfl⟩)
    (fun _ _ s _ => ⟨.refl s, rfl⟩) SameAt.bind SameAt.salvage SameAt.attempt

end PipeQuery.Parser
