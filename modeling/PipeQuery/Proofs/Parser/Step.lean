import PipeQuery.Parser.Name

/-!
# `PipeQuery.Proofs.Parser.Step`: runs of the parser, step by step

A successful step takes some lexemes and leaves the rest. `Moves s w s'` says that it took `w` and
what else may have changed: diagnostics may have been added, the depth is as before. `State.past`
is the state behind `w` when none was added. The steps of `PipeQuery.Parser.Basic` are described
in these terms, once for what a success tells (`…_ok`) and once for what makes a success
(`…_apply`).
-/

set_option autoImplicit false

namespace PipeQuery

namespace Parser

variable {α β : Type} {c : Context} {s s' : State}

/-! ### The state behind some lexemes -/

/-- Where the last of the lexemes ends, `before` if there is none. -/
def lastStop (w : List Lexeme) (before : Nat) : Nat :=
  (w.getLast?.map fun l => l.token.span.stop).getD before

/-- The kind of the `n`-th lexeme, `eof` behind the last. -/
def kindIn (w : List Lexeme) (n : Nat) : Token.Kind :=
  match w[n]? with
  | some l => l.token.kind
  | none => .eof

/-- The state behind the next lexemes. -/
def State.past (s : State) (w : List Lexeme) : State :=
  { s with rest := s.rest.drop w.length, prevEnd := lastStop w s.prevEnd }

/-- With no lexeme ahead the parser sees the end. -/
@[simp]
theorem kindIn_nil (n : Nat) : kindIn [] n = .eof := rfl

/-- The first lexeme ahead is the one the parser decides on. -/
@[simp]
theorem kindIn_cons_zero (l : Lexeme) (w : List Lexeme) : kindIn (l :: w) 0 = l.token.kind := rfl

/-- The look past the first lexeme is a look into the rest. -/
@[simp]
theorem kindIn_cons_succ (l : Lexeme) (w : List Lexeme) (n : Nat) :
    kindIn (l :: w) (n + 1) = kindIn w n := rfl

/-- What the parser sees ahead depends on the lexemes ahead only. -/
theorem kindAt_eq (s : State) (n : Nat) : s.kindAt n = kindIn s.rest n := rfl

/-- Where nothing was taken, the end is the one from before. -/
@[simp]
theorem lastStop_nil (before : Nat) : lastStop [] before = before := rfl

/-- Where something was taken, the end is that of its last lexeme. -/
@[simp]
theorem lastStop_concat (w : List Lexeme) (l : Lexeme) (before : Nat) :
    lastStop (w ++ [l]) before = l.token.span.stop := by
  simp [lastStop]

/-- One lexeme ends where its token does. -/
@[simp]
theorem lastStop_singleton (l : Lexeme) (before : Nat) :
    lastStop [l] before = l.token.span.stop := rfl

/-- Two takings, one behind the other, end where the second does, or the first if the second is
empty. -/
theorem lastStop_append (w w' : List Lexeme) (before : Nat) :
    lastStop (w ++ w') before = lastStop w' (lastStop w before) := by
  rcases List.eq_nil_or_concat w' with rfl | ⟨init, l, rfl⟩
  · rw [List.append_nil, lastStop_nil]
  · rw [List.concat_eq_append, ← List.append_assoc, lastStop_concat, lastStop_concat]

/-- Behind at least one lexeme it does not matter what was before. -/
theorem lastStop_of_ne_nil {w : List Lexeme} (h : w ≠ []) (before before' : Nat) :
    lastStop w before = lastStop w before' := by
  obtain ⟨init, l, rfl⟩ := (List.eq_nil_or_concat w).resolve_left h
  rw [List.concat_eq_append, lastStop_concat, lastStop_concat]

/-- To go past lexemes records nothing. -/
@[simp]
theorem past_recorded (w : List Lexeme) : (s.past w).recorded = s.recorded := rfl

/-- It moves the end of the last token to that of the last lexeme passed. -/
@[simp]
theorem past_prevEnd (w : List Lexeme) : (s.past w).prevEnd = lastStop w s.prevEnd := rfl

/-- Behind no lexemes the state is as before. -/
theorem past_nil (s : State) : s.past [] = s := rfl

/-- It leaves the lexemes behind the ones passed. -/
theorem past_rest {w rest : List Lexeme} (h : s.rest = w ++ rest) : (s.past w).rest = rest := by
  rw [State.past, h, List.drop_left]

/-- To pass two stretches of lexemes is to pass them as one. -/
@[simp]
theorem past_past (s : State) (w w' : List Lexeme) : (s.past w).past w' = s.past (w ++ w') := by
  simp only [State.past, List.drop_drop, List.length_append, lastStop_append]

/-- A success that takes the lexemes `w` leads from `s` to `s'`. Diagnostics may be added. -/
structure Moves (s : State) (w : List Lexeme) (s' : State) : Prop where
  rest_eq : s.rest = w ++ s'.rest
  prevEnd_eq : s'.prevEnd = lastStop w s.prevEnd
  depth_eq : s'.depth = s.depth
  grown : s.recorded <:+ s'.recorded

namespace Moves

/-- A step that takes nothing and records nothing moves by no lexemes. -/
theorem refl (s : State) : Moves s [] s :=
  ⟨rfl, rfl, rfl, List.suffix_refl _⟩

/-- What two moves take stands one behind the other. -/
theorem trans {s₁ s₂ s₃ : State} {w w' : List Lexeme} (h : Moves s₁ w s₂) (h' : Moves s₂ w' s₃) :
    Moves s₁ (w ++ w') s₃ where
  rest_eq := by rw [h.rest_eq, h'.rest_eq, List.append_assoc]
  prevEnd_eq := by rw [h'.prevEnd_eq, h.prevEnd_eq, lastStop_append]
  depth_eq := h'.depth_eq.trans h.depth_eq
  grown := h.grown.trans h'.grown

/-- To go past lexemes is a move by them. -/
theorem past {w rest : List Lexeme} (h : s.rest = w ++ rest) : Moves s w (s.past w) :=
  ⟨by rw [past_rest h, h], rfl, rfl, List.suffix_refl _⟩

/-- A move takes as many lexemes as there are fewer ahead. -/
theorem length_eq {w : List Lexeme} (h : Moves s w s') :
    s.rest.length = w.length + s'.rest.length := by
  rw [h.rest_eq, List.length_append]

/-- Nothing but the lexemes is told of the way if nothing was recorded on it. -/
theorem eq_past {w : List Lexeme} (h : Moves s w s') (hrecorded : s'.recorded = s.recorded) :
    s' = s.past w := by
  obtain ⟨rest, prevEnd, depth, recorded⟩ := s'
  obtain ⟨hrest, rfl, rfl, -⟩ := h
  rw [State.past, hrest, List.drop_left, ← hrecorded]

/-- What was not recorded in the end was never recorded. -/
theorem recorded_eq_nil {w : List Lexeme} (h : Moves s w s') (hnil : s'.recorded = []) :
    s.recorded = [] :=
  List.suffix_nil.mp (hnil ▸ h.grown)

end Moves

/-! ### What a success tells -/

/-- A sequence of two steps succeeds just if both do, the second from where the first ends. -/
theorem bind_ok {p : Parse α} {f : α → Parse β} {b : β} :
    (p >>= f) c s = (.ok b, s') ↔ ∃ a s₁, p c s = (.ok a, s₁) ∧ f a c s₁ = (.ok b, s') := by
  rw [Parse.bind_apply]
  constructor
  · intro h
    split at h
    · exact ⟨_, _, ‹_›, h⟩
    · exact absurd (congrArg Prod.fst h) (by simp)
  · rintro ⟨a, s₁, hp, hf⟩
    rw [hp]
    exact hf

/-- A constant succeeds with itself and changes nothing. -/
theorem pure_ok {a b : α} : (pure a : Parse α) c s = (.ok b, s') ↔ a = b ∧ s = s' := by
  simp

/-- A look at the state succeeds with what it sees and changes nothing. -/
theorem look_ok {f : Context → State → α} {b : α} :
    Parse.look f c s = (.ok b, s') ↔ f c s = b ∧ s = s' := by
  simp [Parse.look]

/-- A stop never succeeds. -/
theorem stop_ok {d : Diagnostic} {b : α} : Parse.stop d c s = (.ok b, s') ↔ False := by
  simp [Parse.stop]

/-- Nor does a report of what was expected. -/
theorem unexpected_ok {what : String} {b : α} : unexpected what c s = (.ok b, s') ↔ False := by
  simp [unexpected, bind_ok, stop_ok]

/-- A token ahead of some kind is a lexeme unless it ends the text. -/
theorem exists_lexeme {kind : Token.Kind} (h : s.kindAt 0 = kind) (hkind : kind ≠ .eof) :
    ∃ l rest, s.rest = l :: rest ∧ l.token.kind = kind := by
  rw [kindAt_eq] at h
  cases hrest : s.rest with
  | nil => rw [hrest] at h; exact absurd h.symm hkind
  | cons l rest => rw [hrest] at h; exact ⟨l, rest, rfl, h⟩

/-- The token ahead is a lexeme unless it is the one that ends the text. -/
theorem current_eq {kind : Token.Kind} (hend : c.endToken.kind = .eof)
    (h : (s.current c).kind = kind) (hkind : kind ≠ .eof) :
    ∃ l rest, s.rest = l :: rest ∧ l.token.kind = kind ∧ s.current c = l.token := by
  unfold State.current at h ⊢
  cases hrest : s.rest with
  | nil => rw [hrest] at h; exact absurd (h.symm.trans hend) hkind
  | cons l rest => rw [hrest] at h; exact ⟨l, rest, rfl, h, rfl⟩

/-- A look at the state and then a step that goes by it. -/
theorem bind_look (f : Context → State → α) (g : α → Parse β) :
    (Parse.look f >>= g) c s = g (f c s) c s := rfl

/-- The current token is a look at the state. -/
theorem current_run (c : Context) (s : State) : current c s = (.ok (s.current c), s) := rfl

/-- With a lexeme ahead the current token is the lexeme's. -/
theorem current_apply {l : Lexeme} {rest : List Lexeme} (h : s.rest = l :: rest) :
    current c s = (.ok l.token, s) := by
  simp [current, Parse.look, State.current, h]

/-- With a lexeme ahead it is returned and passed. -/
theorem advance_apply {l : Lexeme} {rest : List Lexeme} (h : s.rest = l :: rest) :
    advance c s = (.ok l.token, s.past [l]) := by
  simp [advance, h, State.past]

/-- A token that was taken is that of the first lexeme ahead, and the state moved by this one. -/
theorem advance_ok {l : Lexeme} {rest : List Lexeme} {t : Token} (hrest : s.rest = l :: rest)
    (h : advance c s = (.ok t, s')) : t = l.token ∧ Moves s [l] s' := by
  rw [advance_apply hrest] at h
  obtain ⟨⟩ := h
  exact ⟨rfl, Moves.past (w := [l]) hrest⟩

/-- A check looks at the kind of the first token ahead and changes nothing. -/
theorem check_ok {kind : Token.Kind} {b : Bool} :
    check kind c s = (.ok b, s') ↔ decide (s.kindAt 0 = kind) = b ∧ s = s' :=
  look_ok

/-- A token that was eaten has the kind; one that was not has another. -/
theorem eat_ok {kind : Token.Kind} (hkind : kind ≠ .eof) {b : Bool}
    (h : eat kind c s = (.ok b, s')) :
    (b = true ∧ ∃ l, l.token.kind = kind ∧ Moves s [l] s') ∨
      (b = false ∧ s.kindAt 0 ≠ kind ∧ s' = s) := by
  obtain ⟨b', s₁, hcheck, h⟩ := bind_ok.mp h
  obtain ⟨rfl, rfl⟩ := check_ok.mp hcheck
  by_cases hahead : s.kindAt 0 = kind
  · simp only [hahead, decide_true, if_true] at h
    obtain ⟨l, rest, hrest, hl⟩ := exists_lexeme hahead hkind
    obtain ⟨t, s₂, hadvance, h⟩ := bind_ok.mp h
    obtain ⟨rfl, rfl⟩ := pure_ok.mp h
    exact .inl ⟨rfl, l, hl, (advance_ok hrest hadvance).2⟩
  · simp only [hahead, decide_false, Bool.false_eq_true, if_false] at h
    obtain ⟨rfl, rfl⟩ := pure_ok.mp h
    exact .inr ⟨rfl, hahead, rfl⟩

/-- A token that was demanded is there, of its kind. The end token is left out since it is never
passed. -/
theorem expect_ok {kind : Token.Kind} (hkind : kind ≠ .eof) {what : String} {t : Token}
    (h : expect kind what c s = (.ok t, s')) :
    ∃ l, l.token.kind = kind ∧ t = l.token ∧ Moves s [l] s' := by
  obtain ⟨b', s₁, hcheck, h⟩ := bind_ok.mp h
  obtain ⟨rfl, rfl⟩ := check_ok.mp hcheck
  by_cases hahead : s.kindAt 0 = kind
  · simp only [hahead, decide_true, if_true] at h
    obtain ⟨l, rest, hrest, hl⟩ := exists_lexeme hahead hkind
    obtain ⟨rfl, hmoves⟩ := advance_ok hrest h
    exact ⟨l, hl, rfl, hmoves⟩
  · simp only [hahead, decide_false, Bool.false_eq_true, if_false] at h
    exact (unexpected_ok.mp h).elim

/-- The span from a node's first token ends at the last token taken, or at the first one's end. -/
theorem spanFrom_ok {first span : Span} :
    spanFrom first c s = (.ok span, s') ↔ ⟨first.start, max s.prevEnd first.stop⟩ = span ∧ s = s' :=
  look_ok

/-- A step one level deeper moves as the step does. -/
theorem deeper_ok {p : Parse α} {a : α} (h : deeper p c s = (.ok a, s')) :
    ∃ s₁, p c { s with depth := s.depth + 1 } = (.ok a, s₁) ∧
      s' = { s₁ with depth := s₁.depth - 1 } := by
  unfold deeper at h
  generalize hp : p c { s with depth := s.depth + 1 } = r at h
  obtain ⟨result, s₁⟩ := r
  obtain ⟨rfl, rfl⟩ := Prod.mk.inj h
  exact ⟨s₁, rfl, rfl⟩

/-- One level deeper and back is a move by what was taken there. -/
theorem Moves.of_deeper {s₁ : State} {w : List Lexeme}
    (h : Moves { s with depth := s.depth + 1 } w s₁) : Moves s w { s₁ with depth := s₁.depth - 1 } :=
  ⟨h.rest_eq, h.prevEnd_eq, by simp [h.depth_eq], h.grown⟩

/-! ### What makes a success -/

/-- A step that succeeds hands its result and its state to the next. -/
theorem bind_apply_of_ok {p : Parse α} {f : α → Parse β} {a : α} (h : p c s = (.ok a, s')) :
    (p >>= f) c s = f a c s' := by
  rw [Parse.bind_apply, h]

/-- A check always succeeds, whatever is ahead. -/
theorem check_apply (kind : Token.Kind) :
    check kind c s = (.ok (decide (s.kindAt 0 = kind)), s) := rfl

/-- A token of the kind asked for is taken. -/
theorem eat_apply {l : Lexeme} {rest : List Lexeme} (h : s.rest = l :: rest) {kind : Token.Kind}
    (hkind : l.token.kind = kind) : eat kind c s = (.ok true, s.past [l]) := by
  have hahead : s.kindAt 0 = kind := by rw [kindAt_eq, h, kindIn_cons_zero, hkind]
  unfold eat
  rw [bind_apply_of_ok (check_apply kind), hahead]
  simp only [decide_true, if_true]
  rw [bind_apply_of_ok (advance_apply h)]
  rfl

/-- A token of another kind is left where it is. -/
theorem eat_apply_of_ne {kind : Token.Kind} (h : s.kindAt 0 ≠ kind) :
    eat kind c s = (.ok false, s) := by
  unfold eat
  rw [bind_apply_of_ok (check_apply kind)]
  simp only [h, decide_false, Bool.false_eq_true, if_false]
  rfl

/-- A token of the kind demanded is taken and returned. -/
theorem expect_apply {l : Lexeme} {rest : List Lexeme} (h : s.rest = l :: rest)
    {kind : Token.Kind} (hkind : l.token.kind = kind) (what : String) :
    expect kind what c s = (.ok l.token, s.past [l]) := by
  have hahead : s.kindAt 0 = kind := by rw [kindAt_eq, h, kindIn_cons_zero, hkind]
  unfold expect
  rw [bind_apply_of_ok (check_apply kind), hahead]
  simp only [decide_true, if_true]
  exact advance_apply h

/-- The number of lexemes ahead, which bounds the loops of the parser. -/
theorem remaining_apply : remaining c s = (.ok s.rest.length, s) := rfl

/-- The span from a node's first token, as a step that always succeeds. -/
theorem spanFrom_apply (first : Span) :
    spanFrom first c s = (.ok ⟨first.start, max s.prevEnd first.stop⟩, s) := rfl

/-- A step that moves does so one level deeper. -/
theorem deeper_apply {p : Parse α} {a : α} {w : List Lexeme}
    (h : p c { s with depth := s.depth + 1 } =
      (.ok a, ({ s with depth := s.depth + 1 } : State).past w)) :
    deeper p c s = (.ok a, s.past w) := by
  unfold deeper
  rw [h]
  rfl

end Parser

end PipeQuery
