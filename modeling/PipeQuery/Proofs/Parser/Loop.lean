import PipeQuery.Proofs.Command.Steady

/-!
# `PipeQuery.Proofs.Parser.Loop`: the loops of the parser

Every loop of the parser is written with a bound on its rounds, and gets as many rounds as lexemes
are ahead. `IsLoop` says that the bound plays no part: the loop does a round and then, unless that
was the last one, starts over in the state behind it, and a round that is not the last one takes a
lexeme at least. `isLoop_of_bounded` is the argument for all of them. Passing over the rest of a
command needs no bound, since it goes from lexeme to lexeme, but it is a loop in the same sense.
-/

set_option autoImplicit false

namespace PipeQuery.Parser

variable {α β : Type} {c : Context} {s s₁ s' : State}

/-! ### Taking lexemes -/

/-- A lexeme at least was taken on the way. -/
def State.Took (s s' : State) : Prop :=
  ∃ l rest, s.rest = l :: rest ∧ s'.rest <:+ rest

/-- Where a lexeme was taken there are fewer ahead. -/
theorem State.Took.length_lt (h : s.Took s') : s'.rest.length < s.rest.length := by
  obtain ⟨l, rest, hrest, hsuffix⟩ := h
  rw [hrest, List.length_cons]
  exact Nat.lt_succ_of_le hsuffix.length_le

/-- Onward from where a lexeme was taken, it was taken. -/
theorem State.Took.onward (h : s.Took s₁) (h' : s₁.Onward s') : s.Took s' := by
  obtain ⟨l, rest, hrest, hsuffix⟩ := h
  exact ⟨l, rest, hrest, h'.rest.trans hsuffix⟩

/-- A lexeme taken further on was taken. -/
theorem State.Onward.took (h : s.Onward s₁) (h' : s₁.Took s') : s.Took s' := by
  obtain ⟨l, rest, hrest, hsuffix⟩ := h'
  obtain ⟨w, hw⟩ := hrest ▸ h.rest
  cases w with
  | nil => exact ⟨l, rest, hw.symm, hsuffix⟩
  | cons l' w =>
      refine ⟨l', w ++ l :: rest, hw.symm, ?_⟩
      exact (hsuffix.trans (List.suffix_cons l rest)).trans (List.suffix_append w _)

/-- A step onward took a lexeme or is still where it was. -/
theorem State.Onward.took_or (h : s.Onward s') : s.Took s' ∨ s'.rest = s.rest := by
  obtain ⟨w, hw⟩ := h.rest
  cases w with
  | nil => exact .inr hw
  | cons l w => exact .inl ⟨l, w ++ s'.rest, hw.symm, List.suffix_append _ _⟩

/-- To advance takes a lexeme if there is one ahead. -/
theorem took_advance {t : Token} (hrest : s.rest ≠ []) (h : advance c s = (.ok t, s')) :
    s.Took s' := by
  obtain ⟨l, rest, hcons⟩ := List.exists_cons_of_ne_nil hrest
  rw [advance_apply hcons] at h
  obtain ⟨-, rfl⟩ := Prod.mk.inj h
  exact ⟨l, rest, hcons, past_rest (w := [l]) hcons ▸ List.suffix_refl _⟩

/-- Where a token other than the end is ahead, there is a lexeme. -/
theorem rest_ne_nil_of_kindAt (h : s.kindAt 0 ≠ .eof) : s.rest ≠ [] := by
  intro hnil
  rw [kindAt_eq, hnil, kindIn_nil] at h
  exact h rfl

/-- A token that was taken and is not the end was a lexeme. -/
theorem took_eat {kind : Token.Kind} (hkind : kind ≠ .eof) (h : eat kind c s = (.ok true, s')) :
    s.Took s' := by
  rcases eat_ok hkind h with ⟨-, l, -, hmoves⟩ | ⟨hfalse, -⟩
  · exact ⟨l, s'.rest, hmoves.rest_eq, List.suffix_refl _⟩
  · exact absurd hfalse.symm Bool.false_ne_true

/-! ### Loops and their bounds -/

/-- `loop` does a `round` and starts over with what it leaves, or ends with its answer. A round
after which it starts over takes a lexeme. -/
structure IsLoop (round : β → Parse (β ⊕ α)) (loop : β → Parse α) : Prop where
  unfolds : ∀ b, loop b = round b >>= Sum.elim loop pure
  takes : ∀ {b b' : β} {c : Context} {s s' : State},
    round b c s = (.ok (.inl b'), s') → s.Took s'

/-- Where the last round ends, the loop ends. -/
theorem IsLoop.ends {round : β → Parse (β ⊕ α)} {loop : β → Parse α} (h : IsLoop round loop)
    {P : State → Prop}
    (hlast : ∀ {b a c s s'}, round b c s = (.ok (.inr a), s') → P s') {b : β} {a : α}
    (hloop : loop b c s = (.ok a, s')) : P s' := by
  -- By the number of lexemes ahead, which every other round lessens.
  induction hn : s.rest.length using Nat.strong_induction_on generalizing b s with
  | _ n ih =>
      rw [h.unfolds, bind_ok] at hloop
      obtain ⟨next, s₁, hround, hloop⟩ := hloop
      cases next with
      | inr a' =>
          obtain ⟨-, rfl⟩ := pure_ok.mp hloop
          exact hlast hround
      | inl b' => exact ih _ (hn ▸ (h.takes hround).length_lt) hloop rfl

/-- Rounds lead from one start to another, and from one state to another. -/
inductive Reaches (round : β → Parse (β ⊕ α)) (c : Context) (b : β) (s : State) :
    β → State → Prop where
  | start : Reaches round c b s b s
  | round {b₁ b₂ : β} {s₁ s₂ : State} (h : Reaches round c b s b₁ s₁)
    (hround : round b₁ c s₁ = (.ok (.inl b₂), s₂)) : Reaches round c b s b₂ s₂

/-- Rounds of a steady loop lead onward. -/
theorem Reaches.onward {round : β → Parse (β ⊕ α)} (hround : ∀ b, Steady (round b)) {b b' : β}
    (h : Reaches round c b s b' s') : s.Onward s' := by
  induction h with
  | start => exact .refl s
  | round _ h ih => exact ih.trans ((hround _).onward h)

section

variable {round : β → Parse (β ⊕ α)} (bounded : Nat → β → Parse α)
  (htakes : ∀ {b b' : β} {c : Context} {s s' : State},
    round b c s = (.ok (.inl b'), s') → s.Took s')
  (hlast : ∀ b c s, s.rest = [] →
    ∃ a, round b c s = (.ok (.inr a), s) ∧ bounded 0 b c s = (.ok a, s))
  (hmore : ∀ n b, bounded (n + 1) b = round b >>= Sum.elim (bounded n) pure)

include hlast hmore

/-- At the end of the text there is just the last round, whatever the bound. -/
theorem bounded_apply_nil (n : Nat) (b : β) (hrest : s.rest = []) :
    bounded n b c s = bounded 0 b c s := by
  obtain ⟨a, hround, hzero⟩ := hlast b c s hrest
  cases n with
  | zero => rfl
  | succ n =>
      rw [hmore, bind_apply_of_ok hround, hzero]
      rfl

include htakes

/-- With as many rounds as lexemes are ahead, or more, it does not matter how many. -/
theorem bounded_eq {n m : Nat} (b : β) (hn : s.rest.length ≤ n) (hm : s.rest.length ≤ m) :
    bounded n b c s = bounded m b c s := by
  induction n generalizing m b s with
  | zero =>
      have hnil := List.length_eq_zero_iff.mp (Nat.le_zero.mp hn)
      rw [bounded_apply_nil bounded hlast hmore m b hnil]
  | succ n ih =>
      cases m with
      | zero =>
          have hnil := List.length_eq_zero_iff.mp (Nat.le_zero.mp hm)
          rw [bounded_apply_nil bounded hlast hmore (n + 1) b hnil]
      | succ m =>
          rw [hmore, hmore, Parse.bind_apply, Parse.bind_apply]
          generalize hround : round b c s = outcome
          obtain ⟨result, s₁⟩ := outcome
          match result with
          | .error d => rfl
          | .ok (.inr a) => rfl
          | .ok (.inl b') =>
              have hlt := (htakes hround).length_lt
              exact ih b' (by omega) (by omega)

/-- A loop with a bound on its rounds that gets as many as lexemes are ahead. -/
theorem isLoop_of_bounded : IsLoop round (fun b => do bounded (← remaining) b) := by
  refine ⟨fun b => ?_, htakes⟩
  funext c s
  -- One round more than needed, so that there is one to take off.
  have hextra : (do bounded (← remaining) b) c s = bounded (s.rest.length + 1) b c s :=
    bounded_eq bounded htakes hlast hmore b (Nat.le_refl _) (Nat.le_succ _)
  rw [hextra, hmore, Parse.bind_apply, Parse.bind_apply]
  generalize hround : round b c s = outcome
  obtain ⟨result, s₁⟩ := outcome
  match result with
  | .error d => rfl
  | .ok (.inr a) => rfl
  | .ok (.inl b') =>
      have hlt := (htakes hround).length_lt
      exact bounded_eq bounded htakes hlast hmore b' (by omega) (Nat.le_refl _)

end

/-! ### Items, casts, operators and settings -/

/-- Steps of the parser obey the laws of monads, so loops of them may be rearranged. -/
instance : LawfulMonad Parse := by
  refine LawfulMonad.mk' Parse ?_ (fun _ _ => rfl) ?_
  · intro α p
    funext c s
    show (p >>= pure) c s = p c s
    rw [Parse.bind_apply]
    obtain ⟨result, s₁⟩ := p c s
    cases result <;> rfl
  · intro α β γ p f g
    funext c s
    simp only [Parse.bind_apply]
    obtain ⟨result, s₁⟩ := p c s
    cases result <;> rfl

/-- A separator and an item behind it. -/
def itemRound (separator : Token.Kind) (item : Parse α) (before : List α) :
    Parse (List α ⊕ List α) := do
  if ← eat separator then
    let next ← item
    return .inl (before ++ [next])
  else
    return .inr before

/-- The items of a list behind those before. -/
def itemsBehind (separator : Token.Kind) (item : Parse α) (before : List α) :
    Parse (List α) := do
  return before ++ (← others separator item)

/-- The items behind a first one are read by a loop that starts with none. -/
theorem others_eq (separator : Token.Kind) (item : Parse α) :
    others separator item = itemsBehind separator item [] := by
  simp [itemsBehind]

/-- A list is a loop whose rounds take the separator. -/
theorem isLoop_items {separator : Token.Kind} (hseparator : separator ≠ .eof) {item : Parse α}
    (hitem : Steady item) : IsLoop (itemRound separator item) (itemsBehind separator item) := by
  have hbound : itemsBehind separator item = fun before => do
      let n ← remaining
      return before ++ (← moreItems separator item n) := by
    funext before
    rw [itemsBehind, others, bind_assoc]
  rw [hbound]
  refine isLoop_of_bounded (fun n before => do
    return before ++ (← moreItems separator item n)) ?_ ?_ ?_
  · -- A round that goes on takes the separator.
    intro before before' c s s' h
    obtain ⟨more, s₁, heat, h⟩ := bind_ok.mp h
    cases more with
    | true =>
        obtain ⟨next, s₂, hnext, h⟩ := bind_ok.mp h
        obtain ⟨-, rfl⟩ := pure_ok.mp h
        exact (took_eat hseparator heat).onward (hitem.onward hnext)
    | false => exact absurd (pure_ok.mp h).1 Sum.inr_ne_inl
  · -- Without lexemes no separator is ahead.
    intro before c s hrest
    have hahead : s.kindAt 0 ≠ separator := by
      rw [kindAt_eq, hrest]
      exact hseparator.symm
    refine ⟨before, ?_, ?_⟩
    · rw [itemRound, bind_apply_of_ok (eat_apply_of_ne hahead)]
      rfl
    · show (Except.ok (before ++ []), s) = _
      rw [List.append_nil]
  · -- A loop with fuel for one round more is that round and the loop behind it.
    intro n before
    simp only [moreItems, itemRound, bind_assoc]
    congr 1
    funext more
    cases more with
    | true => simp only [if_true, bind_assoc, pure_bind, Sum.elim_inl, List.append_assoc,
        List.singleton_append]
    | false => simp

/-- A cast behind an operand. -/
def castRound (e : Expr) : Parse (Expr ⊕ Expr) := do
  if ← eat .cast then
    let type ← identifier "a data type"
    return .inl (.cast e type (e.span.merge type.span))
  else
    return .inr e

/-- The casts behind an operand, with as many rounds as lexemes are ahead. -/
def castsBehind (e : Expr) : Parse Expr := do
  casts (← remaining) e

/-- A primary expression is an atom with the loop over casts behind it. -/
theorem primary_eq (sub : Nat → Parse Expr) :
    primary sub = (do castsBehind (← atom sub)) := rfl

/-- The casts are a loop whose rounds take the mark. -/
theorem isLoop_casts : IsLoop castRound castsBehind := by
  refine isLoop_of_bounded casts ?_ ?_ ?_
  · -- A round that goes on takes the cast sign.
    intro e e' c s s' h
    obtain ⟨more, s₁, heat, h⟩ := bind_ok.mp h
    cases more with
    | true =>
        obtain ⟨type, s₂, htype, h⟩ := bind_ok.mp h
        obtain ⟨-, rfl⟩ := pure_ok.mp h
        exact (took_eat (by decide) heat).onward ((steady_identifier _).onward htype)
    | false => exact absurd (pure_ok.mp h).1 Sum.inr_ne_inl
  · intro e c s hrest
    have hahead : s.kindAt 0 ≠ .cast := by
      rw [kindAt_eq, hrest]
      decide
    refine ⟨e, ?_, rfl⟩
    rw [castRound, bind_apply_of_ok (eat_apply_of_ne hahead)]
    rfl
  · intro n e
    simp only [casts, castRound, bind_assoc]
    congr 1
    funext more
    cases more <;> simp

/-- A misplaced operand is told at the token ahead. -/
theorem misplaced_apply (operand : Operand) :
    (misplaced operand : Parse α) c s =
      (.error (Diagnostic.Cause.onToken (.misplaced (s.current c).text operand.describe)
        (s.current c)), s) := rfl

/-- An operator where none may stand is no success. -/
theorem misplaced_ok {operand : Operand} {a : α} :
    misplaced operand c s = (.ok a, s') ↔ False := by
  simp [misplaced_apply]

/-- A predicate takes its word and the `NOT` in front of it. -/
theorem took_predicate {sub : Nat → Parse Expr} (hsub : ∀ power, Steady (sub power))
    {operand e : Expr} (hrest : s.rest ≠ []) (h : predicate sub operand c s = (.ok e, s')) :
    s.Took s' := by
  rw [Embedding.predicate_eq] at h
  obtain ⟨negated, s₁, heat, h⟩ := bind_ok.mp h
  obtain ⟨t, s₂, hadvance, h⟩ := bind_ok.mp h
  have hbehind := (steady_predicateBehind hsub operand negated t).onward h
  cases negated with
  | true => exact (took_eat (by decide) heat).onward ((steady_advance.onward hadvance).trans hbehind)
  | false =>
      rcases eat_ok (by decide) heat with ⟨htrue, -⟩ | ⟨-, -, rfl⟩
      · exact absurd htrue Bool.false_ne_true
      · exact (took_advance hrest hadvance).onward hbehind

/-- An operator or a predicate behind an operand, if it binds tightly enough. -/
def operatorRound (sub : Nat → Parse Expr) (minPower : Nat) (left : Expr × Operand) :
    Parse ((Expr × Operand) ⊕ Expr) := do
  let (e, operand) := left
  let first ← peek
  if beginsPredicate first (← peekSecond) then
    if predicatePower < minPower then return .inr e
    else if operand = .condition then misplaced operand
    else return .inl (← predicate sub e, .condition)
  else
    match binaryOp? first with
    | none => return .inr e
    | some op =>
      if power op < minPower then return .inr e
      else if operand.allows op then
        let _ ← advance
        let right ← sub (power op + 1)
        return .inl (.binary e op right (e.span.merge right.span), .ofBinary op)
      else misplaced operand

/-- The operators behind an operand, with as many rounds as lexemes are ahead. -/
def operatorsBehind (sub : Nat → Parse Expr) (minPower : Nat) (left : Expr × Operand) :
    Parse Expr := do
  operators sub minPower (← remaining) left.1 left.2

/-- The operators behind an operand, with a round taken off the bound. -/
theorem operators_succ (sub : Nat → Parse Expr) (minPower n : Nat) (left : Expr × Operand) :
    operators sub minPower (n + 1) left.1 left.2 = operatorRound sub minPower left >>=
      Sum.elim (fun left => operators sub minPower n left.1 left.2) pure := by
  obtain ⟨e, operand⟩ := left
  simp only [operators, operatorRound, bind_assoc]
  congr 1
  funext first
  congr 1
  funext second
  -- A predicate and an operator end the loop, stop the parse or go on, each the same on both sides.
  split
  · split
    · rfl
    · split
      · funext c s
        simp only [misplaced_apply, Parse.bind_apply]
      · rw [bind_assoc]
        rfl
  · cases binaryOp? first with
    | none => rfl
    | some op =>
        by_cases hpower : power op < minPower
        · simp only [hpower, if_true]
          rfl
        · by_cases hallows : operand.allows op
          · simp only [hpower, hallows, if_true, if_false, bind_assoc, pure_bind, Sum.elim_inl]
          · funext c s
            simp only [hpower, hallows, Bool.false_eq_true, if_false, misplaced_apply,
              Parse.bind_apply]

/-- An operator takes its token, and a predicate its word. -/
theorem took_operatorRound {sub : Nat → Parse Expr} (hsub : ∀ power, Steady (sub power))
    {minPower : Nat} {left left' : Expr × Operand}
    (h : operatorRound sub minPower left c s = (.ok (.inl left'), s')) : s.Took s' := by
  obtain ⟨e, operand⟩ := left
  obtain ⟨first, s₁, hfirst, h⟩ := bind_ok.mp h
  obtain ⟨rfl, rfl⟩ := look_ok.mp hfirst
  obtain ⟨second, s₂, hsecond, h⟩ := bind_ok.mp h
  obtain ⟨rfl, rfl⟩ := look_ok.mp hsecond
  split at h
  -- Where a predicate or an operator begins a lexeme is ahead, and a round that goes on takes it.
  case isTrue hpredicate =>
    have hrest : s.rest ≠ [] := by
      refine rest_ne_nil_of_kindAt fun heof => ?_
      rw [heof] at hpredicate
      exact Bool.false_ne_true hpredicate
    split at h
    · exact absurd (pure_ok.mp h).1 Sum.inr_ne_inl
    · split at h
      · exact (misplaced_ok.mp h).elim
      · obtain ⟨e', s₁, hread, h⟩ := bind_ok.mp h
        obtain ⟨-, rfl⟩ := pure_ok.mp h
        exact took_predicate hsub hrest hread
  case isFalse =>
    generalize hop : binaryOp? (s.kindAt 0) = found at h
    cases found with
    | none => exact absurd (pure_ok.mp h).1 Sum.inr_ne_inl
    | some op =>
        have hrest : s.rest ≠ [] := by
          refine rest_ne_nil_of_kindAt fun heof => ?_
          rw [heof] at hop
          exact Option.some_ne_none op hop.symm
        dsimp only at h
        split at h
        · exact absurd (pure_ok.mp h).1 Sum.inr_ne_inl
        · split at h
          · obtain ⟨t, s₁, hadvance, h⟩ := bind_ok.mp h
            obtain ⟨right, s₂, hright, h⟩ := bind_ok.mp h
            obtain ⟨-, rfl⟩ := pure_ok.mp h
            exact (took_advance hrest hadvance).onward ((hsub _).onward hright)
          · exact (misplaced_ok.mp h).elim

/-- An operation is its operand with the loop over operators behind it. -/
theorem operation_eq (sub : Nat → Parse Expr) (minPower : Nat) :
    operation sub minPower = (do operatorsBehind sub minPower (← leading sub minPower)) := rfl

/-- The operators are a loop whose rounds take one. -/
theorem isLoop_operators {sub : Nat → Parse Expr} (hsub : ∀ power, Steady (sub power))
    (minPower : Nat) : IsLoop (operatorRound sub minPower) (operatorsBehind sub minPower) := by
  refine isLoop_of_bounded (fun n (left : Expr × Operand) =>
    operators sub minPower n left.1 left.2) (took_operatorRound hsub) ?_
    (operators_succ sub minPower)
  rintro ⟨e, operand⟩ c s hrest
  have hahead : s.kindAt 0 = .eof := by
    rw [kindAt_eq, hrest, kindIn_nil]
  refine ⟨e, ?_, rfl⟩
  simp only [operatorRound, peek, peekSecond]
  rw [bind_look, hahead, bind_look]
  rfl

/-- A setting behind some others. -/
def settingRound (before : List Setting) : Parse (List Setting ⊕ List Setting) := do
  if ← check .openBracket then
    let next ← setting
    if before.any fun s => Text.sameWord s.name next.name then
      report (.repeatedSetting next.name) next.span
    return .inl (before ++ [next])
  else
    return .inr before

/-- The settings behind some others, with as many rounds as lexemes are ahead. -/
def settingsBehind (before : List Setting) : Parse (List Setting) := do
  settings (← remaining) before

/-- The settings are a loop whose rounds take a bracket. -/
theorem isLoop_settings : IsLoop settingRound settingsBehind := by
  refine isLoop_of_bounded settings ?_ ?_ ?_
  · -- A setting takes its bracket, and whether it repeats an earlier one takes nothing back.
    intro before before' c s s' h
    obtain ⟨more, s₁, hcheck, h⟩ := bind_ok.mp h
    obtain ⟨rfl, rfl⟩ := check_ok.mp hcheck
    split at h
    case isTrue hahead =>
      have hrest : s.rest ≠ [] := by
        refine rest_ne_nil_of_kindAt fun heof => ?_
        rw [heof] at hahead
        exact absurd hahead (by decide)
      obtain ⟨next, s₂, hnext, h⟩ := bind_ok.mp h
      rw [setting_eq] at hnext
      obtain ⟨opening, s₁, hadvance, hnext⟩ := bind_ok.mp hnext
      have htook := (took_advance hrest hadvance).onward
        ((steady_settingBehind opening).onward hnext)
      have hreport : Steady (do
          if before.any fun s => Text.sameWord s.name next.name then
            report (.repeatedSetting next.name) next.span
          return Sum.inl (before ++ [next]) : Parse (List Setting ⊕ List Setting)) :=
        .ite ((steady_report _ _).bind fun _ => steady_pure _) (steady_pure _)
      exact htook.onward (hreport.onward h)
    case isFalse => exact absurd (pure_ok.mp h).1 Sum.inr_ne_inl
  · -- Without lexemes there is no bracket ahead.
    intro before c s hrest
    have hahead : s.kindAt 0 ≠ .openBracket := by
      rw [kindAt_eq, hrest]
      decide
    refine ⟨before, ?_, rfl⟩
    rw [settingRound, bind_apply_of_ok (check_apply _), decide_eq_false hahead]
    rfl
  · -- A loop with fuel for one round more is that round and the loop behind it.
    intro n before
    simp only [settings, settingRound, bind_assoc]
    congr 1
    funext more
    cases more with
    | true =>
        simp only [if_true, bind_assoc]
        congr 1
        funext next
        split <;> simp
    | false => simp

end PipeQuery.Parser
