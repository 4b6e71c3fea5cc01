import PipeQuery.Proofs.Command.Part

/-!
# `PipeQuery.Proofs.Command.Target`: targets are read on trial

A value may stand behind `target =`. A target begins as an expression may, and only the `=` behind
it shows what it is, after a name of any length. So the parser reads a name on trial: if no `=`
comes, or the name breaks off, it goes back and reads an expression.

The trial is held against a grammar of its own, `IsTarget`. It answers with every target that is
ahead (`target_apply`) and with nothing else (`target_ok`). Where it has no answer it was silent on
the way, and so going back restores the whole state (`attempt_target_of_not`).

`assignment_target` puts both together for the expressions of commands.
-/

set_option autoImplicit false

namespace PipeQuery.Parser

variable {c : Context} {s s' : State} {w : List Lexeme} {name : FieldName}

/-! ### The trial -/

/-- A field name with `=` behind it. -/
inductive IsTarget : List Lexeme → FieldName → Prop where
  | mk {w : List Lexeme} {name : FieldName} {equals : Lexeme} (hname : IsFieldName w name)
    (hequals : equals.token.kind = .assign) : IsTarget (w ++ [equals]) name

/-- Reads a field name, and answers with it if `=` stands behind it. -/
def target : Parse (Option FieldName) := do
  let name ← fieldName
  return if ← eat .assign then some name else none

/-- The reader of targets records nothing. -/
theorem quiet_target : Quiet target :=
  quiet_fieldName.bind fun _ => (quiet_eat .assign).bind fun _ => quiet_pure _

/-- An answer is a target, and the state is the one behind it. -/
theorem target_ok (hend : c.endToken.kind = .eof) (h : target c s = (.ok (some name), s')) :
    ∃ w, IsTarget w name ∧ w <+: s.rest ∧ s' = s.past w := by
  -- A name and `=` are read without a report, so the state is known from what was taken.
  have hrecorded : s'.recorded = s.recorded := by
    have hquiet := (quiet_target c s).2
    rwa [h] at hquiet
  simp only [target, bind_ok, pure_ok] at h
  obtain ⟨name', s₁, hname, eaten, s₂, heat, hsome, rfl⟩ := h
  obtain ⟨w, hfield, hmoves⟩ := fieldName_ok hend hname
  rcases eat_ok (by decide) heat with ⟨rfl, equals, hequals, hmoves'⟩ | ⟨rfl, -, -⟩
  · obtain rfl : name' = name := Option.some.inj hsome
    have hall := hmoves.trans hmoves'
    exact ⟨w ++ [equals], .mk hfield hequals, ⟨s₂.rest, hall.rest_eq.symm⟩,
      hall.eq_past hrecorded⟩
  · cases hsome

/-- A target that is ahead is the answer. -/
theorem target_apply (h : IsTarget w name) (hw : w <+: s.rest) :
    target c s = (.ok (some name), s.past w) := by
  obtain ⟨rest, hrest⟩ := hw
  cases h with
  | @mk w _ equals hname hequals =>
      have hs : s.rest = w ++ equals :: rest := by
        rw [← hrest, List.append_assoc, List.singleton_append]
      -- A name goes on as long as dots follow, so it is read up to the `=` and not beyond.
      have hdot : kindIn (equals :: rest) 0 ≠ .dot := by
        rw [kindIn_cons_zero, hequals]
        decide
      rw [target, bind_apply_of_ok (fieldName_apply hs hname hdot),
        bind_apply_of_ok (eat_apply (past_rest hs) hequals), past_past]
      rfl

/-! ### The attempt -/

/-- An attempt always comes to an end without an error. -/
theorem exists_attempt_eq {α : Type} (p : Parse (Option α)) (c : Context) (s : State) :
    ∃ r s', attempt p c s = (.ok r, s') := by
  unfold attempt
  split
  · exact ⟨_, _, rfl⟩
  · exact ⟨_, _, rfl⟩

/-- Where a target is ahead, the attempt at one takes it. -/
theorem attempt_target (h : IsTarget w name) (hw : w <+: s.rest) :
    attempt target c s = (.ok (some name), s.past w) := by
  rw [attempt, target_apply h hw]

/-- Without a target ahead the attempt did nothing. -/
theorem attempt_target_of_not (hend : c.endToken.kind = .eof)
    (hnone : ¬ ∃ w name, IsTarget w name ∧ w <+: s.rest) :
    attempt target c s = (.ok none, s) := by
  obtain ⟨r, s', h⟩ := exists_attempt_eq target c s
  rcases attempt_ok quiet_target h with ⟨name, rfl, hname⟩ | ⟨rfl, rfl⟩
  · obtain ⟨w, htarget, hw, -⟩ := target_ok hend hname
    exact absurd ⟨w, name, htarget, hw⟩ hnone
  · exact h

/-! ### Assignments -/

section

variable {sub : Nat → Parse Expr}

/-- A step and then a change of what it returns. -/
theorem bind_pure_apply {α β : Type} (p : Parse α) (f : α → β) (c : Context) (s : State) :
    (p >>= fun a => pure (f a)) c s = ((p c s).1.map f, (p c s).2) := by
  rw [Parse.bind_apply]
  rcases p c s with ⟨_ | _, _⟩ <;> rfl

/-- A changed result is a success just if the result is. -/
theorem map_eq_ok_iff {α β : Type} {r : Except Diagnostic α × State} {f : α → β} {b : β} :
    (r.1.map f, r.2) = (.ok b, s') ↔ ∃ a, r = (.ok a, s') ∧ f a = b := by
  rcases r with ⟨d | a, s⟩
  · simp [Except.map]
  · constructor
    · intro h
      obtain ⟨hb, rfl⟩ := Prod.mk.inj h
      exact ⟨a, rfl, Except.ok.inj hb⟩
    · rintro ⟨a, ⟨⟩, rfl⟩
      rfl

/-- Behind a target the value is read, and what comes of it comes of the assignment. -/
theorem assignment_of_target (h : IsTarget w name) (hw : w <+: s.rest) :
    assignment sub c s =
      ((sub 0 c (s.past w)).1.map fun value => ⟨some name, value, name.span.merge value.span⟩,
        (sub 0 c (s.past w)).2) := by
  -- The trial stands in `assignment` without a name.
  show (attempt target >>= _) c s = _
  rw [bind_apply_of_ok (attempt_target h hw)]
  exact bind_pure_apply _ _ c (s.past w)

/-- Without a target ahead the value is read as if no target had been looked for. -/
theorem assignment_of_not (hend : c.endToken.kind = .eof)
    (hnone : ¬ ∃ w name, IsTarget w name ∧ w <+: s.rest) :
    assignment sub c s =
      ((sub 0 c s).1.map fun value => ⟨none, value, value.span⟩, (sub 0 c s).2) := by
  show (attempt target >>= _) c s = _
  rw [bind_apply_of_ok (attempt_target_of_not hend hnone)]
  exact bind_pure_apply _ _ c s

end

/-- An assignment has a target just if one is ahead and the expression behind it is read. If none
is ahead, the value is the expression that is read at once, or the error is that of the expression,
and the state behind it is the same in all its parts. -/
theorem assignment_target (hend : c.endToken.kind = .eof) (headroom : Nat) (s : State) :
    (∀ a s', assignment (expressionAt headroom) c s = (.ok a, s') ∧ a.target.isSome = true ↔
      ∃ w name value, IsTarget w name ∧ w <+: s.rest ∧
        expressionAt headroom 0 c (s.past w) = (.ok value, s') ∧
        a = ⟨some name, value, name.span.merge value.span⟩) ∧
    ((¬ ∃ w name, IsTarget w name ∧ w <+: s.rest) →
      assignment (expressionAt headroom) c s =
        ((expressionAt headroom 0 c s).1.map fun value => ⟨none, value, value.span⟩,
          (expressionAt headroom 0 c s).2)) := by
  refine ⟨fun a s' => ⟨?_, ?_⟩, assignment_of_not hend⟩
  · rintro ⟨hread, hsome⟩
    by_cases htarget : ∃ w name, IsTarget w name ∧ w <+: s.rest
    · obtain ⟨w, name, h, hw⟩ := htarget
      rw [assignment_of_target h hw, map_eq_ok_iff] at hread
      obtain ⟨value, hvalue, rfl⟩ := hread
      exact ⟨w, name, value, h, hw, hvalue, rfl⟩
    · -- What is read without a target has none.
      rw [assignment_of_not hend htarget, map_eq_ok_iff] at hread
      obtain ⟨value, -, rfl⟩ := hread
      cases hsome
  · rintro ⟨w, name, value, h, hw, hvalue, rfl⟩
    rw [assignment_of_target h hw, hvalue]
    exact ⟨rfl, rfl⟩

/-- A parameter that fits is a target. One that is too large breaks the trial off, and is read again
by the expression, which finds the same. -/
theorem assignment_target_parameter :
    let lexeme (kind : Token.Kind) (text : String) : Lexeme :=
      ⟨⟨kind, text, ⟨0, 0⟩, 1, 1, .default⟩, false⟩
    let c : Context := ⟨[], (lexeme .eof "").token, []⟩
    let behind (text : String) : State :=
      .initial [lexeme .param text, lexeme .assign "=", lexeme .integer "1"]
    c.endToken.kind = .eof ∧
      (∃ a s', assignment (expressionAt 1) c (behind "?9") = (.ok a, s') ∧
        a.target.isSome = true) ∧
      assignment (expressionAt 1) c (behind "?4294967296") =
        ((expressionAt 1 0 c (behind "?4294967296")).1.map fun value => ⟨none, value, value.span⟩,
          (expressionAt 1 0 c (behind "?4294967296")).2) := by
  intro lexeme c behind
  have hend : c.endToken.kind = .eof := rfl
  refine ⟨hend, ?_, (assignment_target hend 1 (behind "?4294967296")).2 ?_⟩
  · -- `?9` with its sign is a target, so the iff is used from right to left.
    let w := [lexeme .param "?9"] ++ [lexeme .assign "="]
    obtain ⟨index, hparameter⟩ : ∃ index, IsParameter (lexeme .param "?9") index :=
      ⟨_, .positional (l := lexeme .param "?9") rfl (by decide) (by decide)⟩
    have htarget : IsTarget w _ := .mk (.mk (.one (.parameter hparameter))) rfl
    have hread : (expressionAt 1 0 c ((behind "?9").past w)).1.toOption ≠ none := by
      decide +kernel
    rcases hvalue : expressionAt 1 0 c ((behind "?9").past w) with ⟨d | value, s'⟩
    · rw [hvalue] at hread
      exact absurd rfl hread
    · exact ⟨_, s', ((assignment_target hend 1 (behind "?9")).1 _ s').mpr
        ⟨w, _, value, htarget, ⟨[lexeme .integer "1"], rfl⟩, hvalue, rfl⟩⟩
  · -- If a target were ahead, the trial would answer with it.
    rintro ⟨w, name, h, hw⟩
    have hanswer := congrArg Prod.fst (target_apply (c := c) h hw)
    have hbreaks : (target c (behind "?4294967296")).1.toOption = none := by decide
    rw [hanswer] at hbreaks
    cases hbreaks

end PipeQuery.Parser
