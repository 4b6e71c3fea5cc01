import PipeQuery.Proofs.Expr.Tiers
import PipeQuery.Proofs.Located

/-!
# `PipeQuery.Proofs.Tiers`: the limit of nesting bounds the tiers of a query

Every expression of a query has at most eight tiers for each level of nesting that the options
allow, and eight more, however long the text is (`parse_height_le`). That is so of tiers and not of
nodes: chains of operators and of casts are read in loops on one level of nesting, and are as tall
as they are long (`height_chains`).
-/

set_option autoImplicit false

namespace PipeQuery

namespace Parser

variable {α : Type} {text : String} {preview : Bool} {P Q : α → Prop} {p : Parse α}

/-- What holds of every value that a step returns holds beside what the step ensures. -/
theorem Ensures.andReturns (h : Ensures text preview P p)
    (hreturns : ∀ c : Context, c.endToken.kind = .eof → Returns c Q p) :
    Ensures text preview (fun a => P a ∧ Q a) p := by
  intro c s hs
  obtain ⟨hmakes, hs'⟩ := h hs
  have hvalue : ∀ a, (p c s).1 = .ok a → Q a := fun a ha =>
    hreturns c hs.eof (Prod.ext ha rfl : p c s = (.ok a, (p c s).2))
  refine ⟨?_, hs'⟩
  generalize (p c s).1 = r at hmakes hvalue
  cases hmakes with
  | ok h => exact .ok ⟨h, hvalue _ rfl⟩
  | error h => exact .error h

/-- What the readers of expressions return has its tiers, wherever there is no more nesting left
than `limit`. -/
theorem reading_tiers (text : String) (preview : Bool) {headroom limit : Nat}
    (hlimit : headroom ≤ limit) :
    Reading text preview (fun _ => True) (fun e => e.tiers ≤ 8 * limit + 8)
      (expressionAt headroom) := by
  have hread : Reading text preview (fun _ => True) (fun _ => True) (expressionAt headroom) :=
    reading_expressionAt (fun _ _ => trivial) headroom
  have hbound : ∀ {p : Parse Expr} {n : Nat}, n ≤ 8 * limit + 8 →
      Ensures text preview (Fit text (fun _ => True) fun _ => True) p →
      (∀ c : Context, c.endToken.kind = .eof → Returns c (fun e => e.tiers ≤ n) p) →
      Ensures text preview (Fit text (fun _ => True) fun e => e.tiers ≤ 8 * limit + 8) p :=
    fun hn hfit hreturns => (hfit.andReturns hreturns).imp fun e ⟨he, htiers⟩ =>
      ⟨he.fits, Expr.allMeet_tiers_le (Nat.le_trans htiers hn)⟩
  have hsub : ∀ c : Context, c.endToken.kind = .eof →
      ∀ p, Returns c (fun e => e.tiers ≤ 8 * headroom + 1) (expressionAt headroom p) :=
    fun c hend => expressionAt_tiers hend headroom
  have hone : 1 ≤ 8 * headroom + 1 := Nat.le_add_left 1 _
  constructor
  · exact fun p => hbound (by omega) (hread.expr p) fun c hend => hsub c hend p
  · exact hbound (by omega) hread.primary fun c hend => primary_tiers hone (hsub c hend)
  · exact hbound (by omega) hread.constant fun c hend => constant_tiers hone (hsub c hend)
  · exact fun what => hbound (by omega) (hread.string what) fun c _ => stringLiteral_tiers what

end Parser

/-- The value that is assigned to a name at the start of a pipeline. -/
def Query.firstValue? (q : Query) : Option Expr :=
  match q.commands with
  | .row (a :: _) _ :: _ => some a.value
  | _ => none

/-- The first value of a `ROW` is in its tree. -/
theorem Query.contains_firstValue {q : Query} {e : Expr} (h : q.firstValue? = some e) :
    q.node.Contains (.expr e) := by
  unfold firstValue? at h
  split at h
  case h_1 a fields span rest hcommands =>
    obtain rfl : a.value = e := Option.some.inj h
    have hcommand : q.node.Contains (.command (.row (a :: fields) span)) :=
      .child .root (List.mem_map_of_mem (hcommands ▸ List.mem_cons_self))
    have hassignment : q.node.Contains (.assignment a) :=
      .child hcommand (List.mem_map_of_mem List.mem_cons_self)
    exact .child hassignment (List.mem_append_right _ List.mem_cons_self)
  case h_2 => cases h

/-- The tiers of an expression of a query are bounded by the limit of nesting alone, and its height
by the limit and its longest chain. -/
theorem parse_height_le (text : String) (options : Options) {e : Expr}
    (he : (parse text options).query.node.Contains (.expr e)) :
    e.tiers ≤ 8 * options.maxDepth + 8 ∧
      e.height ≤ e.longestChain * (8 * options.maxDepth + 8) := by
  have hmeet := parse_allMeet text options (V := fun _ => True)
    (E := fun e => e.tiers ≤ 8 * options.maxDepth + 8) (fun e => by rw [e.tiers_mapSpans])
    (fun _ _ => trivial) fun n hn => Parser.reading_tiers text options.devFeatures hn
  have htiers : e.tiers ≤ 8 * options.maxDepth + 8 := hmeet _ he
  exact ⟨htiers, Nat.le_trans e.height_le (Nat.mul_le_mul_left _ htiers)⟩

/-- Two casts and an addition have three tiers and four levels of height, well below both bounds. -/
theorem parse_height_le_casts :
    ∃ e, (parse "ROW a = b::c::d + 1" .default).query.node.Contains (.expr e) ∧
      (e.tiers = 3 ∧ e.height = 4 ∧ e.longestChain = 2) ∧
      e.tiers ≤ 8 * Options.default.maxDepth + 8 ∧
      e.height ≤ e.longestChain * (8 * Options.default.maxDepth + 8) := by
  have hvalue : (parse "ROW a = b::c::d + 1" .default).query.firstValue?.any
      (fun e => e.tiers = 3 ∧ e.height = 4 ∧ e.longestChain = 2) = true := by decide +kernel
  obtain ⟨e, he, hmeasures⟩ := Option.any_eq_true _ _ |>.mp hvalue
  have hcontains := Query.contains_firstValue he
  exact ⟨e, hcontains, of_decide_eq_true hmeasures, parse_height_le _ _ hcontains⟩

/-- A chain of casts takes one level of nesting and a chain of operators two, but they are as tall
as they are long. -/
theorem height_chains :
    (∃ e, (parse "ROW a = 1::b::b::b::b::b::b::b::b::b::b::b::b::b::b::b::b"
      { Options.default with maxDepth := 1 }).query.node.Contains (.expr e) ∧
        8 * 1 + 8 < e.height) ∧
    ∃ e, (parse "ROW a = 1+1+1+1+1+1+1+1+1+1+1+1+1+1+1+1+1+1+1+1+1+1+1+1+1"
      { Options.default with maxDepth := 2 }).query.node.Contains (.expr e) ∧
        8 * 2 + 8 < e.height := by
  have hcasts : (parse "ROW a = 1::b::b::b::b::b::b::b::b::b::b::b::b::b::b::b::b"
      { Options.default with maxDepth := 1 }).query.firstValue?.any
        (fun e => 8 * 1 + 8 < e.height) = true := by decide +kernel
  have hoperators : (parse "ROW a = 1+1+1+1+1+1+1+1+1+1+1+1+1+1+1+1+1+1+1+1+1+1+1+1+1"
      { Options.default with maxDepth := 2 }).query.firstValue?.any
        (fun e => 8 * 2 + 8 < e.height) = true := by decide +kernel
  constructor
  · obtain ⟨e, he, hheight⟩ := Option.any_eq_true _ _ |>.mp hcasts
    exact ⟨e, Query.contains_firstValue he, of_decide_eq_true hheight⟩
  · obtain ⟨e, he, hheight⟩ := Option.any_eq_true _ _ |>.mp hoperators
    exact ⟨e, Query.contains_firstValue he, of_decide_eq_true hheight⟩

end PipeQuery
