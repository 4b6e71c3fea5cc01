import PipeQuery.Token.Lexer

/-!
# `PipeQuery.Proofs.Token.Nesting`: block comments nest as they are written

The lexer finds the end of a block comment in leaps and counts the comments that are open. Here the
end is said without a counter. `marks` reads a text from left to right, with `/*` and `*/` as units
where they come first, `nesting` is the number of those that open less the number of those that
close, and a comment runs through the first `*/` behind which the nesting is zero (`Closes`).

* `blockCommentEnd?_eq_some_iff`: the counter finds this end and no other.
* `PassesBy` is where the leaps come by (`PassesBy.scan_eq`), and there the counter is never lowered
  at zero (`PassesBy.pos_of_closing`).
* `Lexer.next_blockComment`: so the lexer takes such a comment for a token, and all the rest of the
  text for an error if there is none, whatever mode is in force.
-/

set_option autoImplicit false

namespace PipeQuery

namespace Text

/-! ### Marks -/

/-- A unit of a text with comments. -/
inductive Mark where
  | opening
  | closing
  | other (c : Char)
deriving DecidableEq, Repr

/-- The unit as it is written. -/
def Mark.chars : Mark → List Char
  | .opening => ['/', '*']
  | .closing => ['*', '/']
  | .other c => [c]

/-- How many more comments are open behind the unit. -/
@[simp]
def Mark.weight : Mark → Int
  | .opening => 1
  | .closing => -1
  | .other _ => 0

/-- The units of a text, each taken where the one before ends. -/
def marks : List Char → List Mark
  | [] => []
  | '/' :: '*' :: rest => .opening :: marks rest
  | '*' :: '/' :: rest => .closing :: marks rest
  | c :: rest => .other c :: marks rest

/-- The units as they are written. -/
def written (ms : List Mark) : List Char :=
  ms.flatMap Mark.chars

/-- The number of comments that the units open less the number that they close. -/
def nesting : List Mark → Int
  | [] => 0
  | m :: ms => m.weight + nesting ms

/-- Without marks nothing is open. -/
@[simp]
theorem nesting_nil : nesting [] = 0 := rfl

/-- A mark in front counts for itself, and then the rest. -/
@[simp]
theorem nesting_cons (m : Mark) (ms : List Mark) : nesting (m :: ms) = m.weight + nesting ms := rfl

/-- The text of marks begins with that of the first. -/
@[simp]
theorem written_cons (m : Mark) (ms : List Mark) : written (m :: ms) = m.chars ++ written ms :=
  List.flatMap_cons

/-- The text of marks, one list behind the other, is that of both. -/
theorem written_append (ms ms' : List Mark) : written (ms ++ ms') = written ms ++ written ms' :=
  List.flatMap_append

/-- Units lose nothing of the text. -/
theorem written_marks (cs : List Char) : written (marks cs) = cs := by
  induction cs using marks.induct with
  | case1 => rfl
  | case2 rest ih => exact congrArg (['/', '*'] ++ ·) ih
  | case3 rest ih => exact congrArg (['*', '/'] ++ ·) ih
  | case4 c rest hopening hclosing ih =>
      rw [marks]
      · exact congrArg (c :: ·) ih
      · exact hopening
      · exact hclosing

/-- With `depth` comments open, the units end with the mark that closes the outermost. -/
structure Closes (depth : Int) (ms : List Mark) : Prop where
  ends : ∃ inner, ms = inner ++ [.closing]
  nesting_eq : depth + nesting ms = 0
  first : ∀ inner, inner ++ [.closing] <+: ms → depth + nesting (inner ++ [.closing]) = 0 →
    inner ++ [.closing] = ms

/-- The first unit closes the outermost comment, or the rest does, with as many comments open as
there are behind the first. -/
theorem closes_cons_iff {depth : Int} {m : Mark} {ms : List Mark} :
    Closes depth (m :: ms) ↔
      (m = .closing ∧ depth = 1 ∧ ms = []) ∨
        ¬ (m = .closing ∧ depth = 1) ∧ Closes (depth + m.weight) ms := by
  constructor
  · rintro ⟨⟨inner, hends⟩, hnesting, hfirst⟩
    -- Either the mark that closes the outermost comment is the first unit, or it is still to come.
    cases inner with
    | nil =>
        obtain ⟨rfl, rfl⟩ := List.cons.inj hends
        simp at hnesting
        exact .inl ⟨rfl, by omega, rfl⟩
    | cons m' inner =>
        obtain ⟨rfl, rfl⟩ := List.cons.inj hends
        refine .inr ⟨?_, ⟨inner, rfl⟩, ?_, ?_⟩
        · rintro ⟨rfl, rfl⟩
          have := hfirst [] (by simp) (by simp)
          simp at this
        · rw [← hnesting, nesting_cons, Int.add_assoc]
        · intro early hprefix hzero
          have := hfirst (m :: early) (List.cons_prefix_cons.mpr ⟨rfl, hprefix⟩)
            (by rw [List.cons_append, nesting_cons, ← Int.add_assoc, hzero])
          exact (List.cons.inj this).2
  · rintro (⟨rfl, rfl, rfl⟩ | ⟨hother, ⟨inner, rfl⟩, hnesting, hfirst⟩)
    · refine ⟨⟨[], rfl⟩, by simp, fun inner hprefix _ => ?_⟩
      exact hprefix.eq_of_length_le (by simp)
    · refine ⟨⟨m :: inner, rfl⟩, by rw [nesting_cons, ← Int.add_assoc, hnesting], ?_⟩
      intro early hprefix hzero
      cases early with
      | nil =>
          obtain ⟨rfl, -⟩ := List.cons_prefix_cons.mp hprefix
          simp at hzero
          exact absurd ⟨rfl, by omega⟩ hother
      | cons m' early =>
          obtain ⟨rfl, hrest⟩ := List.cons_prefix_cons.mp hprefix
          rw [List.cons_append, nesting_cons, ← Int.add_assoc] at hzero
          exact congrArg (m' :: ·) (hfirst early hrest hzero)

/-- With `depth` comments open, the first `n` characters of the units end the outermost. -/
def ClosesBehind (depth : Int) (units : List Mark) (n : Nat) : Prop :=
  ∃ ms behind, units = ms ++ behind ∧ Closes depth ms ∧ (written ms).length = n

/-- Without marks nothing closes. -/
theorem not_closesBehind_nil {depth : Int} {n : Nat} : ¬ ClosesBehind depth [] n := by
  rintro ⟨ms, behind, hms, ⟨⟨inner, hends⟩, -, -⟩, -⟩
  simp [hends] at hms

/-- The first mark closes the comment, or the rest closes it, one level up or down. -/
theorem closesBehind_cons_iff {depth : Int} {m : Mark} {units : List Mark} {n : Nat} :
    ClosesBehind depth (m :: units) n ↔
      (m = .closing ∧ depth = 1 ∧ n = 2) ∨
        ¬ (m = .closing ∧ depth = 1) ∧
          ∃ k, ClosesBehind (depth + m.weight) units k ∧ k + m.chars.length = n := by
  constructor
  · rintro ⟨ms, behind, hms, hcloses, rfl⟩
    cases ms with
    | nil =>
        obtain ⟨⟨inner, hends⟩, -, -⟩ := hcloses
        simp at hends
    | cons m' ms =>
        obtain ⟨rfl, rfl⟩ := List.cons.inj hms
        rcases closes_cons_iff.mp hcloses with ⟨rfl, hdepth, rfl⟩ | ⟨hother, hrest⟩
        · exact .inl ⟨rfl, hdepth, rfl⟩
        · refine .inr ⟨hother, _, ⟨ms, behind, rfl, hrest, rfl⟩, ?_⟩
          rw [written_cons, List.length_append, Nat.add_comm]
  · rintro (⟨rfl, rfl, rfl⟩ | ⟨hother, _, ⟨ms, behind, rfl, hcloses, rfl⟩, rfl⟩)
    · exact ⟨[.closing], units, rfl, closes_cons_iff.mpr (.inl ⟨rfl, rfl, rfl⟩), rfl⟩
    · refine ⟨m :: ms, behind, rfl, closes_cons_iff.mpr (.inr ⟨hother, hcloses⟩), ?_⟩
      rw [written_cons, List.length_append, Nat.add_comm]

/-- What the counter finds is the end that the nesting has. The induction is on the text, unit by
unit. -/
theorem blockCommentEnd?_eq_some_iff {depth : Nat} {cs : List Char} {n : Nat} (hdepth : 0 < depth) :
    blockCommentEnd? depth cs = some n ↔ ClosesBehind depth (marks cs) n := by
  induction depth, cs using blockCommentEnd?.induct generalizing n with
  | case1 => exact ⟨nofun, fun h => absurd h not_closesBehind_nil⟩
  | case2 depth rest ih =>
      rw [blockCommentEnd?, marks, closesBehind_cons_iff, Option.map_eq_some_iff]
      simp only [ih (Nat.succ_pos depth)]
      simp [Mark.chars]
  | case3 depth rest hone =>
      obtain rfl : depth = 1 := by omega
      rw [blockCommentEnd?, marks, closesBehind_cons_iff, if_pos (Nat.le_refl 1)]
      simp [eq_comm]
  | case4 depth rest hmore ih =>
      have hcast : (depth : Int) + -1 = (depth - 1 : Nat) := by omega
      have hne : ¬ (depth : Int) = 1 := by omega
      rw [blockCommentEnd?, marks, closesBehind_cons_iff, if_neg hmore, Option.map_eq_some_iff]
      simp only [ih (by omega : 0 < depth - 1)]
      simp [Mark.chars, hcast, hne]
  | case5 depth c rest hopening hclosing ih =>
      -- The text begins with no mark, which is what both equations ask for.
      rw [blockCommentEnd?, marks, closesBehind_cons_iff, Option.map_eq_some_iff]
      · simp only [ih hdepth]
        simp [Mark.chars]
      all_goals assumption

/-- The block comment at the start of a text ends where the nesting is zero again. -/
theorem blockCommentLength?_eq_some_iff {rest : List Char} {n : Nat} :
    blockCommentLength? ('/' :: '*' :: rest) = some n ↔
      ClosesBehind 0 (marks ('/' :: '*' :: rest)) n := by
  rw [blockCommentLength?_eq, blockCommentEnd?, marks, closesBehind_cons_iff,
    Option.map_eq_some_iff]
  simp only [blockCommentEnd?_eq_some_iff (Nat.succ_pos 0)]
  simp [Mark.chars]

/-! ### The counter -/

/-- The scan of a comment at the start of `text` comes by `cs` with `depth` comments open. -/
inductive PassesBy (text : List Char) : Nat → List Char → Prop where
  | start : PassesBy text 0 text
  | opening {depth : Nat} {cs : List Char} (before : PassesBy text depth cs)
    (h : commentPart cs = .opening) : PassesBy text (depth + 1) (cs.drop 2)
  | closing {depth : Nat} {cs : List Char} (before : PassesBy text depth cs)
    (h : commentPart cs = .closing) (hopen : depth - 1 ≠ 0) : PassesBy text (depth - 1) (cs.drop 2)
  | plain {depth : Nat} {cs : List Char} {n : Nat} (before : PassesBy text depth cs)
    (h : commentPart cs = .plain n) : PassesBy text depth (cs.drop n)

/-- Two shifts of a place are one. -/
theorem map_add_map_add (o : Option Nat) (m n : Nat) :
    (o.map (· + m)).map (· + n) = o.map (· + (n + m)) := by
  cases o with
  | none => rfl
  | some k => simp; omega

namespace PassesBy

variable {text cs : List Char} {depth : Nat}

/-- What the scan finds from the start it finds from where it comes by, with the characters between
added. -/
theorem scan_eq (h : PassesBy text depth cs) :
    ∃ n, cs = text.drop n ∧
      blockCommentScan? 0 text = (blockCommentScan? depth cs).map (· + n) := by
  induction h with
  | start => exact ⟨0, rfl, by simp⟩
  | opening _ h ih =>
      obtain ⟨n, rfl, hn⟩ := ih
      refine ⟨n + 2, List.drop_drop, ?_⟩
      rw [hn, blockCommentScan?_round, h, map_add_map_add]
  | closing _ h hopen ih =>
      obtain ⟨n, rfl, hn⟩ := ih
      refine ⟨n + 2, List.drop_drop, ?_⟩
      rw [hn, blockCommentScan?_round, h]
      simp only [if_neg hopen, map_add_map_add]
  | plain _ h ih =>
      obtain ⟨n, rfl, hn⟩ := ih
      refine ⟨n + _, List.drop_drop, ?_⟩
      rw [hn, blockCommentScan?_round, h, map_add_map_add]

/-- Only in front of the first mark, which opens, no comment is open. -/
theorem pos_of_closing (h : PassesBy text depth cs) (hfirst : commentPart text = .opening)
    (hclosing : commentPart cs = .closing) : 0 < depth := by
  have hpos : 0 < depth ∨ depth = 0 ∧ cs = text := by
    clear hclosing
    induction h with
    | start => exact .inr ⟨rfl, rfl⟩
    | opening => exact .inl (Nat.succ_pos _)
    | closing _ _ hopen => exact .inl (Nat.pos_of_ne_zero hopen)
    | plain _ h ih =>
        rcases ih with hpos | ⟨-, rfl⟩
        · exact .inl hpos
        · cases h.symm.trans hfirst
  rcases hpos with hpos | ⟨-, rfl⟩
  · exact hpos
  · cases hclosing.symm.trans hfirst

end PassesBy

end Text

open Text

namespace Lexer

/-- Where the text goes on with a block comment, whatever mode is in force: if the nesting comes
back to zero, the token ends there and the modes stay as they are, and if it does not, all the rest
of the text is an error and the modes start over. The counter is never lowered at zero. -/
theorem next_blockComment (l : Lexer) {rest : List Char} (h : l.cursor.rest = '/' :: '*' :: rest) :
    (∀ ms behind, marks l.cursor.rest = ms ++ behind → Closes 0 ms →
      l.next.1.kind = .blockComment ∧ l.next.1.text.toList = written ms ∧ l.next.2.1 = none ∧
        l.next.2.2.modes = l.modes ∧ l.next.2.2.cursor.rest = written behind) ∧
    ((¬ ∃ ms behind, marks l.cursor.rest = ms ++ behind ∧ Closes 0 ms) →
      l.next.1.kind = .error ∧ l.next.1.text.toList = l.cursor.rest ∧
        l.next.2.2.modes = .bottom ∧ l.next.2.2.cursor.rest = []) ∧
    ∀ depth cs, PassesBy l.cursor.rest depth cs → commentPart cs = .closing → 0 < depth := by
  have hne : l.cursor.rest ≠ [] := by
    rw [h]
    nofun
  have hnext : l.next =
      (l.stepToken.truncated, l.stepDiagnostic?.map Diagnostic.truncated, l.afterStep) :=
    if_neg hne
  have hstep : l.step = .blockComment l.modes l.cursor.rest := by
    rw [step, h]
    rfl
  refine ⟨fun ms behind hms hcloses => ?_, fun hnone => ?_, fun depth cs hpasses => ?_⟩
  · -- The marks up to the close are the comment's text, and no other prefix closes.
    have hlength : blockCommentLength? l.cursor.rest = some (written ms).length := by
      rw [h] at hms ⊢
      exact blockCommentLength?_eq_some_iff.mpr ⟨ms, behind, hms, hcloses, rfl⟩
    have htext : l.cursor.rest = written ms ++ written behind := by
      rw [← written_append, ← hms, written_marks]
    have htoken : l.step = .token l.modes .blockComment (written ms).length := by
      rw [hstep, Token.Step.blockComment, hlength]
    rw [hnext]
    refine ⟨by rw [stepToken, htoken]; rfl, ?_, by rw [stepDiagnostic?, htoken]; rfl,
      by rw [afterStep, htoken]; rfl, ?_⟩
    · rw [stepToken, htoken, htext]
      simp [Token.spanning, Token.truncated, Token.Step.token]
    · rw [afterStep, htoken]
      simp [Cursor.skip, Token.Step.token, htext]
  · -- A length found would give the prefix that there is none of, so all of the text is taken.
    have hlength : blockCommentLength? l.cursor.rest = none := by
      rw [Option.eq_none_iff_forall_ne_some]
      intro n hn
      rw [h] at hn hnone
      obtain ⟨ms, behind, hms, hcloses, -⟩ := blockCommentLength?_eq_some_iff.mp hn
      exact hnone ⟨ms, behind, hms, hcloses⟩
    have htoken : l.step = .unterminated l.modes .blockComment l.cursor.rest.length := by
      rw [hstep, Token.Step.blockComment, hlength]
    rw [hnext]
    refine ⟨by rw [stepToken, htoken]; rfl, ?_, by rw [afterStep, htoken]; rfl, ?_⟩
    · rw [stepToken, htoken]
      simp [Token.spanning, Token.truncated, Token.Step.unterminated]
    · rw [afterStep, htoken]
      simp [Cursor.skip, Token.Step.unterminated]
  · exact hpasses.pos_of_closing (by rw [h]; rfl)

/-- A comment in a comment, with marks that overlap. -/
theorem next_blockComment_nested :
    let l : Lexer := ⟨false, .ofText "/*/**/*/|", ModeStack.bottom.push .setting⟩
    l.next.1.kind = .blockComment ∧ l.next.1.text.toList = "/*/**/*/".toList ∧
      l.next.2.2.modes = l.modes := by
  intro l
  have hcloses : Closes 0 [.opening, .opening, .closing, .closing] := by
    simp [closes_cons_iff]
  obtain ⟨hkind, htext, -, hmodes, -⟩ :=
    (next_blockComment l rfl).1 [.opening, .opening, .closing, .closing] [.other '|'] rfl hcloses
  exact ⟨hkind, htext, hmodes⟩

end Lexer

end PipeQuery
