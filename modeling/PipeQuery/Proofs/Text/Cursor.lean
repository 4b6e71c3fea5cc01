import Mathlib.Algebra.Group.Nat.Defs
import Mathlib.Logic.Function.Iterate
import PipeQuery.Proofs.Text.Place

/-!
# `PipeQuery.Proofs.Text.Cursor`: a cursor counts right, however it is moved

A cursor may go one character ahead, or over a stretch of the text at once. A move over a stretch
computes the new line and column from the characters passed. All moves come down to one:

* `skip_eq_iterate`: a move over `n` characters is `n` steps.
* `skipWhile_eq_advanceWhile`, `skipTo_eq_advanceWhile`: where a move stops is where steps that look
  at one character each would stop.
* `Call.exists_iterate`, `exists_iterate`: so every call, and every sequence of calls, is a number of
  steps.

What one step keeps, every sequence of calls keeps. The invariant is `StandsIn`: the cursor is between
two characters of the text, and its position is what one counts who reads all before it.
`calls_countIn` puts together what this means for a cursor that was moved through a text from its
start, in whatever way.
-/

set_option autoImplicit false

namespace PipeQuery.Text

/-- A position moved over a stretch is moved over its first character and then over the others. -/
theorem Position.after_cons (p : Position) (ch : Char) (cs : List Char) :
    p.after (ch :: cs) = (p.next ch).after cs := by
  -- From the end of the stretch, where `after_concat` adds a character.
  induction cs using List.reverseRecOn with
  | nil => rw [← List.nil_append [ch], after_concat, after_nil, after_nil]
  | append_singleton cs last ih => rw [← List.cons_append, after_concat, after_concat, ih]

/-- No line begins without a line feed before it. -/
theorem Position.IsBehind.line_le {p : Position} {before : List Char} (h : p.IsBehind before) :
    p.line ≤ 1 + before.length := by
  rw [h.line_eq]
  exact Nat.add_le_add_left List.count_le_length 1

/-- A line holds no more characters than the text. -/
theorem Position.IsBehind.col_le {p : Position} {before : List Char} (h : p.IsBehind before) :
    p.col ≤ 1 + before.length := by
  -- The column counts the characters of the current line, which is a part of what is before.
  obtain ⟨lines, current, rfl, -, -, hcol⟩ := h.col_eq
  rw [hcol, List.length_append]
  omega

/-- The offset counts the bytes of the character passed. -/
theorem Position.next_offset (p : Position) (ch : Char) :
    (p.next ch).offset = p.offset + ch.utf8Size := by
  unfold next
  split <;> rfl

/-- Every character has a byte at least. -/
theorem length_le_byteLength (cs : List Char) : cs.length ≤ byteLength cs := by
  induction cs with
  | nil => exact Nat.le_refl 0
  | cons ch cs ih =>
      have hpos := ch.utf8Size_pos
      rw [List.length_cons, byteLength_cons]
      omega

namespace Cursor

variable {text : String} {c : Cursor}

/-! ### Steps -/

/-- The cursor one character ahead, or the same at the end. -/
def step (c : Cursor) : Cursor :=
  c.advance.2

/-- At the end of the text a step stays there. -/
theorem step_nil (h : c.rest = []) : c.step = c := by
  rw [step, advance, h]

/-- Elsewhere it passes the first character and counts it. -/
theorem step_cons {ch : Char} {rest : List Char} (h : c.rest = ch :: rest) :
    c.step = ⟨rest, c.position.next ch⟩ := by
  rw [step, advance, h]

/-- A move over many characters is as many steps. -/
theorem skip_eq_iterate (c : Cursor) (n : Nat) : c.skip n = step^[n] c := by
  induction n generalizing c with
  | zero => simp [skip]
  | succ n ih =>
      rw [Function.iterate_succ_apply, ← ih]
      cases h : c.rest with
      | nil =>
          rw [step_nil h, skip, skip, h, List.drop_nil, List.drop_nil, List.take_nil, List.take_nil]
      | cons ch rest =>
          rw [step_cons h, skip, skip, h, List.drop_succ_cons, List.take_succ_cons,
            Position.after_cons]

/-! ### Where a move stops -/

/-- Advances one character at a time, as long as the next character, seen from the place of the
cursor, is to be passed. -/
def advanceWhile (passes : Position → Char → Bool) (c : Cursor) : Cursor :=
  match _h : c.rest with
  | [] => c
  | ch :: _ => if passes c.position ch then c.step.advanceWhile passes else c
termination_by c.rest.length
decreasing_by rw [step_cons _h, _h]; exact Nat.lt_succ_self _

variable {passes : Position → Char → Bool}

/-- At the end of the text there is nothing to advance over. -/
theorem advanceWhile_nil (h : c.rest = []) : c.advanceWhile passes = c := by
  rw [advanceWhile]
  split
  · rfl
  · next ch rest hcons => exact absurd (h.symm.trans hcons) (List.cons_ne_nil ch rest).symm

/-- Elsewhere the first character decides whether to go on. -/
theorem advanceWhile_cons {ch : Char} {rest : List Char} (h : c.rest = ch :: rest) :
    c.advanceWhile passes = if passes c.position ch then c.step.advanceWhile passes else c := by
  rw [advanceWhile]
  split
  · next hnil => exact absurd (h.symm.trans hnil) (List.cons_ne_nil ch rest)
  · next ch' rest' hcons =>
      obtain ⟨rfl, rfl⟩ := List.cons.inj (h.symm.trans hcons)
      rfl

/-- A move over the characters that satisfy a condition is a step for each, up to the first that
does not. -/
theorem skipWhile_eq_advanceWhile (c : Cursor) (p : Char → Bool) :
    c.skipWhile p = c.advanceWhile fun _ ch => p ch := by
  obtain ⟨rest, position⟩ := c
  induction rest generalizing position with
  | nil => rw [advanceWhile_nil rfl]; rfl
  | cons ch rest ih =>
      rw [advanceWhile_cons rfl, skipWhile]
      cases hp : p ch with
      | true =>
          have hlength : ((ch :: rest).takeWhile p).length = (rest.takeWhile p).length + 1 := by
            rw [List.takeWhile_cons_of_pos hp, List.length_cons]
          rw [hlength, skip_eq_iterate, Function.iterate_succ_apply, ← skip_eq_iterate, if_pos rfl,
            step_cons rfl, ← ih]
          rfl
      | false =>
          have hlength : ((ch :: rest).takeWhile p).length = 0 := by
            rw [List.takeWhile_cons_of_neg (by simp [hp]), List.length_nil]
          rw [hlength, skip_eq_iterate]
          rfl

/-- A move to an offset is a step for each character that ends at or before it. -/
theorem skipTo_eq_advanceWhile (c : Cursor) (offset : Nat) :
    c.skipTo offset = c.advanceWhile fun p ch => p.offset + ch.utf8Size ≤ offset := by
  obtain ⟨rest, position⟩ := c
  induction rest generalizing position with
  | nil => rw [advanceWhile_nil rfl]; rfl
  | cons ch rest ih =>
      have hpos := ch.utf8Size_pos
      rw [advanceWhile_cons rfl, skipTo]
      -- The bytes left to the target hold the character just if it ends at or before the target; a
      -- target behind the cursor leaves none, and no character is without bytes.
      by_cases hends : position.offset + ch.utf8Size ≤ offset
      · have hfits : ch.utf8Size ≤ offset - position.offset := by omega
        have hleft : offset - position.offset - ch.utf8Size =
            offset - (position.next ch).offset := by
          rw [Position.next_offset, Nat.sub_sub]
        rw [fitting, if_pos hfits, hleft, skip_eq_iterate, Function.iterate_succ_apply,
          ← skip_eq_iterate, if_pos (decide_eq_true hends), step_cons rfl, ← ih]
        rfl
      · have hbehind : ¬ ch.utf8Size ≤ offset - position.offset := by omega
        rw [fitting, if_neg hbehind, skip_eq_iterate, if_neg (by simpa using hends)]
        rfl

/-! ### Calls -/

/-- A call of a cursor. -/
inductive Call where
  | advance
  /-- Over so many characters, which is also what a condition that remembers the characters before
  comes to. -/
  | skip (n : Nat)
  | skipWhile (p : Char → Bool)
  | skipTo (offset : Nat)
  | skipLine
  /-- What only looks at the text ahead. -/
  | look

/-- The cursor behind a call. -/
def Call.run : Call → Cursor → Cursor
  | .advance, c => c.advance.2
  | .skip n, c => c.skip n
  | .skipWhile p, c => c.skipWhile p
  | .skipTo offset, c => c.skipTo offset
  | .skipLine, c => c.skipLine
  | .look, c => c

/-- The cursor behind some calls, the first of them first. -/
def calls (c : Cursor) (made : List Call) : Cursor :=
  made.foldl (fun c call => call.run c) c

/-- Every call is a number of steps. -/
theorem Call.exists_iterate (call : Call) (c : Cursor) : ∃ n, call.run c = step^[n] c := by
  cases call with
  | advance => exact ⟨1, rfl⟩
  | skip n => exact ⟨n, skip_eq_iterate c n⟩
  | skipWhile p => exact ⟨_, skip_eq_iterate c _⟩
  | skipTo offset => exact ⟨_, skip_eq_iterate c _⟩
  | skipLine => exact ⟨_, skip_eq_iterate c _⟩
  | look => exact ⟨0, rfl⟩

/-- So is every sequence of calls. -/
theorem exists_iterate (c : Cursor) (made : List Call) : ∃ n, c.calls made = step^[n] c := by
  induction made generalizing c with
  | nil => exact ⟨0, rfl⟩
  | cons call made ih =>
      -- The steps of the first call, and then those of the others from where it leads.
      obtain ⟨n, hn⟩ := call.exists_iterate c
      obtain ⟨m, hm⟩ := ih (call.run c)
      refine ⟨m + n, ?_⟩
      rw [Function.iterate_add_apply, ← hn, ← hm]
      rfl

/-! ### What one step keeps -/

/-- The cursor is at a place of the text, and its position counts what is before. -/
def StandsIn (text : String) (c : Cursor) : Prop :=
  ∃ before, text.toList = before ++ c.rest ∧ c.position.IsBehind before

/-- The cursor of a text stands at its start. -/
theorem standsIn_ofText (text : String) : (ofText text).StandsIn text :=
  ⟨[], rfl, Position.isBehind_start⟩

/-- One step. -/
theorem StandsIn.step (h : c.StandsIn text) : c.step.StandsIn text := by
  cases hrest : c.rest with
  | nil => rwa [step_nil hrest]
  | cons ch rest =>
      obtain ⟨before, htext, hbehind⟩ := h
      rw [step_cons hrest]
      refine ⟨before ++ [ch], ?_, hbehind.next ch⟩
      rw [htext, hrest, List.append_assoc]
      rfl

/-- Any number of steps. -/
theorem StandsIn.iterate (h : c.StandsIn text) (n : Nat) : (Cursor.step^[n] c).StandsIn text := by
  induction n with
  | zero => exact h
  | succ n ih =>
      rw [Function.iterate_succ_apply']
      exact ih.step

/-- Any calls. -/
theorem StandsIn.calls (h : c.StandsIn text) (made : List Call) : (c.calls made).StandsIn text := by
  obtain ⟨n, hn⟩ := c.exists_iterate made
  rw [hn]
  exact h.iterate n

/-- A step never goes back. -/
theorem offset_le_step (c : Cursor) : c.position.offset ≤ c.step.position.offset := by
  cases h : c.rest with
  | nil => rw [step_nil h]
  | cons ch rest =>
      rw [step_cons h, Position.next_offset]
      exact Nat.le_add_right _ _

/-- Steps do not lead back. -/
theorem offset_le_iterate (c : Cursor) (n : Nat) :
    c.position.offset ≤ (step^[n] c).position.offset := by
  induction n with
  | zero => exact Nat.le_refl _
  | succ n ih =>
      rw [Function.iterate_succ_apply']
      exact Nat.le_trans ih (offset_le_step _)

/-- Calls do not lead back. -/
theorem offset_le_calls (c : Cursor) (made : List Call) :
    c.position.offset ≤ (c.calls made).position.offset := by
  obtain ⟨n, hn⟩ := c.exists_iterate made
  rw [hn]
  exact c.offset_le_iterate n

/-! ### Every cursor that was moved through a text -/

/-- The cursor counts as one does who reads the text character by character. -/
structure CountsIn (text : String) (c : Cursor) : Prop where
  /-- The line is one more than the line feeds before, the column one more than the characters
  behind the last of these. -/
  standsIn : c.StandsIn text
  boundary : (⟨c.position.offset⟩ : String.Pos.Raw).IsValid text
  offset_le : c.position.offset ≤ text.utf8ByteSize
  /-- Lines and columns are numbers of 32 bits. -/
  line_lt : c.position.line < 2 ^ 32
  col_lt : c.position.col < 2 ^ 32
  /-- No further calls lead back. -/
  onward : ∀ made, c.position.offset ≤ (c.calls made).position.offset
  /-- A move under a condition stops where steps over characters that satisfy it stop. -/
  skipWhile_eq : ∀ p, c.skipWhile p = c.advanceWhile fun _ ch => p ch
  /-- A move to an offset stops where steps over characters that end at or before it stop. -/
  skipTo_eq : ∀ offset, c.skipTo offset = c.advanceWhile fun p ch => p.offset + ch.utf8Size ≤ offset

/-- Whatever calls are made of a cursor that starts at the beginning of a text, it counts right. In a
text of this size no line and no column goes beyond 32 bits. -/
theorem calls_countIn {text : String} (hsize : text.utf8ByteSize < 2 ^ 32 - 1) (made : List Call) :
    ((ofText text).calls made).CountsIn text := by
  obtain ⟨before, htext, hbehind⟩ := (standsIn_ofText text).calls made
  have hoffset : ((ofText text).calls made).position.offset ≤ text.utf8ByteSize := by
    rw [hbehind.offset_eq, ← String.ofList_toList (s := text), utf8ByteSize_ofList, htext,
      byteLength_append]
    exact Nat.le_add_right _ _
  have hlength := hbehind.offset_eq ▸ length_le_byteLength before
  have hline := hbehind.line_le
  have hcol := hbehind.col_le
  exact {
    standsIn := ⟨before, htext, hbehind⟩
    boundary := by
      rw [hbehind.offset_eq]
      exact isValid_byteLength htext
    offset_le := hoffset
    line_lt := by omega
    col_lt := by omega
    onward := fun more => offset_le_calls _ more
    skipWhile_eq := skipWhile_eq_advanceWhile _
    skipTo_eq := skipTo_eq_advanceWhile _ }

/-- A target inside a character, a line skipped, and a target behind the cursor. -/
theorem calls_countIn_twoLines :
    "é\nbc".utf8ByteSize < 2 ^ 32 - 1 ∧
      ((ofText "é\nbc").calls [.skipTo 1, .skipLine, .advance, .look, .skipTo 2]).CountsIn "é\nbc" ∧
      ((ofText "é\nbc").calls [.skipTo 1, .skipLine, .advance, .look, .skipTo 2]).position =
        ⟨4, 2, 2⟩ :=
  ⟨by decide, calls_countIn (by decide) _, by decide⟩

end Cursor

end PipeQuery.Text
