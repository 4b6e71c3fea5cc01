import PipeQuery.Proofs.Token.Tiling

/-!
# `PipeQuery.Proofs.Text.Place`: lines and columns

There are three ways to a line and a column: a cursor counts character by character
(`Position.next`) or over many characters at once (`Position.after`), and a place may be counted
anew from the start of the text (`Position.locate`). `Position.IsBehind` says what all of them are
to count, in terms of the characters before the place and of no counter. `after_concat` is the step
from one character to many; with it all three count the same.
-/

set_option autoImplicit false

namespace PipeQuery.Text

/-- The position behind the characters `before`: these are some whole lines and, in the line of the
position, the characters of `current`. -/
structure Position.IsBehind (p : Position) (before : List Char) : Prop where
  offset_eq : p.offset = byteLength before
  line_eq : p.line = 1 + before.count '\n'
  col_eq : ∃ lines current, before = lines ++ current ∧
    (lines = [] ∨ ∃ earlier, lines = earlier ++ ['\n']) ∧ '\n' ∉ current ∧
    p.col = 1 + current.length

/-- The offset is one between characters of the text, and it has this line and this column. -/
def IsPlace (text : String) (offset line col : Nat) : Prop :=
  ∃ before rest, text.toList = before ++ rest ∧ Position.IsBehind ⟨offset, line, col⟩ before

namespace Position

variable {p : Position} {before : List Char}

/-- The start of the text is behind no characters. -/
theorem isBehind_start : start.IsBehind [] :=
  ⟨rfl, rfl, [], [], rfl, .inl rfl, List.not_mem_nil, rfl⟩

/-- One more character. -/
theorem IsBehind.next (h : p.IsBehind before) (c : Char) : (p.next c).IsBehind (before ++ [c]) := by
  obtain ⟨hoffset, hline, lines, current, rfl, hlines, hcurrent, hcol⟩ := h
  by_cases hc : c = '\n'
  · -- The line is whole now, and nothing of the next one is passed.
    subst hc
    rw [Position.next, if_pos rfl]
    refine ⟨?_, ?_, (lines ++ current) ++ ['\n'], [], (List.append_nil _).symm, .inr ⟨_, rfl⟩,
      List.not_mem_nil, rfl⟩
    · rw [byteLength_append, ← hoffset]
      rfl
    · rw [List.count_append, ← Nat.add_assoc, ← hline]
      rfl
  · rw [Position.next, if_neg hc]
    refine ⟨?_, ?_, lines, current ++ [c], List.append_assoc _ _ _, hlines, ?_, ?_⟩
    · rw [byteLength_append, ← hoffset]
      rfl
    · rw [List.count_append, ← Nat.add_assoc, ← hline, List.count_singleton,
        if_neg (by simpa using hc)]
      rfl
    · rw [List.mem_append, List.mem_singleton]
      exact not_or.mpr ⟨hcurrent, Ne.symm hc⟩
    · rw [List.length_append, List.length_singleton, ← Nat.add_assoc, ← hcol]

/-- A move over many characters is a move over all but the last, and one more step. -/
theorem after_concat (p : Position) (cs : List Char) (c : Char) :
    p.after (cs ++ [c]) = (p.after cs).next c := by
  by_cases hc : c = '\n'
  · subst hc
    simp [after, next, Nat.add_assoc]
  · have hcount : [c].count '\n' = 0 := List.count_eq_zero.mpr (by simpa using Ne.symm hc)
    have hmem : '\n' ∈ cs ++ [c] ↔ '\n' ∈ cs := by simp [Ne.symm hc]
    by_cases hcs : '\n' ∈ cs
    · simp [after, next, hc, hmem, hcs, hcount, Nat.add_assoc]
    · simp [after, next, hc, hmem, hcs, hcount, Nat.add_assoc]

/-- Many more characters. -/
theorem IsBehind.after (h : p.IsBehind before) (cs : List Char) :
    (p.after cs).IsBehind (before ++ cs) := by
  induction cs using List.reverseRecOn with
  | nil => rwa [after_nil, List.append_nil]
  | append_singleton cs c ih =>
      rw [after_concat, ← List.append_assoc]
      exact ih.next c

/-- What is counted anew from the start of the text. -/
theorem isBehind_locate (before rest : List Char) :
    (locate (before ++ rest) (byteLength before)).IsBehind before := by
  have hmin : min (byteLength before) (byteLength (before ++ rest)) = byteLength before := by
    rw [byteLength_append]
    omega
  rw [locate, hmin, takeBytes_append, Option.getD_some]
  exact isBehind_start.after before

end Position

/-- Counted anew, an offset between characters has its line and its column. -/
theorem isPlace_locate {text : String} {offset : Nat}
    (h : (⟨offset⟩ : String.Pos.Raw).IsValid text) :
    IsPlace text offset (Position.locate text.toList offset).line
      (Position.locate text.toList offset).col := by
  rw [← String.ofList_toList (s := text), String.Pos.Raw.isValid_ofList] at h
  obtain ⟨n, hoffset⟩ := h
  obtain rfl : offset = byteLength (text.toList.take n) := by
    rw [← utf8ByteSize_ofList, ← hoffset]
  have hlocated := Position.isBehind_locate (text.toList.take n) (text.toList.drop n)
  rw [List.take_append_drop] at hlocated
  exact ⟨_, _, (List.take_append_drop n _).symm, rfl, hlocated.line_eq, hlocated.col_eq⟩

end PipeQuery.Text
