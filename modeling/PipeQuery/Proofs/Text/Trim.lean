import Mathlib.Data.List.Infix
import Mathlib.Data.List.TakeWhile
import PipeQuery.Text.Blank

/-!
# `PipeQuery.Proofs.Text.Trim`: what is cut off at the ends of a text

`Text.trimLineEnd` and `Text.trim` drop characters from the ends of a text. `Strips` and `Trims` say
what has to be left, by the characters alone: nothing but line ends, or white space, is lost, and
none of it is left at an end. `strips_trimLineEnd` and `trims_trim` prove it of the two functions.
As only one text can be left of a line (`Strips.unique`), what a line says may be given by `Strips`
without the function.
-/

set_option autoImplicit false

namespace PipeQuery.Text

/-! ### At the end of a list -/

section

variable {α : Type} {p : α → Bool} {cs : List α}

/-- Nothing is left just if everything is dropped. -/
theorem dropEndWhile_eq_nil_iff : dropEndWhile p cs = [] ↔ ∀ c ∈ cs, p c = true := by
  rw [dropEndWhile, List.reverse_eq_nil_iff, List.dropWhile_eq_nil_iff]
  simp

/-- What is dropped at the end satisfies `p`. -/
theorem exists_dropEndWhile (p : α → Bool) (cs : List α) :
    ∃ ending, cs = dropEndWhile p cs ++ ending ∧ ∀ c ∈ ending, p c = true := by
  refine ⟨(cs.reverse.takeWhile p).reverse, ?_, fun c hc => ?_⟩
  · rw [dropEndWhile, ← List.reverse_append, List.takeWhile_append_dropWhile, List.reverse_reverse]
  · exact List.mem_takeWhile_imp (List.mem_reverse.mp hc)

/-- What is left does not end with an element that satisfies `p`. -/
theorem getLast?_dropEndWhile : ∀ c ∈ (dropEndWhile p cs).getLast?, p c = false := by
  intro c hc
  have hhead := List.head?_dropWhile_not p cs.reverse
  rw [dropEndWhile, List.getLast?_reverse] at hc
  rw [Option.mem_def.mp hc] at hhead
  simpa using hhead

/-- Two lists that differ by endings of elements that satisfy `p`, and do not end with one
themselves, are equal. -/
theorem eq_of_append_eq {kept kept' ending ending' : List α}
    (h : kept ++ ending = kept' ++ ending') (hending : ∀ c ∈ ending, p c = true)
    (hending' : ∀ c ∈ ending', p c = true) (hlast : ∀ c ∈ kept.getLast?, p c = false)
    (hlast' : ∀ c ∈ kept'.getLast?, p c = false) : kept = kept' := by
  -- The longer of the two would end with an element of the other's ending.
  have hlonger : ∀ {kept more ending : List α}, (∀ c ∈ more ++ ending, p c = true) →
      (∀ c ∈ (kept ++ more).getLast?, p c = false) → more = [] := by
    intro kept more ending hmore hlast
    by_contra hne
    have hmem : more.getLast hne ∈ (kept ++ more).getLast? := by
      rw [List.getLast?_append_of_ne_nil _ hne, List.getLast?_eq_some_getLast hne]
      rfl
    have htrue := hmore _ (List.mem_append_left _ (List.getLast_mem hne))
    rw [hlast _ hmem] at htrue
    cases htrue
  rcases List.append_eq_append_iff.mp h with ⟨more, rfl, rfl⟩ | ⟨more, rfl, rfl⟩
  · rw [hlonger hending hlast', List.append_nil]
  · rw [hlonger hending' hlast, List.append_nil]

end

/-! ### Line ends -/

/-- The text is the line without the carriage returns and line feeds at its end. -/
structure Strips (line text : String) : Prop where
  /-- The line goes on behind the text, with nothing but carriage returns and line feeds. -/
  ending : ∃ ending : List Char, line.toList = text.toList ++ ending ∧
    ∀ c ∈ ending, c = '\r' ∨ c = '\n'
  /-- The text ends with neither. -/
  last : ∀ c ∈ text.toList.getLast?, c ≠ '\r' ∧ c ≠ '\n'

/-- The program's way to strip a line leaves what is to be left. -/
theorem strips_trimLineEnd (line : String) : Strips line (trimLineEnd line) := by
  obtain ⟨ending, hline, hending⟩ :=
    exists_dropEndWhile (fun c => c = '\n' || c = '\r') line.toList
  refine ⟨⟨ending, ?_, fun c hc => ?_⟩, fun c hc => ?_⟩
  · rwa [trimLineEnd, String.toList_ofList]
  · have h := hending c hc
    rw [Bool.or_eq_true, decide_eq_true_eq, decide_eq_true_eq] at h
    exact h.symm
  · rw [trimLineEnd, String.toList_ofList] at hc
    have h := getLast?_dropEndWhile c hc
    rw [Bool.or_eq_false_iff, decide_eq_false_iff_not, decide_eq_false_iff_not] at h
    exact h.symm

/-- Only one text is left of a line. -/
theorem Strips.unique {line text text' : String} (h : Strips line text)
    (h' : Strips line text') : text = text' := by
  obtain ⟨ending, hline, hending⟩ := h.ending
  obtain ⟨ending', hline', hending'⟩ := h'.ending
  rw [← String.toList_inj]
  refine eq_of_append_eq (p := fun c => c = '\r' || c = '\n') (hline.symm.trans hline')
    (fun c hc => ?_) (fun c hc => ?_) (fun c hc => ?_) fun c hc => ?_
  · simpa using hending c hc
  · simpa using hending' c hc
  · simpa using h.last c hc
  · simpa using h'.last c hc

/-! ### White space -/

/-- The second text is the first without the white space around it. -/
structure Trims (text trimmed : String) : Prop where
  /-- There is nothing but white space in front of what is left, and behind it. -/
  around : ∃ front behind : List Char, text.toList = front ++ trimmed.toList ++ behind ∧
    (∀ c ∈ front, isWhiteSpace c = true) ∧ ∀ c ∈ behind, isWhiteSpace c = true
  /-- It does not begin with white space. -/
  first : ∀ c ∈ trimmed.toList.head?, isWhiteSpace c = false
  /-- It does not end with white space. -/
  last : ∀ c ∈ trimmed.toList.getLast?, isWhiteSpace c = false

/-- The program's way to trim a text leaves what is to be left. -/
theorem trims_trim (text : String) : Trims text (trim text) := by
  obtain ⟨behind, hrest, hbehind⟩ :=
    exists_dropEndWhile isWhiteSpace (text.toList.dropWhile isWhiteSpace)
  refine ⟨⟨text.toList.takeWhile isWhiteSpace, behind, ?_, fun c => List.mem_takeWhile_imp,
    hbehind⟩, fun c hc => ?_, fun c hc => ?_⟩
  · rw [trim, String.toList_ofList, List.append_assoc, ← hrest, List.takeWhile_append_dropWhile]
  · rw [trim, String.toList_ofList] at hc
    -- What is left begins as it did before its end was cut off.
    have hhead := List.head?_dropWhile_not isWhiteSpace text.toList
    rw [hrest, List.head?_append, Option.mem_def.mp hc] at hhead
    simpa using hhead
  · rw [trim, String.toList_ofList] at hc
    exact getLast?_dropEndWhile c hc

/-- Trimming leaves nothing of a text just if it is all white space. -/
theorem trim_eq_empty_iff {text : String} :
    trim text = "" ↔ ∀ c ∈ text.toList, isWhiteSpace c = true := by
  rw [trim, String.ofList_eq_empty_iff, dropEndWhile_eq_nil_iff]
  constructor
  · intro h
    by_cases hrest : text.toList.dropWhile isWhiteSpace = []
    · exact List.dropWhile_eq_nil_iff.mp hrest
    · have hhead := List.head_dropWhile_not isWhiteSpace hrest
      rw [h _ (List.head_mem hrest)] at hhead
      cases hhead
  · exact fun h c hc => h c ((List.dropWhile_sublist _).mem hc)

end PipeQuery.Text
