import PipeQuery.CommandLine.Shell
import PipeQuery.Proofs.Text.Trim

/-!
# `PipeQuery.Proofs.CommandLine.Waiting`: lines that wait for more

`Shell` keeps the lines of an unfinished query in one text, and decides about the next line by what
that text says. `Shell.waiting` is the shell while some lines wait, where these are lines that are
read as one query (`Collects`); the text is then their `content`, which says something as soon as
there is a line (`Collects.trim_content_ne`). So what the next line means is a matter of whether any
lines wait: `onLine_quit`, `onLine_command` and `onLine_blank` where none do, `onLine_submits` for
the blank line behind some, and `onLine_adds` with `extend_waiting` for any line that is one more.
-/

set_option autoImplicit false

namespace PipeQuery

namespace Text

/-- Joining some texts and one more. -/
theorem joined_concat (separator last : String) {pieces : List String} (hne : pieces ≠ []) :
    joined separator (pieces ++ [last]) = joined separator pieces ++ separator ++ last := by
  induction pieces with
  | nil => exact absurd rfl hne
  | cons piece pieces ih =>
      cases pieces with
      | nil => rfl
      | cons next pieces =>
          have hstep : joined separator (piece :: next :: pieces) =
              piece ++ separator ++ joined separator (next :: pieces) := rfl
          have hstep' : joined separator (piece :: next :: pieces ++ [last]) =
              piece ++ separator ++ joined separator (next :: pieces ++ [last]) := rfl
          rw [hstep, hstep', ih (List.cons_ne_nil _ _)]
          simp only [String.append_assoc]

end Text

/-! ### Lines -/

namespace Shell

/-- A line as it is read, and its text, which is what stands in front of the line end. -/
structure Line where
  raw : String
  text : String
  strips : Text.Strips raw text
deriving DecidableEq, Repr

/-- The line that is read, with the text that it has. -/
def Line.ofRaw (raw : String) : Line :=
  ⟨raw, Text.trimLineEnd raw, Text.strips_trimLineEnd raw⟩

/-- The shell strips a line to its text. -/
@[simp]
theorem Line.trimLineEnd_raw (line : Line) : Text.trimLineEnd line.raw = line.text :=
  (Text.strips_trimLineEnd line.raw).unique line.strips

/-- What a line says, without its line end and the white space around. -/
def said (line : Line) : String :=
  Text.trim line.text

/-- The line says nothing. -/
def isBlankLine (line : Line) : Bool :=
  said line = ""

/-- At the primary prompt the line is a command to the shell. -/
def isDotted (line : Line) : Bool :=
  ['.'].isPrefixOf (said line).toList

/-- At the primary prompt the line ends the shell. -/
def isQuit (line : Line) : Bool :=
  said line = ".exit" || said line = ".quit"

/-- The text of some lines, without the line end of the last. -/
def content (lines : List Line) : String :=
  Text.joined "\n" (lines.map Line.text)

/-- The lines are read as one query: the first is no command, none is blank, and in front of the
last, or of any before, the query was not finished. -/
structure Collects (lines : List Line) : Prop where
  opening : ∀ line ∈ lines.head?, isDotted line = false
  not_blank : ∀ line ∈ lines, isBlankLine line = false
  unfinished : ∀ front, front <+: lines → front ≠ lines → isComplete (content front) = false

/-- One more line stands behind a line feed. -/
theorem content_concat {lines : List Line} (hne : lines ≠ []) (line : Line) :
    content (lines ++ [line]) = content lines ++ "\n" ++ line.text := by
  rw [content, List.map_append, List.map_singleton, Text.joined_concat]
  · rfl
  · exact fun hnil => hne (List.map_eq_nil_iff.mp hnil)

/-- A line that ends the shell is a command to it. -/
theorem isDotted_of_isQuit {line : Line} (h : isQuit line = true) : isDotted line = true := by
  rcases Bool.or_eq_true_iff.mp h with h | h
  · rw [isDotted, of_decide_eq_true h]
    rfl
  · rw [isDotted, of_decide_eq_true h]
    rfl

/-- A blank line is no command to the shell. -/
theorem not_isDotted_of_isBlankLine {line : Line} (h : isBlankLine line = true) :
    isDotted line = false := by
  rw [isDotted, of_decide_eq_true h]
  rfl

namespace Collects

/-- No lines wait at the start. -/
theorem nil : Collects [] where
  opening := by simp
  not_blank := by simp
  unfinished front hprefix hne := absurd (List.prefix_nil.mp hprefix) hne

variable {lines : List Line} {line : Line}

/-- What stands in front of the last line was read as an unfinished query. -/
theorem init (h : Collects (lines ++ [line])) :
    Collects lines ∧ isComplete (content lines) = false := by
  have hne : lines ≠ lines ++ [line] := by simp
  refine ⟨⟨fun first hfirst => ?_, fun l hl => h.not_blank l (List.mem_append_left _ hl),
    fun f hf hne => ?_⟩, h.unfinished lines (List.prefix_append _ _) hne⟩
  · refine h.opening first ?_
    rw [List.head?_append, Option.mem_def.mp hfirst]
    rfl
  · refine h.unfinished f (hf.trans (List.prefix_append _ _)) ?_
    rintro rfl
    have hlength := hf.length_le
    rw [List.length_append, List.length_singleton] at hlength
    omega

/-- One more line is read with the others if they wait for it. -/
theorem concat (h : Collects lines) (hopen : isComplete (content lines) = false)
    (hblank : isBlankLine line = false) (hfirst : lines = [] → isDotted line = false) :
    Collects (lines ++ [line]) where
  opening l hl := by
    cases lines with
    | nil =>
        have hl : line = l := by simpa using hl
        exact hl ▸ hfirst rfl
    | cons first lines => exact h.opening l hl
  not_blank l hl := by
    rcases List.mem_append.mp hl with hl | hl
    · exact h.not_blank l hl
    · rwa [List.mem_singleton.mp hl]
  unfinished f hf hne := by
    rcases List.prefix_concat_iff.mp hf with rfl | hf
    · exact absurd rfl hne
    · by_cases heq : f = lines
      · subst heq
        exact hopen
      · exact h.unfinished f hf heq

/-- Lines that are read as a query say something. -/
theorem trim_content_ne (h : Collects lines) (hne : lines ≠ []) :
    Text.trim (content lines) ≠ "" := by
  cases lines with
  | nil => exact absurd rfl hne
  | cons line lines =>
      intro hempty
      have hall := Text.trim_eq_empty_iff.mp hempty
      have hblank : said line ≠ "" := by simpa [isBlankLine] using h.not_blank line (by simp)
      refine hblank (Text.trim_eq_empty_iff.mpr fun c hc => hall c ?_)
      cases lines with
      | nil => exact hc
      | cons next lines =>
          show c ∈ (line.text ++ "\n" ++ Text.joined "\n" _).toList
          rw [String.toList_append, String.toList_append]
          exact List.mem_append_left _ (List.mem_append_left _ hc)

end Collects

/-! ### What a line means while lines wait -/

/-- The shell while some lines wait for more. -/
def waiting (s : Shell) (lines : List Line) : Shell :=
  { s with pending := content lines }

variable {s : Shell} {lines : List Line} {line : Line}

/-- The shell without a pending query is the one for which no lines wait. -/
theorem waiting_nil (hs : s.pending = "") : s.waiting [] = s := by
  cases s
  cases hs
  rfl

/-- The shell is idle just if no lines wait. -/
theorem isIdle_waiting (h : Collects lines) : (s.waiting lines).isIdle = decide (lines = []) := by
  by_cases hne : lines = []
  · subst hne
    rfl
  · rw [decide_eq_false hne]
    exact decide_eq_false (h.trim_content_ne hne)

/-- The prompt asks for a query while no lines wait, and then for more of it. -/
theorem prompt_waiting (h : Collects lines) :
    (s.waiting lines).prompt = if lines.length = 0 then "esql> " else " ...> " := by
  rw [prompt, isIdle_waiting h]
  simp [List.length_eq_zero_iff]

/-- What the shell makes of a line, by what the line says. -/
theorem onLine_eq (s : Shell) (line : Line) :
    s.onLine line.raw =
      if s.isIdle then
        if isQuit line then (s, .quit)
        else if isDotted line then s.onDotCommand (said line)
        else if isBlankLine line then (s, .wait)
        else s.extend line.text
      else if isBlankLine line then (s.cleared, .submit (Text.trim s.pending))
      else s.extend line.text := by
  have hsaid : Text.trim line.text = said line := rfl
  simp only [onLine, line.trimLineEnd_raw, hsaid, isQuit, isDotted, isBlankLine, Bool.or_eq_true,
    decide_eq_true_eq]

/-- A line that ends the shell, while no lines wait. -/
theorem onLine_quit (h : isQuit line = true) :
    (s.waiting []).onLine line.raw = (s.waiting [], .quit) := by
  rw [onLine_eq, isIdle_waiting .nil, decide_eq_true rfl, if_pos rfl, if_pos h]

/-- A dot command, while no lines wait. -/
theorem onLine_command (h : isDotted line = true) (hquit : isQuit line = false) :
    (s.waiting []).onLine line.raw = (s.waiting []).onDotCommand (said line) := by
  rw [onLine_eq, isIdle_waiting .nil, decide_eq_true rfl, if_pos rfl, hquit,
    if_neg Bool.false_ne_true, if_pos h]

/-- A blank line passes without effect while no lines wait. -/
theorem onLine_blank (h : isBlankLine line = true) :
    (s.waiting []).onLine line.raw = (s.waiting [], .wait) := by
  have hdotted := not_isDotted_of_isBlankLine h
  have hquit : ¬ isQuit line = true := fun hquit => by
    rw [isDotted_of_isQuit hquit] at hdotted
    cases hdotted
  rw [onLine_eq, isIdle_waiting .nil, decide_eq_true rfl, if_pos rfl, if_neg hquit, hdotted,
    if_neg Bool.false_ne_true, if_pos h]

/-- A blank line submits the lines that wait. -/
theorem onLine_submits (h : Collects lines) (hne : lines ≠ []) (hblank : isBlankLine line = true) :
    (s.waiting lines).onLine line.raw = (s.waiting [], .submit (Text.trim (content lines))) := by
  rw [onLine_eq, isIdle_waiting h, decide_eq_false hne, if_neg Bool.false_ne_true, if_pos hblank]
  rfl

/-- A line is put behind what is pending, which is submitted if that finishes it. -/
theorem extend_eq {text pending : String}
    (h : (if s.pending = "" then text else s.pending ++ "\n" ++ text) = pending) :
    s.extend text =
      if isComplete pending then (s.cleared, .submit (Text.trim pending))
      else ({ s with pending := pending }, .wait) := by
  subst h
  rfl

/-- A line that is put behind those that wait. -/
theorem extend_waiting (h : Collects (lines ++ [line])) :
    (s.waiting lines).extend line.text =
      if isComplete (content (lines ++ [line])) then
        (s.waiting [], .submit (Text.trim (content (lines ++ [line]))))
      else (s.waiting (lines ++ [line]), .wait) := by
  have hpending : (if content lines = "" then line.text
      else content lines ++ "\n" ++ line.text) = content (lines ++ [line]) := by
    by_cases hne : lines = []
    · subst hne
      rfl
    · have hcontent : content lines ≠ "" := by
        intro hempty
        refine h.init.1.trim_content_ne hne ?_
        rw [hempty]
        rfl
      rw [if_neg hcontent, content_concat hne]
  exact extend_eq hpending

/-- Any other line is added to those that wait. -/
theorem onLine_adds (h : Collects (lines ++ [line])) :
    (s.waiting lines).onLine line.raw = (s.waiting lines).extend line.text := by
  have hblank : isBlankLine line = false := h.not_blank line (by simp)
  rw [onLine_eq, isIdle_waiting h.init.1, hblank]
  by_cases hne : lines = []
  · subst hne
    have hdotted : isDotted line = false := h.opening line rfl
    have hquit : ¬ isQuit line = true := fun hquit => by
      rw [isDotted_of_isQuit hquit] at hdotted
      cases hdotted
    rw [decide_eq_true rfl, if_pos rfl, if_neg hquit, hdotted, if_neg Bool.false_ne_true,
      if_neg Bool.false_ne_true]
  · rw [decide_eq_false hne, if_neg Bool.false_ne_true, if_neg Bool.false_ne_true]

end Shell

end PipeQuery
