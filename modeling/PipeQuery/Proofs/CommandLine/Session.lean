import Mathlib.Data.List.Forall2
import PipeQuery.Proofs.CommandLine.Waiting

/-!
# `PipeQuery.Proofs.CommandLine.Session`: nothing that is typed is lost or said twice

`Shell.run` adds lines to what is pending and empties it again as it goes. A `Session` is what that
should come to: the events of a run divided into parts, each of them a blank line, a dot command,
the lines of one query, or lines that an interrupt dropped. A `Line` is what was read together with
its text, the part in front of the line end, and a query is made of the texts of its lines.
`Session.IsRead` says what a part must look like, from its lines alone.

`leads_line` and `leads_interrupted` say what one event does. From them `Part.leads` says what a
part does, whichever lines it has, and `leads_parts` what all parts do; `exists_session` divides any
events into parts. Together they give `Shell.run_accounts`: every run without a failure is a
session. It submits what the parts say, in their order, prints what they print, exits with 0, and
goes on behind an interrupt as a shell without a pending query does.
-/

set_option autoImplicit false

namespace PipeQuery

/-! ### What is printed -/

namespace Console

variable {c : Console}

/-- To print neither opens nor closes the output. -/
@[simp]
theorem print_closed (c : Console) (text : String) : (c.print text).2.closed = c.closed := by
  unfold print
  split
  · rfl
  · split <;> rfl

/-- Nor does it to print and flush. -/
@[simp]
theorem printNow_closed (c : Console) (text : String) : (c.printNow text).2.closed = c.closed := by
  unfold printNow
  split
  · rfl
  · exact print_closed c text

/-- To complain goes to the other stream. -/
@[simp]
theorem complain_closed (c : Console) (line : String) : (c.complain line).closed = c.closed := rfl

/-- A failure is told on the other stream. -/
@[simp]
theorem fail_closed (c : Console) (failure : Failure) : (c.fail failure).2.closed = c.closed := by
  unfold fail
  dsimp only
  split <;> rfl

/-- Lines that are printed neither open nor close the output. -/
@[simp]
theorem printLines_closed (c : Console) (lines : List String) :
    (c.printLines lines).2.closed = c.closed := by
  induction lines generalizing c with
  | nil => rfl
  | cons line lines ih =>
      have hprint := c.print_closed (line ++ "\n")
      rw [printLines]
      split
      · rename_i heq
        rw [ih, ← hprint, heq]
      · rename_i heq
        rw [← hprint, heq]

/-- What was parsed is printed without opening or closing it. -/
@[simp]
theorem printParsed_closed (c : Console) (parsed : Parsed) (format : Format) :
    (c.printParsed parsed format).2.closed = c.closed := by
  unfold printParsed
  split
  · split
    · rfl
    · exact c.printLines_closed _
  · exact c.printLines_closed _
  · exact c.printLines_closed _

/-- Diagnostics that are told one by one leave the output as it is. -/
theorem foldl_complain_closed (text : Diagnostic → String) (told : List Diagnostic) (c : Console) :
    (told.foldl (fun c d => c.complain (text d)) c).closed = c.closed := by
  induction told generalizing c with
  | nil => rfl
  | cons d told ih => rw [List.foldl_cons, ih, complain_closed]

/-- A query is run without a change to the output's being open. -/
@[simp]
theorem runQuery_closed (c : Console) (text : String) (options : Options) (format : Format) :
    (c.runQuery text options format).2.closed = c.closed := by
  have hprint := c.printParsed_closed (parse text options) format
  unfold runQuery
  dsimp only
  split
  · exact c.fail_closed _
  · split
    · rename_i heq
      rw [← hprint, heq]
      rfl
    · rename_i heq
      rw [foldl_complain_closed (·.block text), ← hprint, heq]

/-- An open output takes what is printed. -/
theorem print_of_open (hc : c.closed = false) (text : String) :
    c.print text = (true, (c.print text).2) := by
  unfold print
  rw [hc]
  split <;> rfl

/-- It takes what is printed and flushed. -/
theorem printNow_of_open (hc : c.closed = false) (text : String) :
    c.printNow text = (true, (c.printNow text).2) := by
  unfold printNow
  rw [hc, if_neg Bool.false_ne_true]
  exact print_of_open hc text

/-- The console behind `n` prompts, of which the first asks for a query and the others for more of
it. -/
def prompted (c : Console) : Nat → Console
  | 0 => c
  | n + 1 => ((c.prompted n).printNow (if n = 0 then "esql> " else " ...> ")).2

/-- A prompt neither opens nor closes the output. -/
@[simp]
theorem prompted_closed (c : Console) (n : Nat) : (c.prompted n).closed = c.closed := by
  induction n with
  | zero => rfl
  | succ n ih => rw [prompted, printNow_closed, ih]

end Console

/-! ### Sessions -/

namespace Shell

/-- A stretch of events that the shell deals with as a whole. -/
inductive Part where
  /-- A blank line while no query is pending. -/
  | blank (line : Line)
  /-- A dot command while no query is pending. -/
  | command (line : Line)
  /-- The lines of a finished query. -/
  | query (lines : List Line)
  /-- Lines that a blank line submits as they are. -/
  | submitted (lines : List Line) (closing : Line)
  /-- An interrupt, and the lines in front of it that are dropped. -/
  | interrupted (lines : List Line)
deriving DecidableEq, Repr

/-- How a run ends. -/
inductive Finish where
  /-- A line that ends the shell; what is behind it is not read. -/
  | quit (line : Line) (unread : List ReadEvent)
  /-- The end of the input, and the lines in front of it that were pending. -/
  | endOfInput (lines : List Line)
deriving DecidableEq, Repr

/-- A run of the shell, part by part. -/
structure Session where
  parts : List Part
  finish : Finish
deriving DecidableEq, Repr

/-- The events of some lines. -/
def reads (lines : List Line) : List ReadEvent :=
  lines.map fun line => .line line.raw

/-- Lines are read one behind the other. -/
theorem reads_append (lines more : List Line) : reads (lines ++ more) = reads lines ++ reads more :=
  List.map_append

namespace Part

/-- The events of a part. -/
def events : Part → List ReadEvent
  | blank line => [.line line.raw]
  | command line => [.line line.raw]
  | query lines => reads lines
  | submitted lines closing => reads lines ++ [.line closing.raw]
  | interrupted lines => reads lines ++ [.interrupted]

/-- The lines of the part are what its name says. -/
def IsRead : Part → Prop
  | blank line => isBlankLine line = true
  | command line => isDotted line = true ∧ isQuit line = false
  | query lines => Collects lines ∧ isComplete (content lines) = true
  | submitted lines closing => lines ≠ [] ∧ Collects lines ∧ isComplete (content lines) = false ∧
      isBlankLine closing = true
  | interrupted lines => Collects lines ∧ isComplete (content lines) = false

/-- The lines whose query the part submits. -/
def block? : Part → Option (List Line)
  | query lines | submitted lines _ => some lines
  | blank _ | command _ | interrupted _ => none

/-- The query that the part submits. -/
def query? (part : Part) : Option String :=
  part.block?.map fun lines => Text.trim (content lines)

/-- The shell behind the part: a command may change options and format, nothing else does. -/
def after (s : Shell) : Part → Shell
  | command line => (s.onDotCommand (said line)).1
  | blank _ | query _ | submitted .. | interrupted _ => s

/-- What was printed by the end of the part. -/
def prints (files : String → Except ReadFault String) (s : Shell) (c : Console) : Part → Console
  | blank _ => c.prompted 1
  | command line =>
    ((s.onDotCommand (said line)).1.perform files (c.prompted 1) (s.onDotCommand (said line)).2).2
  | query lines =>
    ((c.prompted lines.length).runQuery (Text.trim (content lines)) s.options s.format).2
  | submitted lines _ =>
    ((c.prompted (lines.length + 1)).runQuery (Text.trim (content lines)) s.options s.format).2
  | interrupted lines => ((c.prompted (lines.length + 1)).print "\n").2

end Part

namespace Finish

/-- The events at the end of a run, unread ones included. -/
def events : Finish → List ReadEvent
  | quit line unread => .line line.raw :: unread
  | endOfInput lines => reads lines

/-- The lines at the end of the run are what the name says. -/
def IsRead : Finish → Prop
  | quit line _ => isQuit line = true
  | endOfInput lines => Collects lines ∧ isComplete (content lines) = false

/-- The lines whose query the end of the run submits. -/
def block? : Finish → Option (List Line)
  | quit .. => none
  | endOfInput lines => if lines = [] then none else some lines

/-- The query that the end of the run submits. -/
def query? (finish : Finish) : Option String :=
  finish.block?.map fun lines => Text.trim (content lines)

/-- At the end of the input the lines that wait are submitted, if there are any. -/
theorem query?_endOfInput (lines : List Line) : (endOfInput lines).query? =
    if lines = [] then none else some (Text.trim (content lines)) := by
  rw [query?, block?]
  split <;> rfl

/-- What was printed by the end of the run. -/
def prints (s : Shell) (c : Console) : Finish → Console
  | quit .. => c.prompted 1
  | endOfInput lines =>
    if lines = [] then c.prompted 1
    else ((c.prompted (lines.length + 1)).runQuery (Text.trim (content lines)) s.options s.format).2

end Finish

namespace Session

/-- All events of a run. -/
def events (x : Session) : List ReadEvent :=
  x.parts.flatMap Part.events ++ x.finish.events

/-- Every part is what its name says. -/
def IsRead (x : Session) : Prop :=
  (∀ part ∈ x.parts, part.IsRead) ∧ x.finish.IsRead

/-- The blocks of lines whose queries are submitted, in their order. -/
def blocks (x : Session) : List (List Line) :=
  x.parts.filterMap Part.block? ++ x.finish.block?.toList

/-- The queries that are submitted, in their order. -/
def queries (x : Session) : List String :=
  x.parts.filterMap Part.query? ++ x.finish.query?.toList

/-- Each query is the content of its block, trimmed. -/
theorem trims_blocks (x : Session) :
    List.Forall₂ (fun lines query => Text.Trims (content lines) query) x.blocks x.queries := by
  have hqueries : x.queries = x.blocks.map fun lines => Text.trim (content lines) := by
    have hparts : Part.query? = fun part => part.block?.map fun lines =>
        Text.trim (content lines) := rfl
    rw [queries, blocks, List.map_append, hparts, List.map_filterMap, Finish.query?]
    cases x.finish.block? <;> rfl
  rw [hqueries, List.forall₂_map_right_iff]
  exact List.forall₂_same.mpr fun lines _ => Text.trims_trim (content lines)

/-- What was printed by the end of the parts. -/
def shown (files : String → Except ReadFault String) (s : Shell) (c : Console) :
    List Part → Console
  | [] => c
  | part :: parts => shown files (part.after s) (part.prints files s c) parts

/-- What was printed by the end of the run. -/
def prints (files : String → Except ReadFault String) (s : Shell) (c : Console) (x : Session) :
    Console :=
  x.finish.prints (x.parts.foldl Part.after s) (shown files s c x.parts)

end Session

/-- The query that an action submits. -/
def Action.query? : Action → Option String
  | .submit query => some query
  | _ => none

/-- The pending queries that a run submits, in their order. -/
def submits (s : Shell) : List ReadEvent → List String
  | [] => s.atEnd?.toList
  | .interrupted :: events => s.cleared.submits events
  | .failed _ :: _ => []
  | .line text :: events =>
    if (s.onLine text).2 = .quit then []
    else (s.onLine text).2.query?.toList ++ (s.onLine text).1.submits events

/-! ### What a part does -/

/-- A run under way: the shell, what was printed so far and the events ahead. -/
structure Moment where
  shell : Shell
  console : Console
  ahead : List ReadEvent

/-- The run goes on from one moment to the other, and submits the queries in between. -/
structure Leads (files : String → Except ReadFault String) (m : Moment) (queries : List String)
    (m' : Moment) : Prop where
  run_eq : run files m.shell m.console m.ahead = run files m'.shell m'.console m'.ahead
  submits_eq : m.shell.submits m.ahead = queries ++ m'.shell.submits m'.ahead

section

variable (files : String → Except ReadFault String) {s s' : Shell} {c c' : Console}
  {lines : List Line} {line : Line}

variable {files} in
/-- A moment leads to itself without queries. -/
theorem Leads.refl (m : Moment) : Leads files m [] m :=
  ⟨rfl, rfl⟩

variable {files} in
/-- What two stretches of a session submit comes one behind the other. -/
theorem Leads.trans {m₁ m₂ m₃ : Moment} {queries queries' : List String}
    (h : Leads files m₁ queries m₂) (h' : Leads files m₂ queries' m₃) :
    Leads files m₁ (queries ++ queries') m₃ where
  run_eq := h.run_eq.trans h'.run_eq
  submits_eq := by rw [h.submits_eq, h'.submits_eq, List.append_assoc]

/-- A step: a line that does not end the shell. -/
theorem leads_line {action : Action} (hc : c.closed = false) (h : s.onLine line.raw = (s', action))
    (hperform : s'.perform files (c.printNow s.prompt).2 action = (none, c'))
    (events : List ReadEvent) :
    Leads files ⟨s, c, .line line.raw :: events⟩ action.query?.toList ⟨s', c', events⟩ where
  run_eq := by
    show run files s c (.line line.raw :: events) = run files s' c' events
    rw [run, c.printNow_of_open hc]
    simp only [onEvent, h, hperform]
  submits_eq := by
    have hquit : ¬ action = .quit := by
      rintro rfl
      cases hperform
    show s.submits (.line line.raw :: events) = _
    rw [submits, h, if_neg hquit]

/-- A step: an interrupt. -/
theorem leads_interrupted (hc : c.closed = false) (events : List ReadEvent) :
    Leads files ⟨s, c, .interrupted :: events⟩ []
      ⟨s.cleared, ((c.printNow s.prompt).2.print "\n").2, events⟩ where
  run_eq := by
    show run files s c (.interrupted :: events) = _
    rw [run, c.printNow_of_open hc]
    rfl
  submits_eq := rfl

/-- The console in front of the event that comes behind lines that wait. -/
theorem printNow_waiting (h : Collects lines) :
    ((c.prompted lines.length).printNow (s.waiting lines).prompt).2 =
      c.prompted (lines.length + 1) := by
  rw [prompt_waiting h]
  rfl

/-- Lines that wait are read one by one, each behind a prompt, and nothing is submitted. The
induction takes off the last line, the one that is put behind those that wait. -/
theorem leads_lines (hc : c.closed = false) (h : Collects lines)
    (hopen : isComplete (content lines) = false) (events : List ReadEvent) :
    Leads files ⟨s.waiting [], c, reads lines ++ events⟩ []
      ⟨s.waiting lines, c.prompted lines.length, events⟩ := by
  induction lines using List.reverseRecOn generalizing events with
  | nil => exact .refl _
  | append_singleton lines line ih =>
      obtain ⟨hinit, hinitOpen⟩ := h.init
      have hline : (s.waiting lines).onLine line.raw = (s.waiting (lines ++ [line]), .wait) := by
        rw [onLine_adds h, extend_waiting h, hopen, if_neg Bool.false_ne_true]
      have hperform : (s.waiting (lines ++ [line])).perform files
          ((c.prompted lines.length).printNow (s.waiting lines).prompt).2 .wait =
            (none, c.prompted (lines ++ [line]).length) := by
        rw [printNow_waiting hinit, List.length_append]
        rfl
      have hprompted : (c.prompted lines.length).closed = false := by rw [c.prompted_closed, hc]
      rw [reads_append, List.append_assoc]
      exact (ih hinit hinitOpen _).trans (leads_line files hprompted hline hperform events)

/-- An action of the shell neither opens nor closes the output. -/
theorem perform_closed (s : Shell) (c : Console) (action : Action) :
    (s.perform files c action).2.closed = c.closed := by
  cases action with
  | wait | complain | quit => rfl
  | submit query => exact c.runQuery_closed _ _ _
  | help =>
      have hprint := c.print_closed helpText
      rw [perform]
      split
      · rename_i heq
        rw [← hprint, heq]
      · rename_i heq
        rw [← hprint, heq]
  | readFile path =>
      rw [perform]
      split
      · exact c.runQuery_closed _ _ _
      · rfl

/-- While the output is open, only `quit` ends the shell. -/
theorem perform_of_open (hc : c.closed = false) {action : Action} (h : action ≠ .quit) :
    s.perform files c action = (none, (s.perform files c action).2) := by
  cases action with
  | wait | submit | complain => rfl
  | help => rw [perform, c.print_of_open hc]
  | readFile path => rw [perform]; split <;> rfl
  | quit => exact absurd rfl h

/-- A dot command leaves what is pending alone, and neither submits a pending query nor ends the
shell. -/
theorem onDotCommand_cases (s : Shell) (text : String) :
    (s.onDotCommand text).1.pending = s.pending ∧ (s.onDotCommand text).2 ≠ .quit ∧
      (s.onDotCommand text).2.query? = none := by
  unfold onDotCommand
  generalize words text = w
  obtain ⟨name, argument⟩ := w
  dsimp only
  repeat' split
  all_goals exact ⟨rfl, by rintro ⟨⟩, rfl⟩

namespace Part

/-- No part of a session leaves a block open behind it. -/
@[simp]
theorem after_pending (s : Shell) (part : Part) : (part.after s).pending = s.pending := by
  cases part with
  | command line => rw [after]; exact (s.onDotCommand_cases (said line)).1
  | _ => rfl

/-- What a part prints neither opens nor closes the output. -/
@[simp]
theorem prints_closed (s : Shell) (c : Console) (part : Part) :
    (part.prints files s c).closed = c.closed := by
  cases part with
  | command line => rw [prints, perform_closed, c.prompted_closed]
  | _ => simp [prints]

end Part

/-- The lines of a finished query are read, and their query is run. -/
theorem leads_query (hc : c.closed = false) (h : Collects lines)
    (hcomplete : isComplete (content lines) = true) (events : List ReadEvent) :
    Leads files ⟨s.waiting [], c, reads lines ++ events⟩ [Text.trim (content lines)]
      ⟨s.waiting [], (Part.query lines).prints files s c, events⟩ := by
  rcases List.eq_nil_or_concat lines with rfl | ⟨front, last, rfl⟩
  · cases hcomplete
  · -- The lines in front of the last one wait, and the last one finishes the query.
    rw [List.concat_eq_append] at h hcomplete ⊢
    obtain ⟨hfront, hopen⟩ := h.init
    have hprompted : (c.prompted front.length).closed = false := by rw [c.prompted_closed, hc]
    have hline : (s.waiting front).onLine last.raw =
        (s.waiting [], .submit (Text.trim (content (front ++ [last])))) := by
      rw [onLine_adds h, extend_waiting h, if_pos hcomplete]
    have hperform : (s.waiting []).perform files
        ((c.prompted front.length).printNow (s.waiting front).prompt).2
          (.submit (Text.trim (content (front ++ [last])))) =
          (none, (Part.query (front ++ [last])).prints files s c) := by
      rw [printNow_waiting hfront, Part.prints, List.length_append]
      rfl
    have hlast := leads_line files hprompted hline hperform events
    rw [reads_append, List.append_assoc]
    exact (leads_lines files hc hfront hopen _).trans hlast

/-- Lines that a blank line submits are read, and their query is run. -/
theorem leads_submitted {closing : Line} (hc : c.closed = false) (hne : lines ≠ [])
    (h : Collects lines) (hopen : isComplete (content lines) = false)
    (hblank : isBlankLine closing = true) (events : List ReadEvent) :
    Leads files ⟨s.waiting [], c, reads lines ++ .line closing.raw :: events⟩
      [Text.trim (content lines)]
      ⟨s.waiting [], (Part.submitted lines closing).prints files s c, events⟩ := by
  have hprompted : (c.prompted lines.length).closed = false := by rw [c.prompted_closed, hc]
  have hline := onLine_submits (s := s) h hne hblank
  have hperform : (s.waiting []).perform files
      ((c.prompted lines.length).printNow (s.waiting lines).prompt).2
        (.submit (Text.trim (content lines))) =
        (none, (Part.submitted lines closing).prints files s c) := by
    rw [printNow_waiting h]
    rfl
  have hclosing := leads_line files hprompted hline hperform events
  exact (leads_lines files hc h hopen _).trans hclosing

/-- Lines that wait when an interrupt comes are dropped. -/
theorem leads_dropped (hc : c.closed = false) (h : Collects lines)
    (hopen : isComplete (content lines) = false) (events : List ReadEvent) :
    Leads files ⟨s.waiting [], c, reads lines ++ .interrupted :: events⟩ []
      ⟨s.waiting [], (Part.interrupted lines).prints files s c, events⟩ := by
  have hprompted : (c.prompted lines.length).closed = false := by rw [c.prompted_closed, hc]
  have hinterrupted := leads_interrupted files (s := s.waiting lines) hprompted events
  rw [printNow_waiting h] at hinterrupted
  exact (leads_lines files hc h hopen _).trans hinterrupted

/-- A dot command is done. -/
theorem leads_command (hc : c.closed = false) (h : isDotted line = true)
    (hquit : isQuit line = false) (events : List ReadEvent) :
    Leads files ⟨s.waiting [], c, .line line.raw :: events⟩ []
      ⟨(Part.command line).after (s.waiting []),
        (Part.command line).prints files (s.waiting []) c, events⟩ := by
  have hprompt : (c.printNow (s.waiting []).prompt).2 = c.prompted 1 := printNow_waiting .nil
  have hprompted : (c.prompted 1).closed = false := by rw [c.prompted_closed, hc]
  have hline := onLine_command (s := s) h hquit
  obtain ⟨-, hends, hquery⟩ := (s.waiting []).onDotCommand_cases (said line)
  rw [Part.after, Part.prints]
  -- From here on it does not matter which command it is.
  generalize (s.waiting []).onDotCommand (said line) = decided at hline hends hquery ⊢
  obtain ⟨s', action⟩ := decided
  have hperform := perform_of_open files (s := s') hprompted hends
  rw [← hprompt] at hperform ⊢
  have hleads := leads_line files hc hline hperform events
  rw [hquery] at hleads
  exact hleads

/-- What a part does to a shell without a pending query, whatever is behind it: it leaves the shell
without one, and the query that it submits is the one of the part. -/
theorem Part.leads {part : Part} (h : part.IsRead) (hs : s.pending = "") (hc : c.closed = false)
    (events : List ReadEvent) :
    Leads files ⟨s, c, part.events ++ events⟩ part.query?.toList
      ⟨part.after s, part.prints files s c, events⟩ := by
  rw [← waiting_nil hs]
  -- One lemma for each kind of part; nothing is pending in front of it.
  cases part with
  | blank line =>
      have hperform : (s.waiting []).perform files (c.printNow (s.waiting []).prompt).2 .wait =
          (none, c.prompted 1) := by
        rw [show (c.printNow (s.waiting []).prompt).2 = c.prompted 1 from printNow_waiting .nil]
        rfl
      exact leads_line files hc (onLine_blank h) hperform events
  | command line => exact leads_command files hc h.1 h.2 events
  | query lines => exact leads_query files hc h.1 h.2 events
  | submitted lines closing =>
      obtain ⟨hne, hcollects, hopen, hblank⟩ := h
      show Leads files ⟨s.waiting [], c, (reads lines ++ [.line closing.raw]) ++ events⟩ _ _
      rw [List.append_assoc]
      exact leads_submitted files hc hne hcollects hopen hblank events
  | interrupted lines =>
      show Leads files ⟨s.waiting [], c, (reads lines ++ [.interrupted]) ++ events⟩ _ _
      rw [List.append_assoc]
      exact leads_dropped files hc h.1 h.2 events

/-! ### What a run does -/

/-- No parts of a session leave a block open behind them. -/
@[simp]
theorem foldl_after_pending (parts : List Part) (s : Shell) :
    (parts.foldl Part.after s).pending = s.pending := by
  induction parts generalizing s with
  | nil => rfl
  | cons part parts ih => rw [List.foldl_cons, ih, Part.after_pending]

/-- What a session shows neither opens nor closes the output. -/
@[simp]
theorem Session.shown_closed (parts : List Part) (s : Shell) (c : Console) :
    (Session.shown files s c parts).closed = c.closed := by
  induction parts generalizing s c with
  | nil => rfl
  | cons part parts ih => rw [Session.shown, ih, Part.prints_closed]

/-- What some parts do, one behind the other. -/
theorem leads_parts {parts : List Part} (h : ∀ part ∈ parts, part.IsRead) (hs : s.pending = "")
    (hc : c.closed = false) (events : List ReadEvent) :
    Leads files ⟨s, c, parts.flatMap Part.events ++ events⟩ (parts.filterMap Part.query?)
      ⟨parts.foldl Part.after s, Session.shown files s c parts, events⟩ := by
  induction parts generalizing s c with
  | nil => exact .refl _
  | cons part parts ih =>
      obtain ⟨hpart, hparts⟩ := List.forall_mem_cons.mp h
      have hqueries : (part :: parts).filterMap Part.query? =
          part.query?.toList ++ parts.filterMap Part.query? := by
        cases hquery : part.query? <;> simp [hquery]
      rw [List.flatMap_cons, List.append_assoc, hqueries]
      exact (Part.leads files hpart hs hc _).trans
        (ih hparts ((part.after_pending s).trans hs) ((part.prints_closed files s c).trans hc))

/-- What the end of a run does. -/
theorem run_finish {finish : Finish} (h : finish.IsRead) (hs : s.pending = "")
    (hc : c.closed = false) : run files s c finish.events = (0, finish.prints s c) ∧
      s.submits finish.events = finish.query?.toList := by
  rw [← waiting_nil hs]
  cases finish with
  | quit line unread =>
      have hline := onLine_quit (s := s) h
      constructor
      · rw [Finish.events, run, c.printNow_of_open hc]
        simp only [onEvent, hline, perform]
        rfl
      · rw [Finish.events, submits, hline, if_pos rfl]
        rfl
  | endOfInput lines =>
      obtain ⟨hcollects, hopen⟩ := h
      have hlines := leads_lines files (s := s) hc hcollects hopen []
      have hprompted : (c.prompted lines.length).closed = false :=
        (c.prompted_closed _).trans hc
      have hatEnd : (s.waiting lines).atEnd? = (Finish.endOfInput lines).query? := by
        rw [atEnd?, isIdle_waiting hcollects, Finish.query?_endOfInput]
        simp only [decide_eq_true_eq]
        rfl
      rw [List.append_nil] at hlines
      refine ⟨hlines.run_eq.trans ?_, hlines.submits_eq.trans ?_⟩
      · -- At the end of input the shell asks once more, and submits what is waiting, if anything
        -- is.
        show run files (s.waiting lines) (c.prompted lines.length) [] = _
        rw [run, Console.printNow_of_open hprompted, printNow_waiting hcollects]
        show onEnd _ _ = _
        rw [onEnd, hatEnd, Finish.query?_endOfInput, Finish.prints]
        by_cases hne : lines = []
        · subst hne
          rfl
        · rw [if_neg hne, if_neg hne]
          rfl
      · rw [List.nil_append]
        show ((s.waiting lines).atEnd?).toList = _
        rw [hatEnd]

/-! ### Every run is a session -/

/-- A part in front of a session makes a session. -/
theorem Session.exists_cons {part : Part} (hpart : part.IsRead) {x : Session} (hx : x.IsRead) :
    ∃ y : Session, y.IsRead ∧ y.events = part.events ++ x.events := by
  have hparts : ∀ p ∈ part :: x.parts, p.IsRead := List.forall_mem_cons.mpr ⟨hpart, hx.1⟩
  refine ⟨⟨part :: x.parts, x.finish⟩, ⟨hparts, hx.2⟩, ?_⟩
  rw [Session.events, Session.events, List.flatMap_cons, List.append_assoc]

/-- Any events behind some lines that wait are a session: they are divided from the front, and a
line closes a part or is put to those that wait. -/
theorem exists_session {lines : List Line} (h : Collects lines)
    (hopen : isComplete (content lines) = false) {events : List ReadEvent}
    (hevents : ∀ fault, .failed fault ∉ events) :
    ∃ x : Session, x.IsRead ∧ x.events = reads lines ++ events := by
  induction events generalizing lines with
  | nil => exact ⟨⟨[], .endOfInput lines⟩, ⟨by simp, h, hopen⟩, (List.append_nil _).symm⟩
  | cons event events ih =>
      have hbehind : ∀ fault, .failed fault ∉ events := fun fault hfault =>
        hevents fault (List.mem_cons_of_mem _ hfault)
      -- A part that ends here, in front of a session of what is behind it.
      have hclosed : ∀ part : Part, part.IsRead → part.events = reads lines ++ [event] →
          ∃ x : Session, x.IsRead ∧ x.events = reads lines ++ event :: events := by
        intro part hpart heq
        obtain ⟨x, hx, hxevents⟩ := ih .nil rfl hbehind
        obtain ⟨y, hy, hyevents⟩ := Session.exists_cons hpart hx
        refine ⟨y, hy, ?_⟩
        rw [hyevents, heq, hxevents, List.append_assoc]
        rfl
      cases event with
      | failed fault => exact absurd List.mem_cons_self (hevents fault)
      | interrupted => exact hclosed (.interrupted lines) ⟨h, hopen⟩ rfl
      | line raw =>
          obtain ⟨line, rfl⟩ : ∃ line : Line, line.raw = raw := ⟨.ofRaw raw, rfl⟩
          -- A line that is put behind those that wait: it finishes the query, or waits with them.
          have hadded : isBlankLine line = false → (lines = [] → isDotted line = false) →
              ∃ x : Session, x.IsRead ∧ x.events = reads lines ++ .line line.raw :: events := by
            intro hblank hfirst
            have hcollects := h.concat hopen hblank hfirst
            cases hcomplete : isComplete (content (lines ++ [line])) with
            | true =>
                exact hclosed (.query (lines ++ [line])) ⟨hcollects, hcomplete⟩
                  (reads_append lines [line])
            | false =>
                obtain ⟨x, hx, hxevents⟩ := ih hcollects hcomplete hbehind
                refine ⟨x, hx, hxevents.trans ?_⟩
                rw [reads_append, List.append_assoc]
                rfl
          by_cases hne : lines = []
          · subst hne
            cases hquit : isQuit line with
            | true => exact ⟨⟨[], .quit line events⟩, ⟨by simp, hquit⟩, rfl⟩
            | false =>
                cases hdotted : isDotted line with
                | true => exact hclosed (.command line) ⟨hdotted, hquit⟩ rfl
                | false =>
                    cases hblank : isBlankLine line with
                    | true => exact hclosed (.blank line) hblank rfl
                    | false => exact hadded hblank fun _ => hdotted
          · cases hblank : isBlankLine line with
            | true => exact hclosed (.submitted lines line) ⟨hne, h, hopen, hblank⟩ rfl
            | false => exact hadded hblank fun hnil => absurd hnil hne

/-- The session is what happens when a shell without a pending query reads the events. -/
structure Session.Accounts (files : String → Except ReadFault String) (s : Shell) (c : Console)
    (events : List ReadEvent) (x : Session) : Prop where
  events_eq : x.events = events
  isRead : x.IsRead
  submits_eq : s.submits events = x.queries
  /-- What is submitted are the blocks, each of its lines stripped and joined to the others by a
  line feed, and the whole trimmed. -/
  contents : List.Forall₂ (fun lines query => Text.Trims (content lines) query) x.blocks
    (s.submits events)
  /-- The run exits with 0, and prints what its parts print. -/
  run_eq : run files s c events = (0, x.prints files s c)
  /-- Behind an interrupt the run is that of a shell without a pending query, with the options and
  the format that the parts in front of it have left. -/
  fresh : ∀ before lines behind, x.parts = before ++ .interrupted lines :: behind →
    (before.foldl Part.after s).pending = "" ∧
    run files s c events =
      run files (before.foldl Part.after s)
        (Session.shown files s c (before ++ [.interrupted lines]))
        (Session.mk behind x.finish).events ∧
    s.submits events = before.filterMap Part.query? ++
      (before.foldl Part.after s).submits (Session.mk behind x.finish).events

/-- The parts up to an interrupt lead to a shell that reads the others, and the lines that the
interrupt dropped are not submitted. -/
theorem Session.leads_fresh {x : Session} (hx : x.IsRead) (hs : s.pending = "")
    (hc : c.closed = false) {before behind : List Part}
    (hsplit : x.parts = before ++ .interrupted lines :: behind) :
    Leads files ⟨s, c, x.events⟩ (before.filterMap Part.query?)
      ⟨before.foldl Part.after s, Session.shown files s c (before ++ [.interrupted lines]),
        (Session.mk behind x.finish).events⟩ := by
  have hread : ∀ part ∈ before ++ [.interrupted lines], part.IsRead := by
    intro part hpart
    apply hx.1
    rw [hsplit, List.append_cons]
    exact List.mem_append_left _ hpart
  have hleads := leads_parts files hread hs hc (Session.mk behind x.finish).events
  have hjoined : (before ++ [Part.interrupted lines]).flatMap Part.events ++
      (Session.mk behind x.finish).events = x.events := by
    rw [Session.events, Session.events, hsplit]
    simp
  -- What was interrupted is no query.
  have hdropped : (before ++ [Part.interrupted lines]).filterMap Part.query? =
      before.filterMap Part.query? := by
    rw [List.filterMap_append]
    exact List.append_nil _
  rw [hjoined, List.foldl_append, hdropped] at hleads
  exact hleads

/-- Every run without a failure is a session: the shell neither loses nor repeats what it reads. -/
theorem run_accounts (options : Options) (format : Format) (hc : c.closed = false)
    {events : List ReadEvent} (hevents : ∀ fault, .failed fault ∉ events) :
    ∃ x : Session, x.Accounts files ⟨options, format, ""⟩ c events := by
  generalize hshell : Shell.mk options format "" = s
  have hs : s.pending = "" := by rw [← hshell]
  obtain ⟨x, hx, hxevents⟩ := exists_session .nil rfl hevents
  obtain rfl : x.events = events := hxevents
  have hparts := leads_parts files hx.1 hs hc x.finish.events
  have hpending : (x.parts.foldl Part.after s).pending = "" := by rw [foldl_after_pending, hs]
  have hclosed : (Session.shown files s c x.parts).closed = false := by
    rw [Session.shown_closed, hc]
  obtain ⟨hrun, hsubmits⟩ := run_finish files hx.2 hpending hclosed
  have hqueries : s.submits x.events = x.queries := by
    rw [Session.events, hparts.submits_eq, hsubmits]
    rfl
  refine ⟨x, rfl, hx, hqueries, hqueries ▸ x.trims_blocks, hparts.run_eq.trans hrun, ?_⟩
  · intro before lines behind hsplit
    have hleads := Session.leads_fresh files hx hs hc hsplit
    exact ⟨by rw [foldl_after_pending, hs], hleads.run_eq, hleads.submits_eq⟩

/-- A query that is interrupted, a dot command and a query on two lines, which are stripped of their
line ends. -/
theorem run_accounts_interrupted :
    let events : List ReadEvent :=
      [.line "FROM a |\n", .interrupted, .line ".dev on\n", .line "FROM a |\r\n",
        .line " LIMIT 1\r\n", .line ".quit\n"]
    (submits ⟨.default, .text, ""⟩ events = ["FROM a |\n LIMIT 1"]) ∧
      ∃ x : Session, x.Accounts (fun _ => .ok "") ⟨.default, .text, ""⟩ ⟨"", "", false⟩ events :=
  ⟨by decide +kernel, run_accounts _ _ _ rfl (by simp)⟩

end

end Shell

end PipeQuery
