import PipeQuery.CommandLine.Report
import PipeQuery.Proofs.Located
import PipeQuery.Proofs.Text.Trim

/-!
# `PipeQuery.Proofs.CommandLine.Caret`: what stands over the carets

A diagnostic is printed with a line of the text and carets under it. Line and column say which line
that is and where the carets begin, while their number comes from the span; that the two fit
together is the place of the diagnostic, `Diagnostic.Located`.

`Diagnostic.OnLine` cuts a text at the span of a diagnostic and at the ends of the line that it
begins on. `underlined` reads the printed block off that cut, for every diagnostic of every parse:
the carets are under the part of the span that is on the line, and there is one if there is no such
part. But the line is shown without the carriage returns at its end, and the span is counted with
them, so carets may stand under nothing where a span goes on over the end of a line
(`isUnderlined_of_not_mem` is for texts without carriage returns).
-/

set_option autoImplicit false

namespace PipeQuery

/-! ### Lines -/

namespace Text

/-- A character that is no line feed does not count for the lines behind it. -/
theorem lineAt_succ_skip {c : Char} (hc : c ≠ '\n') (n : Nat) (cs : List Char) :
    lineAt (n + 1) (c :: cs) = lineAt (n + 1) cs := by
  rw [lineAt, lineAt, List.dropWhile_cons_of_pos (by simpa using hc)]

/-- Behind a line feed the lines are one fewer. -/
theorem lineAt_lineFeed (n : Nat) (cs : List Char) : lineAt (n + 1) ('\n' :: cs) = lineAt n cs := by
  rw [lineAt, List.dropWhile_cons_of_neg (by simp)]

/-- Behind some whole lines the next one begins. -/
theorem lineAt_count {lines : List Char} (h : lines = [] ∨ ∃ earlier, lines = earlier ++ ['\n'])
    (cs : List Char) : lineAt (lines.count '\n') (lines ++ cs) = cs.takeWhile (· ≠ '\n') := by
  rcases h with rfl | ⟨earlier, rfl⟩
  · rfl
  · rw [List.count_append, List.append_assoc]
    show lineAt (earlier.count '\n' + 1) (earlier ++ '\n' :: cs) = _
    induction earlier with
    | nil => exact lineAt_lineFeed 0 cs
    | cons c earlier ih =>
        by_cases hc : c = '\n'
        · subst hc
          rw [List.count_cons_self, List.cons_append, lineAt_lineFeed]
          exact ih
        · rw [List.count_cons_of_ne hc, List.cons_append, lineAt_succ_skip hc]
          exact ih

/-- A line ends at the first line feed. -/
theorem takeWhile_append_lineFeed {line behind : List Char} (hline : '\n' ∉ line)
    (hbehind : behind = [] ∨ ∃ later, behind = '\n' :: later) :
    (line ++ behind).takeWhile (· ≠ '\n') = line := by
  have hpos : ∀ c ∈ line, decide (c ≠ '\n') = true := fun c hc =>
    decide_eq_true fun heq => hline (heq ▸ hc)
  rw [List.takeWhile_append_of_pos hpos]
  rcases hbehind with rfl | ⟨later, rfl⟩
  · simp
  · rw [List.takeWhile_cons_of_neg (by simp), List.append_nil]

/-- Any text begins with a line, or the rest of one, and goes on with the line feed at its end. -/
theorem exists_line (cs : List Char) : ∃ line behind, cs = line ++ behind ∧ '\n' ∉ line ∧
    (behind = [] ∨ ∃ later, behind = '\n' :: later) := by
  refine ⟨cs.takeWhile (· ≠ '\n'), cs.dropWhile (· ≠ '\n'), List.takeWhile_append_dropWhile.symm,
    fun hmem => ?_, ?_⟩
  · simpa using List.mem_takeWhile_imp hmem
  · cases hbehind : cs.dropWhile (· ≠ '\n') with
    | nil => exact .inl rfl
    | cons c later =>
        have hc := List.head?_dropWhile_not (· ≠ '\n') cs
        rw [hbehind] at hc
        obtain rfl : c = '\n' := by simpa using hc
        exact .inr ⟨later, rfl⟩

/-- How far some part of a text is on the line that it begins on, and what more the line has. -/
theorem exists_marked (piece post : List Char) :
    ∃ marked tail behind, piece ++ post = marked ++ tail ++ behind ∧ '\n' ∉ marked ++ tail ∧
      (behind = [] ∨ ∃ later, behind = '\n' :: later) ∧ piece.takeWhile (· ≠ '\n') = marked ∧
      (piece = marked ∨ tail = [] ∧ byteLength marked < byteLength piece) := by
  obtain ⟨marked, more, rfl, hmarked, hmore⟩ := exists_line piece
  have htake := takeWhile_append_lineFeed hmarked hmore
  -- The part ends on the line, or the line ends in the part.
  rcases hmore with rfl | ⟨later, rfl⟩
  · obtain ⟨tail, behind, rfl, htail, hbehind⟩ := exists_line post
    exact ⟨marked, tail, behind, by simp, by simp [hmarked, htail], hbehind, htake,
      .inl (List.append_nil _)⟩
  · refine ⟨marked, [], '\n' :: (later ++ post), by simp, by simpa using hmarked, .inr ⟨_, rfl⟩,
      htake, .inr ⟨rfl, ?_⟩⟩
    rw [byteLength_append]
    exact Nat.lt_add_of_pos_right (Token.byteLength_pos (List.cons_ne_nil _ _))

/-- No two cuts of a text have the same number of bytes before them. -/
theorem append_inj_byteLength {pre post pre' post' : List Char} (h : pre ++ post = pre' ++ post')
    (hlength : byteLength pre = byteLength pre') : pre = pre' ∧ post = post' := by
  have hpre := takeBytes_append pre post
  rw [h, hlength, takeBytes_append] at hpre
  obtain rfl := (Option.some.inj hpre).symm
  exact ⟨rfl, List.append_cancel_left h⟩

end Text

open Text

/-- A span that fits the text cuts it into three. -/
theorem Span.Fits.exists_cut {s : Span} {text : String} (h : s.Fits text) :
    ∃ pre piece post, text.toList = pre ++ (piece ++ post) ∧ s.start = byteLength pre ∧
      s.stop = byteLength pre + byteLength piece := by
  obtain ⟨pre, post, hpre, hstart, -, -⟩ := isPlace_locate h.start_isValid
  obtain ⟨pre', post', hpre', hstop, -, -⟩ := isPlace_locate h.stop_isValid
  replace hstart : s.start = byteLength pre := hstart
  replace hstop : s.stop = byteLength pre' := hstop
  have hforward := h.forward
  rcases List.append_eq_append_iff.mp (hpre.symm.trans hpre') with
    ⟨piece, rfl, rfl⟩ | ⟨extra, rfl, rfl⟩
  · exact ⟨pre, piece, post', hpre, hstart, by rw [hstop, byteLength_append]⟩
  · -- The span does not go back, so there is nothing between the two places.
    rw [byteLength_append] at hstart
    exact ⟨pre' ++ extra, [], post, hpre, by rw [hstart, byteLength_append],
      by rw [byteLength_append, byteLength_nil]; omega⟩

namespace Diagnostic

/-- The diagnostic begins on a line of the text: in front of its span the line has `lead`, then
`marked` is the part of the span that is on the line, and `tail` is the rest of the line. What is
before the line and behind it are whole lines. -/
structure OnLine (d : Diagnostic) (text : String) (before lead marked tail behind : List Char) :
    Prop where
  text_eq : text.toList = before ++ (lead ++ marked ++ tail) ++ behind
  before_ends : before = [] ∨ ∃ earlier, before = earlier ++ ['\n']
  behind_begins : behind = [] ∨ ∃ later, behind = '\n' :: later
  not_mem : '\n' ∉ lead ++ marked ++ tail
  start_eq : d.span.start = byteLength (before ++ lead)
  /-- The span ends on the line, or the line ends in the span. -/
  stop_eq : d.span.stop = byteLength (before ++ lead ++ marked) ∨
    tail = [] ∧ byteLength (before ++ lead ++ marked) < d.span.stop

variable {d : Diagnostic} {text : String} {options : Options}

/-- What is printed of a diagnostic that has its place. -/
theorem Located.exists_onLine (h : d.Located text) :
    ∃ before lead marked tail behind, d.OnLine text before lead marked tail behind ∧
      d.sourceLine text = String.ofList (dropEndWhile (· = '\r') (lead ++ marked ++ tail)) ∧
      d.col - 1 = lead.length ∧ d.caretCount text = max 1 marked.length := by
  obtain ⟨pre, piece, post, htext, hstart, hstop⟩ := h.fits.exists_cut
  obtain ⟨pre', post', htext', hoffset, hline, before, lead, rfl, hbefore, hlead, hcol⟩ := h.isPlace
  -- Span and position cut the text at the same place.
  obtain ⟨rfl, rfl⟩ := append_inj_byteLength (htext'.symm.trans htext) (hoffset.symm.trans hstart)
  obtain ⟨marked, tail, behind, hsplit, hmarked, hbehind, htake, hends⟩ := exists_marked piece post
  have hcut : text.toList = before ++ (lead ++ marked ++ tail) ++ behind := by
    rw [htext, hsplit]
    simp only [List.append_assoc]
  have hnot : '\n' ∉ lead ++ marked ++ tail := by
    rw [List.append_assoc, List.mem_append]
    exact not_or.mpr ⟨hlead, hmarked⟩
  refine ⟨before, lead, marked, tail, behind, ⟨hcut, hbefore, hbehind, hnot, hstart, ?_⟩,
    ?_, ?_, ?_⟩
  · rw [hstop, byteLength_append _ marked]
    exact hends.imp (fun heq => by rw [heq]) fun ⟨htail, hlt⟩ => ⟨htail, Nat.add_lt_add_left hlt _⟩
  · -- The line feeds before the place are those of the lines before its own.
    have hcount : d.line - 1 = before.count '\n' := by
      replace hline : d.line = 1 + (before ++ lead).count '\n' := hline
      rw [hline, List.count_append, List.count_eq_zero_of_not_mem hlead]
      omega
    rw [sourceLine, hcount, hcut, List.append_assoc, lineAt_count hbefore,
      takeWhile_append_lineFeed hnot hbehind]
  · replace hcol : d.col = 1 + lead.length := hcol
    omega
  · rw [caretCount, Span.slice, hstart, hstop, slice_eq htext, String.toList_ofList, htake]

/-- What is printed of a diagnostic: the line that it begins on, without the carriage returns at its
end, and carets under the part of the span that is on the line, or one if there is none. -/
theorem underlined (hshort : text.utf8ByteSize < 2 ^ 32)
    (hd : d ∈ (parse text options).diagnostics) :
    ∃ before lead marked tail behind shown n, d.OnLine text before lead marked tail behind ∧
      lead ++ marked ++ tail = shown ++ List.replicate n '\r' ∧ shown.getLast? ≠ some '\r' ∧
      d.block text = d.severity.label ++ ": " ++ d.render ++ "\n  | " ++ String.ofList shown ++
        "\n  | " ++ String.ofList (List.replicate lead.length ' ' ++
          List.replicate (max 1 marked.length) '^') := by
  obtain ⟨before, lead, marked, tail, behind, honLine, hsource, hcol, hcount⟩ :=
    (located_of_mem hshort hd).exists_onLine
  obtain ⟨ending, hshown, hending⟩ := exists_dropEndWhile (· = '\r') (lead ++ marked ++ tail)
  have hreturns : ending = List.replicate ending.length '\r' :=
    List.eq_replicate_iff.mpr ⟨rfl, fun c hc => of_decide_eq_true (hending c hc)⟩
  rw [hreturns] at hshown
  refine ⟨before, lead, marked, tail, behind, _, _, honLine, hshown, fun hlast => ?_, ?_⟩
  · simpa using getLast?_dropEndWhile '\r' hlast
  rw [block, hsource, hcol, hcount]

/-- The carriage return in front of the line feed is not shown, and has a caret. -/
example : (parse "FROM a /* x\r\ny" .default).diagnostics.map (·.block "FROM a /* x\r\ny") =
    ["error: 1:8: lexical error: unterminated block comment\n  | FROM a /* x\n  |        ^^^^^"] :=
  by decide +kernel

/-- The block of the diagnostic shows the line that it begins on, as it is, with carets under the
part of the span that is on the line, or a single one if there is none. No more than that one stands
behind the line. -/
def IsUnderlined (d : Diagnostic) (text : String) : Prop :=
  ∃ before lead marked tail behind, d.OnLine text before lead marked tail behind ∧
    d.block text = d.severity.label ++ ": " ++ d.render ++ "\n  | " ++
      String.ofList (lead ++ marked ++ tail) ++ "\n  | " ++
      String.ofList (List.replicate lead.length ' ' ++
        List.replicate (max 1 marked.length) '^') ∧
    lead.length + max 1 marked.length ≤ (lead ++ marked ++ tail).length + 1

/-- Without carriage returns in the text the carets of its diagnostics are where they should be. -/
theorem isUnderlined_of_not_mem (hshort : text.utf8ByteSize < 2 ^ 32)
    (hreturn : '\r' ∉ text.toList) (hd : d ∈ (parse text options).diagnostics) :
    d.IsUnderlined text := by
  obtain ⟨before, lead, marked, tail, behind, shown, n, honLine, hshown, -, hblock⟩ :=
    underlined hshort hd
  have hzero : n = 0 := by
    by_contra hn
    apply hreturn
    rw [honLine.text_eq, hshown]
    simp [hn]
  rw [hzero, List.replicate_zero, List.append_nil] at hshown
  refine ⟨before, lead, marked, tail, behind, honLine, hshown ▸ hblock, ?_⟩
  simp only [List.length_append]
  omega

/-- A comment that goes on over a line feed, on whose first line the carets end. -/
theorem isUnderlined_unterminated :
    "FROM a /* x\ny".utf8ByteSize < 2 ^ 32 ∧ '\r' ∉ "FROM a /* x\ny".toList ∧
      (parse "FROM a /* x\ny" .default).diagnostics ≠ [] ∧
      ∀ d ∈ (parse "FROM a /* x\ny" .default).diagnostics, d.IsUnderlined "FROM a /* x\ny" :=
  ⟨by decide, by decide, by decide +kernel,
    fun _ hd => isUnderlined_of_not_mem (by decide) (by decide) hd⟩

end Diagnostic

end PipeQuery
