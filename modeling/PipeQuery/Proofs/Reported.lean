import PipeQuery.Proofs.Located

/-!
# `PipeQuery.Proofs.Reported`: each problem is told of once

What the lexer finds wrong becomes an error token and one diagnostic. The parser stays silent where
an error token starts and says nothing twice, and sorting what both found moves no two lexical
errors past each other. `Parsed.ReportsOnce` brings this together, and `parse_reportsOnce` proves
it of every parse of a text of fewer than 2 ^ 32 bytes.

In a longer text two places may have one offset in 32 bits, and then two errors are reported there
(`not_reportsOnce_apart`).
-/

set_option autoImplicit false

namespace PipeQuery

open PipeQuery.Parser

/-! ### The order of diagnostics -/

namespace Diagnostic

/-- The order of the report is by start, and then by end. -/
theorem notAfter_iff {a b : Diagnostic} : a.notAfter b = true ↔
    a.span.start < b.span.start ∨ a.span.start = b.span.start ∧ a.span.stop ≤ b.span.stop := by
  simp [notAfter]

/-- It can be put together. -/
theorem notAfter_trans (a b c : Diagnostic) (hab : a.notAfter b = true)
    (hbc : b.notAfter c = true) : a.notAfter c = true := by
  rw [notAfter_iff] at hab hbc ⊢
  omega

/-- Of two diagnostics one is never after the other. -/
theorem notAfter_total (a b : Diagnostic) : (a.notAfter b || b.notAfter a) = true := by
  rw [Bool.or_eq_true, notAfter_iff, notAfter_iff]
  omega

/-- What is reported is in this order. -/
theorem pairwise_sorted (ds : List Diagnostic) :
    (sorted ds).Pairwise fun a b => a.notAfter b = true :=
  List.pairwise_mergeSort notAfter_trans notAfter_total ds

/-- And it is what there was, rearranged. -/
theorem sorted_perm (ds : List Diagnostic) : (sorted ds).Perm ds :=
  List.mergeSort_perm ds _

/-- Of two diagnostics either repeats the other or neither does. -/
theorem Repeats.symm {d e : Diagnostic} (h : d.Repeats e) : e.Repeats d :=
  ⟨h.1.symm, h.2.symm⟩

/-- Those of one sort are found again as they were, if they are all in front and in order. -/
theorem filter_sorted_append {p : Diagnostic → Bool} {ds es : List Diagnostic}
    (hds : ∀ d ∈ ds, p d = true) (hes : ∀ e ∈ es, p e = false)
    (horder : ds.Pairwise fun a b => a.notAfter b = true) :
    (sorted (ds ++ es)).filter p = ds := by
  have hfilter : (ds ++ es).filter p = ds := by
    rw [List.filter_append, List.filter_eq_self.mpr hds,
      List.filter_eq_nil_iff.mpr fun e he => by simp [hes e he], List.append_nil]
  have hsublist : ds.Sublist ((sorted (ds ++ es)).filter p) := by
    have h := (List.sublist_mergeSort notAfter_trans notAfter_total horder
      (List.sublist_append_left ds es)).filter p
    rw [List.filter_eq_self.mpr hds] at h
    exact h
  have hlength := ((sorted_perm (ds ++ es)).filter p).length_eq
  rw [hfilter] at hlength
  exact (hsublist.eq_of_length hlength.symm).symm

end Diagnostic

/-! ### Error tokens -/

section

variable {tokens : List Token} {diagnostics : List Diagnostic} {l l' : Lexer}

/-- Tokens start one behind the other. -/
theorem Token.Cut.pairwise_start {offset : Nat} {cs : List Char} (h : Cut offset cs tokens) :
    tokens.Pairwise fun a b => a.span.start < b.span.start := by
  refine h.pairwise_apart.imp_of_mem fun ha _ hab => ?_
  obtain ⟨pre, piece, post, -, hpiece⟩ := h.of_mem ha
  have hpos := byteLength_pos hpiece.ne_nil
  rw [hpiece.span_eq] at hab ⊢
  dsimp only at hab ⊢
  omega

/-- The errors of the lexer start one behind the other. -/
theorem Lexer.pairwise_start_of_reads (h : l.Reads tokens diagnostics l') :
    diagnostics.Pairwise fun d e => d.span.start < e.span.start := by
  have hspans : diagnostics.map Diagnostic.span =
      (tokens.filter fun t => t.kind = .error).map Token.span := by
    rw [← List.forall₂_eq_eq_eq, List.forall₂_map_left_iff, List.forall₂_map_right_iff]
    exact (reports_of_reads h).imp fun _ _ hreports => hreports.span_eq
  have hstarts := (Token.cut_of_reads h).1.pairwise_start.filter fun t => t.kind = .error
  rw [← List.pairwise_map (f := Token.span) (R := fun a b => a.start < b.start), ← hspans,
    List.pairwise_map] at hstarts
  exact hstarts

/-- All the lexer tells is lexical. -/
theorem Lexer.kind_of_reads (h : l.Reads tokens diagnostics l') :
    ∀ d ∈ diagnostics, d.kind = .lexical := fun _ hd =>
  let ⟨_, _, hreports⟩ := Diagnostic.exists_token (reports_of_reads h) hd
  hreports.kind_eq

end

/-! ### Parses -/

/-- The diagnostics of a parse tell of each error once. -/
structure Parsed.ReportsOnce (p : Parsed) : Prop where
  /-- The lexical ones tell of the error tokens, each of one, in their order. -/
  lexical : List.Forall₂ Diagnostic.Reports (p.diagnostics.filter fun d => d.kind = .lexical)
    (p.tokens.filter fun t => t.kind = .error)
  /-- No other one starts where an error token does. -/
  apart : ∀ d ∈ p.diagnostics, d.kind ≠ .lexical →
    ∀ t ∈ p.tokens, t.kind = .error → d.span.start ≠ t.span.start
  /-- No two of one kind start at one place. -/
  distinct : p.diagnostics.Pairwise fun d e => ¬ (d.kind = e.kind ∧ d.span.start = e.span.start)
  /-- They are in the order of their starts, and then of their ends. -/
  ordered : p.diagnostics.Pairwise fun d e => d.span.start < e.span.start ∨
    d.span.start = e.span.start ∧ d.span.stop ≤ e.span.stop
  /-- A query without commands does not go without one. -/
  complete : p.query.commands = [] → p.diagnostics ≠ []

/-- The parse of a text of fewer than 2 ^ 32 bytes tells of each error once. -/
theorem parse_reportsOnce (text : String) (options : Options)
    (hshort : text.utf8ByteSize < 2 ^ 32) : (parse text options).ReportsOnce := by
  obtain ⟨tokens, diagnostics, l', s', hreads, hdiagnostics, htokens, htracked⟩ :=
    exists_tracked text options hshort
  have hlexical := Lexer.kind_of_reads hreads
  have hstarts := Lexer.pairwise_start_of_reads hreads
  have hrecorded : ∀ d ∈ s'.recorded.reverse, d.kind ≠ .lexical := fun d hd =>
    (htracked.found d (List.mem_reverse.mp hd)).notLexical
  have herrors : (parse text options).tokens.filter (fun t => t.kind = .error) =
      tokens.filter fun t => t.kind = .error := by
    rw [htokens, List.filter_append]
    exact List.append_nil _
  have hmem : ∀ d ∈ (parse text options).diagnostics,
      d ∈ diagnostics ∨ d ∈ s'.recorded.reverse := by
    intro d hd
    rw [hdiagnostics] at hd
    exact List.mem_append.mp ((Diagnostic.sorted_perm _).mem_iff.mp hd)
  refine ⟨?_, ?_, ?_, ?_, ?_⟩
  · -- The lexer found its errors in the order of the text, so that sorting leaves them in it.
    have horder := hstarts.imp fun h => Diagnostic.notAfter_iff.mpr (.inl h)
    rw [herrors, hdiagnostics, Diagnostic.filter_sorted_append (by simpa using hlexical)
      (by simpa using hrecorded) horder]
    exact Lexer.reports_of_reads hreads
  · -- What is not lexical was recorded, and nothing was where an error token starts.
    intro d hd hkind t ht herror hstart
    have hrecord := (hmem d hd).resolve_left fun h => hkind (hlexical d h)
    have hlist : t ∈ (parse text options).tokens.filter fun t => t.kind = .error :=
      List.mem_filter.mpr ⟨ht, by simpa using herror⟩
    rw [herrors] at hlist
    refine htracked.apart d (List.mem_reverse.mp hrecord) ?_
    rw [hstart]
    exact List.mem_map_of_mem hlist
  · -- Lexical errors start apart, what was recorded is distinct, and the kinds tell the two apart.
    have hsymm : ∀ {d e : Diagnostic}, ¬ d.Repeats e → ¬ e.Repeats d :=
      fun h hrepeats => h hrepeats.symm
    rw [hdiagnostics]
    refine ((Diagnostic.sorted_perm _).pairwise_iff hsymm).mpr
      (List.pairwise_append.mpr ⟨?_, ?_, ?_⟩)
    · exact hstarts.imp fun h hrepeats => absurd hrepeats.2 (Nat.ne_of_lt h)
    · exact List.pairwise_reverse.mpr (htracked.distinct.imp hsymm)
    · exact fun d hd e he hrepeats => hrecorded e he (hrepeats.1 ▸ hlexical d hd)
  · rw [hdiagnostics]
    exact (Diagnostic.pairwise_sorted _).imp Diagnostic.notAfter_iff.mp
  · -- Without diagnostics the tokens are those of one command or more.
    intro hnone hclean
    obtain ⟨_, _, _, _, _, _, _, hcommands⟩ := parse_clean hclean
    exact hcommands.ne_nil hnone

/-- A text with an error of the lexer, and with a command that stops behind its verb. -/
theorem parse_reportsOnce_unrecognized :
    "ROW a = # | LIMIT".utf8ByteSize < 2 ^ 32 ∧
      ((parse "ROW a = # | LIMIT" .default).tokens.filter fun t => t.kind = .error).length = 1 ∧
      (parse "ROW a = # | LIMIT" .default).ReportsOnce :=
  ⟨by decide, by decide +kernel, parse_reportsOnce _ _ (by decide)⟩

/-- The diagnostic of a slash that begins no comment. -/
def Diagnostic.ofSlash (p : Text.Position) : Diagnostic :=
  Cause.onToken (.unrecognized "/") (.spanning .error p ['/'])

/-- In command position a slash with a blank behind it, or at the end of the text, is an error. -/
theorem Lexer.reads_slash {p : Text.Position} {rest : List Char} {tokens : List Token}
    {diagnostics : List Diagnostic} {l' : Lexer} (hrest : ∀ c ∈ rest.head?, c = ' ')
    (h : Reads ⟨false, ⟨rest, p.after ['/']⟩, .bottom⟩ tokens diagnostics l') :
    Reads ⟨false, ⟨'/' :: rest, p⟩, .bottom⟩ (.spanning .error p ['/'] :: tokens)
      (.ofSlash p :: diagnostics) l' := by
  cases rest with
  | nil => exact .step (List.cons_ne_nil _ _) h
  | cons c tail =>
      obtain rfl := hrest c rfl
      exact .step (List.cons_ne_nil _ _) h

/-- Two slashes that are 2 ^ 32 bytes apart are reported at one and the same place. -/
theorem not_reportsOnce_apart :
    ¬ (parse (String.ofList ('/' :: (' ' :: (Text.blankLine 2147483646 ++
      Text.blankLine 2147483646) ++ ['/']))) .default).ReportsOnce := by
  obtain ⟨n, hn⟩ : ∃ n, n = 2147483646 := ⟨_, rfl⟩
  obtain ⟨blanks, hblanks⟩ : ∃ blanks, blanks = ' ' :: (Text.blankLine n ++ Text.blankLine n) :=
    ⟨_, rfl⟩
  rw [← hn, ← hblanks]
  have hblank : ∀ c ∈ blanks, Text.isBlank c = true := by
    intro c hc
    rw [hblanks, List.mem_cons, List.mem_append, or_self] at hc
    rcases hc with rfl | hc
    · decide
    · exact Text.isBlank_of_mem_blankLine hc
  have hlength : Text.byteLength blanks = 2 ^ 32 - 1 := by
    rw [hblanks, Text.byteLength_cons, Text.byteLength_append, Text.byteLength_blankLine, hn]
    rfl
  have hhead : ∀ c ∈ (blanks ++ ['/']).head?, c = ' ' := by simp [hblanks]
  -- The first slash is at the start and the second at byte 2 ^ 32.
  have hreads := Lexer.reads_slash (p := .start) hhead (Lexer.reads_blanks (by simp [hblanks])
    hblank rfl (Lexer.reads_slash nofun (.done rfl)))
  have htext : Lexer.ofText Options.default.devFeatures (String.ofList ('/' :: (blanks ++ ['/']))) =
      ⟨false, ⟨'/' :: (blanks ++ ['/']), .start⟩, .bottom⟩ := by
    rw [Lexer.ofText, Text.Cursor.ofText, String.toList_ofList]
    rfl
  rw [← htext] at hreads
  obtain ⟨q, s', hquery⟩ := (Lexer.lexing _ _ _).truncated.exists_query _ Options.default.maxDepth
  intro h
  have hdistinct := h.distinct
  rw [parse_eq_of_reads hreads hquery] at hdistinct
  have hapart := List.rel_of_pairwise_cons (((Diagnostic.sorted_perm _).pairwise_iff
    fun h hsame => h ⟨hsame.1.symm, hsame.2.symm⟩).mp hdistinct) List.mem_cons_self
  refine hapart ⟨rfl, ?_⟩
  have hoffset : ((Text.Position.start.after ['/']).after blanks).offset = 2 ^ 32 := by
    show 1 + Text.byteLength blanks = 2 ^ 32
    rw [hlength]
    rfl
  show _ = (Span.truncated ⟨((Text.Position.start.after ['/']).after blanks).offset, _⟩).start
  rw [hoffset]
  rfl

end PipeQuery
