import PipeQuery.Proofs.Token.Reading
import PipeQuery.Proofs.Token.Taking

/-!
# `PipeQuery.Proofs.Token.Blanks`: texts with blanks in front

Blanks in front of something else are one hidden token, however many they are
(`Lexer.reads_blanks`). So a text that begins with blanks has one token more than what stands behind
them, and this is read from the place that the blanks lead to (`Lexer.lex_blanks`). With lines of
blanks that place may be anywhere, byte 2 ^ 32 of a text included.
-/

set_option autoImplicit false

namespace PipeQuery

open PipeQuery.Token.Shape (run run_append startsWith)

/-- A line of `n` blanks with its line feed. -/
def Text.blankLine (n : Nat) : List Char :=
  List.replicate n ' ' ++ ['\n']

namespace Text

/-- A line of blanks holds nothing but blanks. -/
theorem isBlank_of_mem_blankLine {n : Nat} {c : Char} (h : c ∈ blankLine n) :
    isBlank c = true := by
  rcases List.mem_append.mp h with h | h
  · obtain rfl := List.eq_of_mem_replicate h
    decide
  · obtain rfl := List.mem_singleton.mp h
    decide

/-- A line of blanks has a byte for each of them and one for the line feed. -/
theorem byteLength_blankLine (n : Nat) : byteLength (blankLine n) = n + 1 := by
  rw [blankLine, byteLength_append]
  induction n with
  | zero => rfl
  | succ n ih =>
      rw [List.replicate_succ, byteLength_cons, Nat.add_assoc, ih]
      show 1 + (n + 1) = n + 1 + 1
      omega

/-- Behind a line of blanks the next line begins. -/
theorem Position.after_blankLine (p : Position) (n : Nat) :
    p.after (blankLine n) = ⟨p.offset + (n + 1), p.line + 1, 1⟩ := by
  have hcount : (blankLine n).count '\n' = 1 := by
    rw [blankLine, List.count_append, List.count_replicate]
    rfl
  have hmem : (blankLine n).contains '\n' = true := by simp [blankLine]
  have hlast : (blankLine n).reverse.takeWhile (· ≠ '\n') = [] := by simp [blankLine]
  rw [Position.after, byteLength_blankLine, hcount, if_pos hmem, hlast]
  rfl

end Text

namespace Lexer

variable {preview : Bool} {modes : ModeStack} {p : Text.Position} {blanks rest : List Char}
  {tokens : List Token} {diagnostics : List Diagnostic} {l' : Lexer}

/-- Blanks in front of something else are one hidden token. -/
theorem reads_blanks (hne : blanks ≠ []) (hblank : ∀ c ∈ blanks, Text.isBlank c = true)
    (hrest : startsWith Text.isBlank rest = false)
    (h : Reads ⟨preview, ⟨rest, p.after blanks⟩, modes⟩ tokens diagnostics l') :
    Reads ⟨preview, ⟨blanks ++ rest, p⟩, modes⟩ (.spanning .whitespace p blanks :: tokens)
      diagnostics l' := by
  have hstarts : startsWith Text.isBlank (blanks ++ rest) = true := by
    cases blanks with
    | nil => exact absurd rfl hne
    | cons c blanks => exact hblank c List.mem_cons_self
  -- All blanks are one token, however many there are.
  have hstep : step ⟨preview, ⟨blanks ++ rest, p⟩, modes⟩ =
      .token modes .whitespace blanks.length :=
    (Token.step_blank preview modes hstarts).trans (by rw [run_append hblank hrest])
  have htoken : stepToken ⟨preview, ⟨blanks ++ rest, p⟩, modes⟩ =
      .spanning .whitespace p blanks := by
    rw [stepToken, hstep]
    exact congrArg _ (List.take_left ..)
  have hafter : afterStep ⟨preview, ⟨blanks ++ rest, p⟩, modes⟩ =
      ⟨preview, ⟨rest, p.after blanks⟩, modes⟩ := by
    rw [afterStep, hstep]
    simp [Text.Cursor.skip, Token.Step.token]
  have hnext := Reads.step (l := ⟨preview, ⟨blanks ++ rest, p⟩, modes⟩)
    (by simp [hne]) (hafter ▸ h)
  rwa [htoken, stepDiagnostic?, hstep] at hnext

/-- A text with blanks in front has the token of the blanks and the tokens behind them. -/
theorem lex_blanks (preview : Bool) (hne : blanks ≠ [])
    (hblank : ∀ c ∈ blanks, Text.isBlank c = true)
    (hrest : startsWith Text.isBlank rest = false) {lexing : Lexing}
    (h : Lexer.run ⟨preview, ⟨rest, Text.Position.start.after blanks⟩, .bottom⟩ [] [] = lexing) :
    lex preview (String.ofList (blanks ++ rest)) =
      { lexing with
        tokens := (Token.spanning .whitespace .start blanks).truncated :: lexing.tokens } := by
  obtain ⟨tokens, diagnostics, l', hreads⟩ :=
    exists_reads ⟨preview, ⟨rest, Text.Position.start.after blanks⟩, .bottom⟩
  have htext : ofText preview (String.ofList (blanks ++ rest)) =
      ⟨preview, ⟨blanks ++ rest, .start⟩, .bottom⟩ := by
    rw [ofText, Text.Cursor.ofText, String.toList_ofList]
  have hwhole := reads_blanks hne hblank hrest hreads
  rw [← htext] at hwhole
  rw [lex_eq_of_reads hwhole, ← h, run_eq_of_reads hreads]
  rfl

end Lexer

end PipeQuery
