import PipeQuery.Proofs.Command.Plain
import PipeQuery.Proofs.Command.Run
import PipeQuery.Proofs.Parse
import PipeQuery.Proofs.Token.Report

/-!
# `PipeQuery.Proofs.Layout`: blanks, comments and line breaks

How a text is laid out does not matter. Two texts whose tokens on the default channel have the same
kinds and texts are read as the same query but for the spans, and if one has a diagnostic so has the
other (`parse_layout`). Hidden tokens count in one place: next to a colon, where they keep the parts
of a source name asunder.

The parser goes over both texts as over their plain form, which is one and the same. What the parser
is told of by the lexer is in the tokens as well: errors have tokens of their own, and without them
the modes at the end are those behind the tokens (`modes_of_reads`).
-/

set_option autoImplicit false

namespace PipeQuery

open PipeQuery.Parser

/-! ### Texts with the same wording -/

/-- The kind of a token and its text. -/
def Token.wording (t : Token) : Token.Kind × String :=
  (t.kind, t.text)

/-- The kinds on the default channel do not depend on the spans. -/
theorem Token.kinds_map_truncated (tokens : List Token) :
    ((tokens.map truncated).filter fun t => !t.isHidden).map kind =
      (tokens.filter fun t => !t.isHidden).map kind := by
  rw [List.filter_map, List.map_map]
  rfl

namespace Parsed

/-- The tokens of the default channel by kind and text, the one at the end of the text included. -/
def wording (p : Parsed) : List (Token.Kind × String) :=
  (p.tokens.filter fun t => !t.isHidden).map Token.wording

/-- Hidden tokens stand right before token number `i` of the default channel. -/
def isSpacedAt (p : Parsed) (i : Nat) : Bool :=
  (Lexeme.ofTokens false p.tokens)[i]?.any Lexeme.spaced

/-- The default channels have the same kinds and texts, and hidden tokens stand before and behind a
colon in both texts or in neither. -/
structure SameWording (p p' : Parsed) : Prop where
  wording_eq : p.wording = p'.wording
  atColon : ∀ i (hi : i < p.wording.length), p.wording[i].1 = .colon →
    p.isSpacedAt i = p'.isSpacedAt i ∧ p.isSpacedAt (i + 1) = p'.isSpacedAt (i + 1)

end Parsed

/-! ### The modes behind tokens -/

namespace Lexer

variable {l l' : Lexer} {tokens : List Token} {diagnostics : List Diagnostic}

/-- A step that makes no error passes over a hidden token, or the modes are those behind its
kind. -/
theorem step_modes (h : l.step.kind ≠ .error) :
    l.stepToken.isHidden = true ∧ l.afterStep.modes = l.modes ∨
      l.stepToken.isHidden = false ∧ l.afterStep.modes = l.modes.behind l.stepToken.kind := by
  have haccounts : Token.Accounts l.preview l.modes l.cursor.rest l.step :=
    Token.step_accounts l.preview l.modes l.cursor.rest
  have hhidden : l.stepToken.isHidden = l.step.kind.isTrivia := by
    rw [Token.isHidden, stepToken, Bool.eq_iff_iff, decide_eq_true_eq, Token.spanning_hidden_iff]
  have hkind : l.stepToken.kind = l.step.kind := rfl
  have hmodes : l.afterStep.modes = l.step.modes := rfl
  rw [hhidden, hkind, hmodes]
  generalize l.step = step at haccounts h
  cases haccounts with
  | error => exact absurd rfl h
  | trivia _ htrivia => exact .inl ⟨htrivia, rfl⟩
  | token _ hforms => exact .inr ⟨Bool.eq_false_iff.mpr hforms.not_isTrivia, rfl⟩

/-- Without errors the modes at the end of a text are those behind its default tokens. -/
theorem modes_of_reads (h : l.Reads tokens [] l') :
    l'.modes =
      ((tokens.filter fun t => !t.isHidden).map Token.kind).foldl ModeStack.behind l.modes := by
  generalize hnone : ([] : List Diagnostic) = diagnostics at h
  induction h with
  | done => rfl
  | @step l l' tokens diagnostics hne rest ih =>
      obtain ⟨hhead, rfl⟩ := List.append_eq_nil_iff.mp hnone.symm
      have hkind := l.step_kind_ne_error (Option.toList_eq_nil_iff.mp hhead)
      rw [ih rfl]
      rcases step_modes hkind with ⟨hhidden, hmodes⟩ | ⟨hregular, hmodes⟩
      · rw [hmodes, List.filter_cons_of_neg (by simpa using hhidden)]
      · rw [hmodes, List.filter_cons_of_pos (by simpa using hregular), List.map_cons,
          List.foldl_cons]

/-- The lexer finds something wrong just if one of the default tokens is an error. -/
theorem diagnostics_eq_nil_iff (h : l.Reads tokens diagnostics l') :
    diagnostics = [] ↔
      Token.Kind.error ∉ (tokens.filter fun t => !t.isHidden).map Token.kind := by
  constructor
  · rintro rfl hmem
    obtain ⟨t, ht, herror⟩ := List.mem_map.mp hmem
    exact kind_ne_error_of_reads h t (List.mem_filter.mp ht).1 herror
  · intro hnone
    have herrors : tokens.filter (fun t => t.kind = .error) = [] := by
      rw [List.filter_eq_nil_iff]
      intro t ht herror
      have hkind : t.kind = .error := of_decide_eq_true herror
      obtain ⟨_, _, _, _, hpiece⟩ := (Token.cut_of_reads h).1.of_mem ht
      have hregular : t.isHidden = false := by
        rw [Token.isHidden, decide_eq_false_iff_not, hpiece.hidden_iff, hkind]
        decide
      exact hnone (List.mem_map.mpr ⟨t, List.mem_filter.mpr ⟨ht, by simp [hregular]⟩, hkind⟩)
    have hreports := reports_of_reads h
    rw [herrors] at hreports
    exact List.forall₂_nil_right_iff.mp hreports

end Lexer

/-! ### The plain form -/

namespace Lexeme

/-- Lexemes with the same kinds and texts have the same plain form, if hidden tokens stand at the
same sides of the colons among them. -/
theorem plain_eq {w w' : List Lexeme} {behindColon : Bool}
    (hwording : w.map (·.token.wording) = w'.map (·.token.wording))
    (hfirst : behindColon = true → w[0]?.any Lexeme.spaced = w'[0]?.any Lexeme.spaced)
    (hcolon : ∀ i (hi : i < w.length), w[i].token.kind = .colon →
      w[i]?.any Lexeme.spaced = w'[i]?.any Lexeme.spaced ∧
        w[i + 1]?.any Lexeme.spaced = w'[i + 1]?.any Lexeme.spaced) :
    plain behindColon w = plain behindColon w' := by
  -- The first lexeme decides whether the rest is behind a colon, and `hcolon` then speaks of both.
  induction w generalizing w' behindColon with
  | nil => rw [List.map_eq_nil_iff.mp hwording.symm]
  | cons l w ih =>
      cases w' with
      | nil => cases hwording
      | cons l' w' =>
          obtain ⟨hhead, hwording⟩ := List.cons.inj hwording
          obtain ⟨hkind, htext⟩ := Prod.mk.inj hhead
          have htoken : l.token.plain = l'.token.plain := by
            rw [Token.plain, Token.plain, hkind, htext]
            rfl
          have hrest : plain (l.token.kind = .colon) w = plain (l.token.kind = .colon) w' :=
            ih hwording (fun h => (hcolon 0 (Nat.succ_pos _) (of_decide_eq_true h)).2)
              fun i hi h => hcolon (i + 1) (Nat.succ_lt_succ hi) h
          -- Away from colons the flags may differ, but there the plain form does not show them.
          have hspaced : (l.spaced && (behindColon || l.token.kind = .colon)) =
              (l'.spaced && (behindColon || l.token.kind = .colon)) := by
            cases hcounts : behindColon || decide (l.token.kind = .colon) with
            | false => rw [Bool.and_false, Bool.and_false]
            | true =>
                have hsame : l.spaced = l'.spaced := by
                  rcases (Bool.or_eq_true _ _).mp hcounts with h | h
                  · exact hfirst h
                  · exact (hcolon 0 (Nat.succ_pos _) (of_decide_eq_true h)).1
                rw [hsame]
          rw [plain, plain, ← hkind, htoken, hrest, hspaced]

/-- One token more at the end is one lexeme more in plain form, unless it is hidden. -/
theorem exists_plain_concat (spaced behindColon : Bool) (tokens : List Token) {t : Token}
    (ht : t.isHidden = false) :
    ∃ l, plain behindColon (ofTokens spaced (tokens ++ [t])) =
      plain behindColon (ofTokens spaced tokens) ++ [l] := by
  induction tokens generalizing spaced behindColon with
  | nil =>
      refine ⟨⟨t.plain, spaced && (behindColon || t.kind = .colon)⟩, ?_⟩
      simp [ofTokens, ht, plain]
  | cons t' tokens ih =>
      rw [List.cons_append, ofTokens, ofTokens]
      split
      · exact ih true behindColon
      · obtain ⟨l, hl⟩ := ih false (t'.kind = .colon)
        exact ⟨l, by rw [plain, plain, hl, List.cons_append]⟩

end Lexeme

variable {text text' : String} {options : Options}

namespace Parsed

/-- The default tokens of a parse are its lexemes, the one at the end of the text included. -/
theorem wording_eq_map (p : Parsed) :
    p.wording = (Lexeme.ofTokens false p.tokens).map (·.token.wording) := by
  rw [wording, ← Lexeme.map_token_ofTokens false, List.map_map]
  rfl

namespace SameWording

variable {p p' : Parsed} (h : p.SameWording p') {tokens tokens' : List Token} {last last' : Token}
  (hp : p.tokens = tokens ++ [last]) (hp' : p'.tokens = tokens' ++ [last'])
  (hlast : last.isHidden = false) (hlast' : last'.isHidden = false)

include h hp hp' hlast hlast'

/-- Two texts of one wording have the same plain lexemes. -/
theorem plain_eq :
    Lexeme.plain false (Lexeme.ofTokens false tokens) =
      Lexeme.plain false (Lexeme.ofTokens false tokens') := by
  have hwording := h.wording_eq
  rw [wording_eq_map, wording_eq_map] at hwording
  -- The token at the end is compared with the others and left out again afterwards.
  have hall : Lexeme.plain false (Lexeme.ofTokens false p.tokens) =
      Lexeme.plain false (Lexeme.ofTokens false p'.tokens) := by
    refine Lexeme.plain_eq hwording (fun h => absurd h Bool.false_ne_true) fun i hi hcolon => ?_
    have hlength : i < p.wording.length := by rwa [wording_eq_map, List.length_map]
    refine h.atColon i hlength ?_
    simp only [wording_eq_map, List.getElem_map]
    exact hcolon
  obtain ⟨l, hl⟩ := Lexeme.exists_plain_concat false false tokens hlast
  obtain ⟨l', hl'⟩ := Lexeme.exists_plain_concat false false tokens' hlast'
  rw [hp, hp', hl, hl'] at hall
  exact List.append_inj_left' hall rfl

/-- They have the same kinds in front of the parser. -/
theorem kinds_eq :
    (tokens.filter fun t => !t.isHidden).map Token.kind =
      (tokens'.filter fun t => !t.isHidden).map Token.kind := by
  have hwording := h.wording_eq
  rw [wording, wording, hp, hp', List.filter_append, List.filter_append,
    List.filter_cons_of_pos (by simp [hlast]), List.filter_cons_of_pos (by simp [hlast']),
    List.map_append, List.map_append] at hwording
  have hkinds := congrArg (List.map Prod.fst) (List.append_inj_left' hwording rfl)
  rwa [List.map_map, List.map_map] at hkinds

end SameWording

end Parsed

/-- A text is read as its plain form is. Without lexical errors and with all brackets closed, it has
a diagnostic if the plain form has. -/
theorem exists_plain_run (text : String) (options : Options) :
    ∃ tokens diagnostics l' s',
      (Lexer.ofText options.devFeatures text).Reads tokens diagnostics l' ∧
      (parse text options).tokens = tokens.map Token.truncated ++ [l'.endToken.truncated] ∧
      wholePipeline options.maxDepth ⟨[], l'.endToken.plain, []⟩
          (.initial (Lexeme.plain false (Lexeme.ofTokens false (tokens.map Token.truncated)))) =
        (.ok ((parse text options).query.mapSpans Span.plain).commands, s') ∧
      ((parse text options).diagnostics = [] ↔ diagnostics = [] ∧ s'.IsClean ∧
        l'.modes.unwind.above = [] ∧ (parse text options).query.commands ≠ []) := by
  obtain ⟨tokens, diagnostics, l', q, s₁, hreads, hquery, hparse⟩ :=
    exists_reads_of_parse text options
  obtain ⟨s', hrun, hclean⟩ := exists_plain_of_query rfl hquery
  refine ⟨tokens, diagnostics, l', s', hreads, by rw [hparse, List.map_append]; rfl, ?_, ?_⟩
  · rw [hparse]
    exact hrun
  · rw [hparse, PipeQuery.diagnostics_eq_nil_iff, List.map_eq_nil_iff]
    refine and_congr_right ?_
    rintro rfl
    have hopen : (!l'.modes.unwind.above.isEmpty) = false ↔ l'.modes.unwind.above = [] := by simp
    rw [hclean (Lexer.errorStarts_truncated_of_accepted hreads text) rfl, ← hopen]
    rfl

/-- Texts with the same wording are read as the same query but for the spans, and one has a
diagnostic just if the other has. -/
theorem parse_layout (h : (parse text options).SameWording (parse text' options)) :
    (parse text options).query.mapSpans Span.plain =
        (parse text' options).query.mapSpans Span.plain ∧
      ((parse text options).diagnostics = [] ↔ (parse text' options).diagnostics = []) := by
  obtain ⟨tokens, diagnostics, l, s, hreads, htokens, hrun, hclean⟩ :=
    exists_plain_run text options
  obtain ⟨tokens', diagnostics', l', s', hreads', htokens', hrun', hclean'⟩ :=
    exists_plain_run text' options
  have hplain := h.plain_eq htokens htokens' rfl rfl
  have hkinds := h.kinds_eq htokens htokens' rfl rfl
  rw [Token.kinds_map_truncated, Token.kinds_map_truncated] at hkinds
  -- The plain forms are one, and so are the runs over them.
  have hend : l.endToken.plain = l'.endToken.plain := rfl
  rw [hplain, hend, hrun'] at hrun
  obtain ⟨hcommands, rfl⟩ := Prod.mk.inj hrun
  have hmapped : (parse text options).query.commands.map (Command.mapSpans Span.plain) =
      (parse text' options).query.commands.map (Command.mapSpans Span.plain) :=
    (Except.ok.inj hcommands).symm
  have hnone : (parse text options).query.commands = [] ↔
      (parse text' options).query.commands = [] := by
    rw [← List.map_eq_nil_iff, hmapped, List.map_eq_nil_iff]
  refine ⟨by rw [Query.mapSpans, Query.mapSpans, hmapped]; rfl, ?_⟩
  have hdiagnostics : diagnostics = [] ↔ diagnostics' = [] := by
    rw [Lexer.diagnostics_eq_nil_iff hreads, Lexer.diagnostics_eq_nil_iff hreads', hkinds]
  rw [hclean, hclean', hdiagnostics]
  refine and_congr_right fun hnil' => ?_
  obtain rfl := hdiagnostics.mpr hnil'
  obtain rfl := hnil'
  have hmodes : l.modes = l'.modes := by
    rw [Lexer.modes_of_reads hreads, Lexer.modes_of_reads hreads', hkinds]
    rfl
  rw [hmodes, ne_eq, ne_eq, hnone]

/-- A comment and a line break between commands, and blanks around an index name. -/
theorem parse_layout_comment :
    (parse "FROM a:b,c|LIMIT 1" .default).SameWording
        (parse "FROM a:b , c // all\n| LIMIT 1" .default) ∧
      (parse "FROM a:b,c|LIMIT 1" .default).diagnostics = [] ∧
      (parse "FROM a:b,c|LIMIT 1" .default).query.mapSpans Span.plain =
        (parse "FROM a:b , c // all\n| LIMIT 1" .default).query.mapSpans Span.plain ∧
      (parse "FROM a:b , c // all\n| LIMIT 1" .default).diagnostics = [] := by
  have hsame : (parse "FROM a:b,c|LIMIT 1" .default).SameWording
      (parse "FROM a:b , c // all\n| LIMIT 1" .default) :=
    ⟨by decide +kernel, by decide +kernel⟩
  have haccepted : (parse "FROM a:b,c|LIMIT 1" .default).diagnostics = [] := by decide +kernel
  obtain ⟨hquery, hdiagnostics⟩ := parse_layout hsame
  exact ⟨hsame, haccepted, hquery, hdiagnostics.mp haccepted⟩

/-- Blanks at a colon do matter. -/
example :
    (parse "FROM a:b" .default).wording = (parse "FROM a: b" .default).wording ∧
      (parse "FROM a:b" .default).diagnostics = [] ∧
      (parse "FROM a: b" .default).diagnostics ≠ [] := by
  decide +kernel

end PipeQuery
