import PipeQuery.Proofs.Token.Reading
import PipeQuery.Proofs.Token.Taking
import PipeQuery.Token.Filter

/-!
# `PipeQuery.Proofs.Token.Spelling`: texts that are put together to be read

A text that is rendered is a row of pieces, each a token of the mode it stands in, with single
blanks here and there. `Spells` says which pieces the lexer reads off the beginning of a text, in
front of what really follows, so that no piece runs on into the next. `Writes` says it of a text in
front of anything that does not carry it on, and `Prints` leaves the modes open but for the one in
force. Texts are put together by the lemmas about `Writes`; `Spells.reads` reads them.
-/

set_option autoImplicit false

namespace PipeQuery.Token

open Shape (startsWith)

/-- A token that is to be read, as its kind and its text. Behind a tight one no blank may stand. -/
structure Piece where
  kind : Kind
  text : List Char
  tight : Bool
deriving DecidableEq, Repr

/-- From the modes `m`, the lexer reads the pieces off `cs` and stands in front of `rest` with the
modes `m'`. -/
inductive Spells (preview : Bool) :
    ModeStack → List Char → List Piece → ModeStack → List Char → Prop where
  | done {m : ModeStack} {cs : List Char} : Spells preview m cs [] m cs
  | blank {m m' : ModeStack} {cs rest : List Char} {ps : List Piece}
    (h : Spells preview m cs ps m' rest) : Spells preview m (' ' :: cs) ps m' rest
  | piece {m m' : ModeStack} {p : Piece} {cs rest : List Char} {ps : List Piece}
    (hforms : Forms preview m.current p.kind p.text)
    (hends : startsWith (continues m.current p.kind) cs = false)
    (htight : p.tight = true → startsWith Text.isBlank cs = false)
    (h : Spells preview (m.behind p.kind) cs ps m' rest) :
    Spells preview m (p.text ++ cs) (p :: ps) m' rest

/-- The lexemes are the pieces, one by one, and none is spaced behind a tight one. -/
inductive Matches : List Lexeme → List Piece → Prop where
  | nil : Matches [] []
  | cons {l : Lexeme} {w : List Lexeme} {p : Piece} {ps : List Piece}
    (hkind : l.token.kind = p.kind) (htext : l.token.text.toList = p.text)
    (htight : p.tight = true → ∀ l' ∈ w.head?, l'.spaced = false) (h : Matches w ps) :
    Matches (l :: w) (p :: ps)

/-- Lexemes of two lists of pieces are those of the first and then those of the second. -/
theorem Matches.split {w : List Lexeme} {ps ps' : List Piece} (h : Matches w (ps ++ ps')) :
    ∃ w₁ w₂, w = w₁ ++ w₂ ∧ Matches w₁ ps ∧ Matches w₂ ps' := by
  induction ps generalizing w with
  | nil => exact ⟨[], w, rfl, .nil, h⟩
  | cons p ps ih =>
      obtain _ | ⟨hkind, htext, htight, h⟩ := h
      obtain ⟨w₁, w₂, rfl, h₁, h₂⟩ := ih h
      refine ⟨_ :: w₁, w₂, rfl, .cons hkind htext (fun hp l' hl' => htight hp l' ?_) h₁, h₂⟩
      cases w₁ with
      | nil => cases hl'
      | cons l w₁ => exact hl'

/-- Lexemes match pieces by their kinds and texts, so their spans do not matter. -/
theorem Matches.truncated {w : List Lexeme} {ps : List Piece} (h : Matches w ps) :
    Matches (w.map Lexeme.truncated) ps := by
  induction h with
  | nil => exact .nil
  | @cons l w p ps hkind htext htight _ ih =>
      refine .cons hkind htext (fun hp l' hl' => ?_) ih
      rw [List.head?_map] at hl'
      obtain ⟨l₀, hl₀, rfl⟩ := Option.map_eq_some_iff.mp hl'
      exact htight hp l₀ hl₀

/-- What is spelled up to a place and what is spelled from there is spelled together. -/
theorem Spells.append {preview : Bool} {m m' m'' : ModeStack} {cs mid rest : List Char}
    {ps ps' : List Piece} (h : Spells preview m cs ps m' mid)
    (h' : Spells preview m' mid ps' m'' rest) : Spells preview m cs (ps ++ ps') m'' rest := by
  induction h with
  | done => exact h'
  | blank _ ih => exact .blank (ih h')
  | piece hforms hends htight _ ih => exact .piece hforms hends htight (ih h')

/-! ### What is spelled is read -/

/-- The lexer `l` reads to the end of the text without finding anything wrong, and what it reads
are the pieces. `spaced` says whether a hidden token stands right before. -/
def ReadsPieces (l : Lexer) (ps : List Piece) (m : ModeStack) : Prop :=
  ∃ tokens l', l.Reads tokens [] l' ∧ l'.modes = m ∧
    ∀ spaced, Matches (Lexeme.ofTokens spaced tokens) ps ∧
      (startsWith Text.isBlank l.cursor.rest = false →
        ∀ l' ∈ (Lexeme.ofTokens spaced tokens).head?, l'.spaced = spaced)

/-- Blanks in front change nothing in what is read. -/
theorem readsPieces_of_dropWhile {preview : Bool} {ps : List Piece} {m m' : ModeStack}
    {cs : List Char} (h : ∀ l : Lexer, l.preview = preview → l.modes = m →
      l.cursor.rest = cs.dropWhile Text.isBlank → ReadsPieces l ps m') (l : Lexer)
    (hpreview : l.preview = preview) (hmodes : l.modes = m) (hrest : l.cursor.rest = cs) :
    ReadsPieces l ps m' := by
  cases hblank : startsWith Text.isBlank cs with
  | false =>
      refine h l hpreview hmodes ?_
      cases cs with
      | nil => exact hrest
      | cons c cs => rw [hrest, List.dropWhile_cons_of_neg (by simpa using hblank)]
  -- All blanks make one hidden token, behind which the pieces begin.
  | true =>
      have hne : l.cursor.rest ≠ [] := by
        rintro hnil
        rw [← hrest, hnil] at hblank
        cases hblank
      have hstep : l.step = .token m .whitespace (Shape.run Text.isBlank cs) := by
        rw [Lexer.step, hmodes, hrest]
        exact step_blank _ _ hblank
      have hbehind : l.afterStep.cursor.rest = cs.dropWhile Text.isBlank := by
        show l.cursor.rest.drop l.step.length = _
        rw [hstep, hrest]
        exact Shape.drop_run _ _
      obtain ⟨tokens, l', hreads, hend, hall⟩ :=
        h l.afterStep hpreview (congrArg Step.modes hstep) hbehind
      have hnone : l.stepDiagnostic? = none := by rw [Lexer.stepDiagnostic?, hstep]; rfl
      have hhidden : l.stepToken.isHidden = true := by
        rw [Lexer.stepToken, hstep]
        rfl
      have hchain := Lexer.Reads.step hne hreads
      rw [hnone] at hchain
      refine ⟨_, l', hchain, hend, fun spaced => ?_⟩
      rw [Lexeme.ofTokens, hhidden, if_pos rfl, hrest, hblank]
      exact ⟨(hall true).1, fun hfalse => by cases hfalse⟩

/-- A text that is spelled to its end is read as its pieces. The induction is on the spelling, with
the blanks in front passed over. -/
theorem Spells.readsPieces {preview : Bool} {m m' : ModeStack} {cs rest : List Char}
    {ps : List Piece} (h : Spells preview m cs ps m' rest) (hrest : rest = []) (l : Lexer)
    (hpreview : l.preview = preview) (hmodes : l.modes = m)
    (hahead : l.cursor.rest = cs.dropWhile Text.isBlank) : ReadsPieces l ps m' := by
  induction h generalizing l with
  | done =>
      subst hrest
      exact ⟨[], l, .done hahead, hmodes, fun _ => ⟨.nil, fun _ _ h => by cases h⟩⟩
  | blank _ ih => exact ih hrest l hpreview hmodes hahead
  | @piece m m' p cs rest ps hforms hends htight _ ih =>
      -- No token's text begins with a blank, so the lexer stands at the piece itself.
      have hnotBlank : startsWith Text.isBlank (p.text ++ cs) = false := by
        have := hforms.not_blank
        obtain ⟨c, text, htext⟩ := List.exists_cons_of_ne_nil hforms.ne_nil
        rw [htext] at this ⊢
        exact this
      have hahead : l.cursor.rest = p.text ++ cs := by
        rw [hahead]
        cases htext : p.text ++ cs with
        | nil => rfl
        | cons c text =>
            rw [htext] at hnotBlank
            exact List.dropWhile_cons_of_neg (by simpa using hnotBlank)
      have hne : l.cursor.rest ≠ [] := by
        rw [hahead]
        exact List.append_ne_nil_of_left_ne_nil hforms.ne_nil _
      -- One step takes the piece; the rest is read by the induction hypothesis.
      have hstep : l.step = .token (m.behind p.kind) p.kind p.text.length := by
        rw [Lexer.step, hpreview, hmodes, hahead]
        exact hforms.step hends
      have hbehind : l.afterStep.cursor.rest = cs := by
        show l.cursor.rest.drop l.step.length = cs
        rw [hstep, hahead]
        exact List.drop_left
      obtain ⟨tokens, l', hreads, hend, hall⟩ :=
        readsPieces_of_dropWhile (ih hrest) l.afterStep hpreview
          (congrArg Step.modes hstep) hbehind
      have hnone : l.stepDiagnostic? = none := by rw [Lexer.stepDiagnostic?, hstep]; rfl
      have hkind : l.stepToken.kind = p.kind := by rw [Lexer.stepToken, hstep]; rfl
      have htext : l.stepToken.text.toList = p.text := by
        show (String.ofList (l.cursor.rest.take l.step.length)).toList = p.text
        rw [hstep, hahead, String.toList_ofList]
        exact List.take_left
      have hhidden : l.stepToken.isHidden = false := by
        rw [Token.isHidden, decide_eq_false_iff_not, Lexer.stepToken, spanning_hidden_iff, hstep]
        exact hforms.not_isTrivia
      have hchain := Lexer.Reads.step hne hreads
      rw [hnone] at hchain
      -- Whether the next piece is spaced depends on this one's end, which `htight` speaks of.
      refine ⟨_, l', hchain, hend, fun spaced => ?_⟩
      rw [Lexeme.ofTokens_cons spaced hhidden]
      refine ⟨.cons hkind htext (fun hp => ?_) (hall false).1, fun _ l' hl' => ?_⟩
      · exact (hall false).2 (by rw [hbehind]; exact htight hp)
      · obtain rfl : _ = l' := Option.some.inj hl'
        rfl

/-! ### Texts that are put together -/

/-- In front of a text that no character of `more` begins, the pieces are read off the text `cs`,
from the modes `m` to the modes `m'`. -/
def Writes (preview : Bool) (m : ModeStack) (cs : List Char) (ps : List Piece) (m' : ModeStack)
    (more : Char → Bool) : Prop :=
  ∀ rest, startsWith more rest = false → Spells preview m (cs ++ rest) ps m' rest

namespace Writes

variable {preview : Bool} {m m' m'' : ModeStack} {cs cs' : List Char} {ps ps' : List Piece}
  {more more' : Char → Bool}

/-- No text writes no piece. -/
theorem nil : Writes preview m [] [] m more :=
  fun _ _ => .done

/-- A blank writes no piece. -/
theorem blank : Writes preview m [' '] [] m (fun _ => false) :=
  fun _ _ => .blank .done

/-- A token's text writes the piece, before anything that does not carry it on. -/
theorem piece {kind : Kind} (h : Forms preview m.current kind cs) :
    Writes preview m cs [⟨kind, cs, false⟩] (m.behind kind) (continues m.current kind) :=
  fun _ hrest => .piece (p := ⟨kind, cs, false⟩) h hrest (fun hfalse => by cases hfalse) .done

/-- It writes the piece glued to the one behind, if no blank follows either. -/
theorem tight {kind : Kind} (h : Forms preview m.current kind cs) :
    Writes preview m cs [⟨kind, cs, true⟩] (m.behind kind)
      (fun c => continues m.current kind c || Text.isBlank c) := by
  intro rest hrest
  rw [Shape.startsWith_or, Bool.or_eq_false_iff] at hrest
  exact .piece (p := ⟨kind, cs, true⟩) h hrest.1 (fun _ => hrest.2) .done

/-- A text may be followed by less than it allows. -/
theorem mono (h : Writes preview m cs ps m' more) (hmore : ∀ c, more c = true → more' c = true) :
    Writes preview m cs ps m' more' :=
  fun rest hrest => h rest (Shape.startsWith_mono hmore hrest)

/-- Two texts, the second of which does not carry on the first. -/
theorem append (h : Writes preview m cs ps m' more) (h' : Writes preview m' cs' ps' m'' more')
    (hends : ∀ rest, startsWith more' rest = false → startsWith more (cs' ++ rest) = false) :
    Writes preview m (cs ++ cs') (ps ++ ps') m'' more' := by
  intro rest hrest
  rw [List.append_assoc]
  exact (h _ (hends rest hrest)).append (h' rest hrest)

end Writes

/-- In every stack with the mode in force the text is written, with the same pieces and changing the
modes by `next`, and lexemes that match the pieces have the property. -/
def Prints (preview : Bool) (mode : Mode) (next : ModeStack → ModeStack) (cs : List Char)
    (more : Char → Bool) (R : List Lexeme → Prop) : Prop :=
  ∃ ps, (∀ m : ModeStack, m.current = mode → Writes preview m cs ps (next m) more) ∧
    ∀ w, Matches w ps → R w

/-- The lexemes are a single one of this kind and text. -/
def IsToken (kind : Kind) (cs : List Char) (w : List Lexeme) : Prop :=
  ∃ l, w = [l] ∧ l.token.kind = kind ∧ l.token.text = String.ofList cs

/-- The lexemes are a single one of this kind. -/
def IsKind (kind : Kind) (w : List Lexeme) : Prop :=
  ∃ l, w = [l] ∧ l.token.kind = kind

/-- A token of this kind and text is one of this kind. -/
theorem IsToken.isKind {kind : Kind} {cs : List Char} {w : List Lexeme} (h : IsToken kind cs w) :
    IsKind kind w := by
  obtain ⟨l, hw, hkind, -⟩ := h
  exact ⟨l, hw, hkind⟩

/-- The lexemes are some with the one property and then some with the other. -/
def Followed (R R' : List Lexeme → Prop) (w : List Lexeme) : Prop :=
  ∃ w₁ w₂, w = w₁ ++ w₂ ∧ R w₁ ∧ R' w₂

namespace Prints

variable {preview : Bool} {mode mode' : Mode} {next next' : ModeStack → ModeStack}
  {cs cs' : List Char} {more more' : Char → Bool} {R R' : List Lexeme → Prop}

/-- What a text is read as may be weakened. -/
theorem imp (h : Prints preview mode next cs more R) (hR : ∀ w, R w → R' w) :
    Prints preview mode next cs more R' := by
  obtain ⟨ps, hwrites, hmatches⟩ := h
  exact ⟨ps, hwrites, fun w hw => hR w (hmatches w hw)⟩

/-- A text may be followed by less than it allows. -/
theorem mono (h : Prints preview mode next cs more R)
    (hmore : ∀ c, more c = true → more' c = true) : Prints preview mode next cs more' R := by
  obtain ⟨ps, hwrites, hmatches⟩ := h
  exact ⟨ps, fun m hm => (hwrites m hm).mono hmore, hmatches⟩

/-- A token's text is read as the token wherever the mode is the one it is formed in. -/
theorem piece {kind : Kind} (h : Forms preview mode kind cs)
    (hnext : ∀ m : ModeStack, m.current = mode → m.behind kind = next m) :
    Prints preview mode next cs (continues mode kind) (IsToken kind cs) := by
  refine ⟨[⟨kind, cs, false⟩], fun m hm => ?_, fun w hw => ?_⟩
  · subst hm
    rw [← hnext m rfl]
    exact .piece h
  · obtain _ | ⟨hkind, htext, -, hrest⟩ := hw
    cases hrest
    exact ⟨_, rfl, hkind, String.ofList_toList.symm.trans (congrArg String.ofList htext)⟩

/-- A token that nothing carries on. -/
theorem sign {kind : Kind} (h : Forms preview mode kind cs)
    (hends : ∀ c, continues mode kind c = false)
    (hnext : ∀ m : ModeStack, m.current = mode → m.behind kind = next m) :
    Prints preview mode next cs (fun _ => false) (IsToken kind cs) :=
  (piece h hnext).mono fun c hc => by rw [hends] at hc; cases hc

/-- The modes behind a text may be written in another way. -/
theorem congr (h : Prints preview mode next cs more R)
    (hnext : ∀ m : ModeStack, m.current = mode → next m = next' m) :
    Prints preview mode next' cs more R := by
  obtain ⟨ps, hwrites, hmatches⟩ := h
  exact ⟨ps, fun m hm => hnext m hm ▸ hwrites m hm, hmatches⟩

/-- A whole text is read, and nothing is wrong in it. The lexemes have the property with the spans
of 32 bits that the parser sees. -/
theorem reads (h : Prints preview mode next cs more R) {l : Lexer} (hpreview : l.preview = preview)
    (hmode : l.modes.current = mode) (hrest : l.cursor.rest = cs) :
    ∃ tokens l', l.Reads tokens [] l' ∧ l'.modes = next l.modes ∧
      R (Lexeme.ofTokens false (tokens.map Token.truncated)) := by
  obtain ⟨ps, hwrites, hmatches⟩ := h
  have hspells := hwrites l.modes hmode [] rfl
  rw [List.append_nil] at hspells
  obtain ⟨tokens, l', hreads, hmodes, hall⟩ :=
    readsPieces_of_dropWhile (hspells.readsPieces rfl) l hpreview rfl hrest
  refine ⟨tokens, l', hreads, hmodes, ?_⟩
  rw [Lexeme.ofTokens_map_truncated]
  exact hmatches _ (hall false).1.truncated

/-- No text is read as no lexemes. -/
theorem nil : Prints preview mode id [] (fun _ => false) (· = []) := by
  refine ⟨[], fun m _ => .nil, fun w hw => ?_⟩
  cases hw
  rfl

/-- A blank is read as no lexemes. -/
theorem blank : Prints preview mode id [' '] (fun _ => false) (· = []) := by
  refine ⟨[], fun m _ => .blank, fun w hw => ?_⟩
  cases hw
  rfl

/-- A text and, behind a blank, another. -/
theorem spaced (h : Prints preview mode next cs more R)
    (h' : Prints preview mode' next' cs' more' R') (hblank : more ' ' = false)
    (hnext : ∀ m : ModeStack, m.current = mode → (next m).current = mode') :
    Prints preview mode (next' ∘ next) (cs ++ ' ' :: cs') more' (Followed R R') := by
  obtain ⟨ps, hwrites, hmatches⟩ := h
  obtain ⟨ps', hwrites', hmatches'⟩ := h'
  refine ⟨ps ++ ps', fun m hm => ?_, fun w hw => ?_⟩
  · exact (hwrites m hm).append
      (Writes.blank.append (hwrites' _ (hnext m hm)) fun rest _ => by cases cs' ++ rest <;> rfl)
      fun _ _ => hblank
  · obtain ⟨w₁, w₂, rfl, hw₁, hw₂⟩ := hw.split
    exact ⟨w₁, w₂, rfl, hmatches _ hw₁, hmatches' _ hw₂⟩

/-- Two texts one behind the other are read as lexemes one behind the other. -/
theorem append (h : Prints preview mode next cs more R)
    (h' : Prints preview mode' next' cs' more' R')
    (hends : ∀ rest, startsWith more' rest = false → startsWith more (cs' ++ rest) = false)
    (hnext : ∀ m : ModeStack, m.current = mode → (next m).current = mode') :
    Prints preview mode (next' ∘ next) (cs ++ cs') more' (Followed R R') := by
  obtain ⟨ps, hwrites, hmatches⟩ := h
  obtain ⟨ps', hwrites', hmatches'⟩ := h'
  refine ⟨ps ++ ps', fun m hm => (hwrites m hm).append (hwrites' _ (hnext m hm)) hends,
    fun w hw => ?_⟩
  obtain ⟨w₁, w₂, rfl, hw₁, hw₂⟩ := hw.split
  exact ⟨w₁, w₂, rfl, hmatches _ hw₁, hmatches' _ hw₂⟩

end Prints

end PipeQuery.Token
