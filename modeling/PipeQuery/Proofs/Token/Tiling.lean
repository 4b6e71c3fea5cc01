import Mathlib.Data.List.Chain
import PipeQuery.Parse
import PipeQuery.Proofs.Token.Reading

/-!
# `PipeQuery.Proofs.Token.Tiling`: the tokens of a text are its text, cut into pieces

`Cut` says that tokens, from some offset on, spell a list of characters piece by piece. Reading a
text cuts it (`cut_of_reads`); all that is said of the tokens of a text in `Tiles` is read off the
cut. `tokenize_tiles` is the result, for every text that spans of 32 bits can tell the places of.
-/

set_option autoImplicit false

namespace PipeQuery

/-! ### Byte offsets between characters -/

namespace Text

/-- To drop as many bytes as a text has leaves what stands behind it. -/
theorem dropBytes_append (pre rest : List Char) :
    dropBytes (byteLength pre) (pre ++ rest) = some rest := by
  induction pre with
  | nil => cases rest <;> simp [dropBytes]
  | cons c pre ih =>
      have hpos := c.utf8Size_pos
      rw [List.cons_append, byteLength_cons, dropBytes, if_neg (by omega), if_pos (by omega),
        Nat.add_sub_cancel_left, ih]

/-- To take as many bytes as a text has takes the text. -/
theorem takeBytes_append (piece rest : List Char) :
    takeBytes (byteLength piece) (piece ++ rest) = some piece := by
  induction piece with
  | nil => cases rest <;> simp [takeBytes]
  | cons c piece ih =>
      have hpos := c.utf8Size_pos
      rw [List.cons_append, byteLength_cons, takeBytes, if_neg (by omega), if_pos (by omega),
        Nat.add_sub_cancel_left, ih, Option.map_some]

/-- The characters between the offsets of two places in a text. -/
theorem slice_eq {text : String} {pre piece post : List Char}
    (h : text.toList = pre ++ (piece ++ post)) :
    slice text (byteLength pre) (byteLength pre + byteLength piece) = String.ofList piece := by
  rw [slice, h, slice?, if_pos (Nat.le_add_right _ _), dropBytes_append, Option.bind_some,
    Nat.add_sub_cancel_left, takeBytes_append, Option.getD_some]

/-- The length of a string in bytes is that of its characters. -/
theorem utf8ByteSize_ofList (cs : List Char) : (String.ofList cs).utf8ByteSize = byteLength cs := by
  induction cs with
  | nil => rfl
  | cons c cs ih =>
      rw [String.ofList_cons, String.utf8ByteSize_append, String.utf8ByteSize_singleton, ih,
        byteLength_cons]

/-- The bytes before a place in a text end with a character. -/
theorem isValid_byteLength {text : String} {pre post : List Char} (h : text.toList = pre ++ post) :
    (⟨byteLength pre⟩ : String.Pos.Raw).IsValid text := by
  rw [← String.ofList_toList (s := text), h, String.Pos.Raw.isValid_ofList]
  exact ⟨pre.length, by rw [List.take_left, utf8ByteSize_ofList]⟩

end Text

/-! ### Cutting a text -/

namespace Token

/-- The token is the given piece of the text, which begins at the offset. -/
structure IsPiece (t : Token) (offset : Nat) (piece : List Char) : Prop where
  ne_nil : piece ≠ []
  text_eq : t.text = String.ofList piece
  span_eq : t.span = ⟨offset, offset + Text.byteLength piece⟩
  kind_ne : t.kind ≠ .eof
  hidden_iff : t.channel = .hidden ↔ t.kind.isTrivia = true

/-- The tokens spell the characters, piece by piece from the offset on. -/
inductive Cut : Nat → List Char → List Token → Prop where
  | nil {offset : Nat} : Cut offset [] []
  | cons {offset : Nat} {piece cs : List Char} {t : Token} {tokens : List Token}
    (hpiece : IsPiece t offset piece) (rest : Cut (offset + Text.byteLength piece) cs tokens) :
    Cut offset (piece ++ cs) (t :: tokens)

/-- The token of a step is the piece of the text that the step takes. -/
theorem isPiece_stepToken (l : Lexer) (h : l.cursor.rest ≠ []) :
    IsPiece l.stepToken l.cursor.position.offset (l.cursor.rest.take l.step.length) where
  ne_nil := l.take_step_ne_nil h
  text_eq := rfl
  span_eq := rfl
  kind_ne := l.step_kind_ne_eof
  hidden_iff := spanning_hidden_iff _ _ _

/-- Reading a text cuts it, and ends as many bytes ahead as the text has. -/
theorem cut_of_reads {l l' : Lexer} {tokens : List Token} {diagnostics : List Diagnostic}
    (h : l.Reads tokens diagnostics l') :
    Cut l.cursor.position.offset l.cursor.rest tokens ∧
      l'.cursor.position.offset = l.cursor.position.offset + Text.byteLength l.cursor.rest := by
  induction h with
  | done hend => rw [hend]; exact ⟨.nil, rfl⟩
  | @step l l' tokens diagnostics hne rest ih =>
      obtain ⟨hcut, hoffset⟩ := ih
      have hcut' := Cut.cons (isPiece_stepToken l hne) hcut
      rw [Lexer.take_append_afterStep] at hcut'
      refine ⟨hcut', ?_⟩
      rw [hoffset, Lexer.afterStep_offset, Nat.add_assoc, ← Text.byteLength_append,
        Lexer.take_append_afterStep]

namespace Cut

variable {offset : Nat} {cs : List Char} {tokens : List Token}

/-- The pieces in their order are the text. -/
theorem join_eq (h : Cut offset cs tokens) :
    String.join (tokens.map Token.text) = String.ofList cs := by
  induction h with
  | nil => rfl
  | cons hpiece _ ih =>
      rw [List.map_cons, String.join_cons, ih, hpiece.text_eq, String.ofList_append]

/-- Every token is a piece that stands somewhere in the text. -/
theorem of_mem (h : Cut offset cs tokens) {t : Token} (ht : t ∈ tokens) :
    ∃ pre piece post, cs = pre ++ (piece ++ post) ∧
      IsPiece t (offset + Text.byteLength pre) piece := by
  induction h with
  | nil => simp at ht
  | @cons offset piece cs t' tokens hpiece _ ih =>
      rcases List.mem_cons.mp ht with rfl | ht
      · exact ⟨[], piece, cs, rfl, hpiece⟩
      · obtain ⟨pre, piece', post, rfl, hpiece'⟩ := ih ht
        refine ⟨piece ++ pre, piece', post, (List.append_assoc _ _ _).symm, ?_⟩
        rwa [Text.byteLength_append, ← Nat.add_assoc]

/-- The first token begins at the offset, also when that is the one at the end. -/
theorem head_start (h : Cut offset cs tokens) (last : Token)
    (hlast : last.span.start = offset + Text.byteLength cs) :
    ∀ t ∈ (tokens ++ [last]).head?, t.span.start = offset := by
  intro t ht
  cases h with
  | nil =>
      obtain rfl : last = t := by simpa using ht
      exact hlast
  | @cons _ _ _ t' _ hpiece _ =>
      obtain rfl : t' = t := by simpa using ht
      rw [hpiece.span_eq]

/-- Every token ends where the next begins. -/
theorem isChain (h : Cut offset cs tokens) (last : Token)
    (hlast : last.span.start = offset + Text.byteLength cs) :
    (tokens ++ [last]).IsChain fun a b => a.span.stop = b.span.start := by
  induction h with
  | nil => simp
  | @cons offset piece cs t tokens hpiece rest ih =>
      have hlast' : last.span.start =
          offset + Text.byteLength piece + Text.byteLength cs := by
        rw [hlast, Text.byteLength_append, Nat.add_assoc]
      have hhead := head_start rest last hlast'
      rw [List.cons_append]
      refine List.isChain_cons.mpr ⟨fun b hb => ?_, ih hlast'⟩
      rw [hhead b hb, hpiece.span_eq]

/-- No token begins before the end of one that stands in front of it. -/
theorem pairwise_apart (h : Cut offset cs tokens) :
    tokens.Pairwise fun a b => a.span.stop ≤ b.span.start := by
  induction h with
  | nil => exact .nil
  | cons hpiece rest ih =>
      refine List.pairwise_cons.mpr ⟨fun b hb => ?_, ih⟩
      obtain ⟨pre, piece, post, -, hpiece'⟩ := rest.of_mem hb
      rw [hpiece.span_eq, hpiece'.span_eq]
      exact Nat.le_add_right _ _

/-- No token ends before it begins. -/
theorem start_le_stop (h : Cut offset cs tokens) {t : Token} (ht : t ∈ tokens) :
    t.span.start ≤ t.span.stop := by
  obtain ⟨pre, piece, post, -, hpiece⟩ := h.of_mem ht
  rw [hpiece.span_eq]
  exact Nat.le_add_right _ _

/-- No token ends before one that stands in front of it. -/
theorem pairwise_stop (h : Cut offset cs tokens) :
    tokens.Pairwise fun a b => a.span.stop ≤ b.span.stop :=
  h.pairwise_apart.imp_of_mem fun _ hb hab => Nat.le_trans hab (h.start_le_stop hb)

/-- The text of the first tokens and that of the others. -/
theorem split {u v : List Token} (h : Cut offset cs (u ++ v)) :
    ∃ cs₁ cs₂, cs = cs₁ ++ cs₂ ∧ Cut offset cs₁ u ∧
      Cut (offset + Text.byteLength cs₁) cs₂ v := by
  induction u generalizing offset cs with
  | nil => exact ⟨[], cs, rfl, .nil, h⟩
  | cons t u ih =>
      cases h with
      | @cons _ piece cs _ _ hpiece rest =>
          obtain ⟨cs₁, cs₂, rfl, h₁, h₂⟩ := ih rest
          refine ⟨piece ++ cs₁, cs₂, (List.append_assoc _ _ _).symm, .cons hpiece h₁, ?_⟩
          rwa [Text.byteLength_append, ← Nat.add_assoc]

/-- What stands between the ends of two tokens begins with the one and ends with the other. -/
theorem slice_eq {text : String} {t t' : Token} {u v w : List Token}
    (h : Cut 0 text.toList (u ++ t :: (v ++ t' :: w))) :
    ∃ between, (⟨t.span.start, t'.span.stop⟩ : Span).slice text = t.text ++ between ++ t'.text := by
  obtain ⟨pre, cs₁, htext, -, h₁⟩ := h.split
  cases h₁ with
  | @cons _ piece cs₂ _ _ hpiece h₂ =>
      obtain ⟨mid, cs₃, rfl, -, h₃⟩ := h₂.split
      cases h₃ with
      | @cons _ piece' post _ _ hpiece' _ =>
          refine ⟨String.ofList mid, ?_⟩
          have htext' : text.toList = pre ++ ((piece ++ mid ++ piece') ++ post) := by
            rw [htext]
            simp only [List.append_assoc]
          have hstop : 0 + Text.byteLength pre + Text.byteLength piece + Text.byteLength mid +
              Text.byteLength piece' =
              Text.byteLength pre + Text.byteLength (piece ++ mid ++ piece') := by
            rw [Text.byteLength_append, Text.byteLength_append]
            omega
          rw [hpiece.span_eq, hpiece'.span_eq, hpiece.text_eq, hpiece'.text_eq,
            ← String.ofList_append, ← String.ofList_append, Span.slice, hstop, Nat.zero_add]
          exact Text.slice_eq htext'

end Cut

/-! ### The tokens of a text -/

/-- The tokens are the text, cut into pieces, with an empty token at its end. -/
structure Tiles (text : String) (tokens : List Token) : Prop where
  /-- The texts of the tokens, one behind the other, are the text. -/
  texts : String.join (tokens.map Token.text) = text
  /-- The first token begins with the text. -/
  start : ∀ t ∈ tokens.head?, t.span.start = 0
  /-- Every token ends where the next begins. -/
  contiguous : tokens.IsChain fun a b => a.span.stop = b.span.start
  /-- The text of a token is what its span covers. -/
  slices : ∀ t ∈ tokens, t.span.slice text = t.text
  /-- Both ends of a token lie between characters. -/
  boundaries : ∀ t ∈ tokens, (⟨t.span.start⟩ : String.Pos.Raw).IsValid text ∧
    (⟨t.span.stop⟩ : String.Pos.Raw).IsValid text
  /-- The last token, and no other, ends the text, and it alone is empty. -/
  ending : ∃ pieces last, tokens = pieces ++ [last] ∧
    last.kind = .eof ∧ last.text = "" ∧ last.span = .point text.utf8ByteSize ∧
    ∀ t ∈ pieces, t.kind ≠ .eof ∧ t.text ≠ "" ∧ t.span.start < t.span.stop
  /-- Blanks and comments are hidden, and nothing else is. -/
  channels : ∀ t ∈ tokens, t.channel = .hidden ↔
    t.kind = .whitespace ∨ t.kind = .lineComment ∨ t.kind = .blockComment

/-- Hidden are the blanks and the two sorts of comments. -/
theorem Kind.isTrivia_iff (kind : Kind) :
    kind.isTrivia = true ↔ kind = .whitespace ∨ kind = .lineComment ∨ kind = .blockComment := by
  cases kind <;> simp [isTrivia]

/-- A text that is not empty has a byte. -/
theorem byteLength_pos {cs : List Char} (h : cs ≠ []) : 0 < Text.byteLength cs := by
  cases cs with
  | nil => exact absurd rfl h
  | cons c cs =>
      have hpos := c.utf8Size_pos
      rw [Text.byteLength_cons]
      omega

/-- A token that ends a text that was cut. -/
theorem tiles_of_cut {text : String} {pieces : List Token} {last : Token}
    (hcut : Cut 0 text.toList pieces) (hkind : last.kind = .eof) (htext : last.text = "")
    (hspan : last.span = .point (Text.byteLength text.toList)) (hchannel : last.channel = .default) :
    Tiles text (pieces ++ [last]) := by
  have hstart : last.span.start = 0 + Text.byteLength text.toList := by
    rw [hspan, Nat.zero_add]
    rfl
  have hend : text.toList = text.toList ++ ([] ++ []) := by simp
  refine ⟨?_, hcut.head_start last hstart, hcut.isChain last hstart, ?_, ?_, ?_, ?_⟩
  · rw [List.map_append, String.join_append, hcut.join_eq, List.map_singleton, htext]
    simp
  · -- A piece is the slice at its place, the end of input the empty one behind all of them.
    intro t ht
    rcases List.mem_append.mp ht with ht | ht
    · obtain ⟨pre, piece, post, htoList, hpiece⟩ := hcut.of_mem ht
      rw [hpiece.text_eq, Span.slice, hpiece.span_eq, Nat.zero_add]
      exact Text.slice_eq htoList
    · obtain rfl := List.mem_singleton.mp ht
      have hslice := Text.slice_eq hend
      rw [Text.byteLength_nil, Nat.add_zero] at hslice
      rw [htext, Span.slice, hspan]
      exact hslice
  · -- Offsets are counted over whole characters, so they fall between two of them.
    intro t ht
    rcases List.mem_append.mp ht with ht | ht
    · obtain ⟨pre, piece, post, htoList, hpiece⟩ := hcut.of_mem ht
      have hbehind : text.toList = (pre ++ piece) ++ post := by rw [htoList, List.append_assoc]
      rw [hpiece.span_eq, Nat.zero_add, ← Text.byteLength_append]
      exact ⟨Text.isValid_byteLength htoList, Text.isValid_byteLength hbehind⟩
    · obtain rfl := List.mem_singleton.mp ht
      rw [hspan]
      exact ⟨Text.isValid_byteLength hend, Text.isValid_byteLength hend⟩
  · -- The end of input is the only token without text.
    refine ⟨pieces, last, rfl, hkind, htext, ?_, fun t ht => ?_⟩
    · rw [hspan, ← Text.utf8ByteSize_ofList, String.ofList_toList]
    · obtain ⟨pre, piece, post, -, hpiece⟩ := hcut.of_mem ht
      have hpos := byteLength_pos hpiece.ne_nil
      refine ⟨hpiece.kind_ne, fun hempty => hpiece.ne_nil ?_, ?_⟩
      · rw [hpiece.text_eq] at hempty
        simpa using congrArg String.toList hempty
      · rw [hpiece.span_eq]
        exact Nat.lt_add_of_pos_right hpos
  · -- Hidden are the pieces of trivia, and the end of input is none.
    intro t ht
    rcases List.mem_append.mp ht with ht | ht
    · obtain ⟨pre, piece, post, -, hpiece⟩ := hcut.of_mem ht
      rw [hpiece.hidden_iff, Kind.isTrivia_iff]
    · obtain rfl := List.mem_singleton.mp ht
      simp [hchannel, hkind]

/-- The tokens that a lexer reads from the start of a text to its end, with one at the end. -/
theorem tiles_of_reads {preview : Bool} {text : String} {tokens : List Token}
    {diagnostics : List Diagnostic} {l' : Lexer}
    (h : (Lexer.ofText preview text).Reads tokens diagnostics l') :
    Tiles text (tokens ++ [l'.endToken]) := by
  obtain ⟨hcut, hoffset⟩ := cut_of_reads h
  have hzero : (Lexer.ofText preview text).cursor.position.offset = 0 := rfl
  have hrest : (Lexer.ofText preview text).cursor.rest = text.toList := rfl
  rw [hzero, hrest] at hcut hoffset
  rw [Nat.zero_add] at hoffset
  refine tiles_of_cut hcut rfl rfl ?_ rfl
  rw [← hoffset]
  rfl

/-- In a text of fewer than 2 ^ 32 bytes the span of a token fits into 32 bits. -/
theorem Tiles.span_truncated {text : String} {tokens : List Token} (h : Tiles text tokens)
    (hshort : text.utf8ByteSize < 2 ^ 32) {t : Token} (ht : t ∈ tokens) :
    t.span.truncated = t.span :=
  let ⟨hstart, hstop⟩ := h.boundaries t ht
  Span.truncated_eq_self (Nat.lt_of_le_of_lt hstart.le_rawEndPos hshort)
    (Nat.lt_of_le_of_lt hstop.le_rawEndPos hshort)

end Token

namespace Lexer

variable {preview : Bool} {text : String} {tokens : List Token} {diagnostics : List Diagnostic}
  {l l' : Lexer}

/-- Every diagnostic of the lexer has the span of a token. -/
theorem span_mem_of_reads (h : l.Reads tokens diagnostics l') :
    ∀ d ∈ diagnostics, d.span ∈ tokens.map Token.span := by
  induction h with
  | done => simp
  | @step l l' tokens diagnostics hne rest ih =>
      intro d hd
      rw [List.map_cons]
      rcases List.mem_append.mp hd with hd | hd
      · obtain ⟨cause, -, rfl⟩ := Option.map_eq_some_iff.mp (Option.mem_toList.mp hd)
        exact List.mem_cons_self
      · exact List.mem_cons_of_mem _ (ih d hd)

/-- In a text of fewer than 2 ^ 32 bytes nothing is lost in 32 bits. -/
theorem truncated_lexing (h : (ofText preview text).Reads tokens diagnostics l')
    (hshort : text.utf8ByteSize < 2 ^ 32) :
    (l'.lexing tokens diagnostics).truncated = l'.lexing tokens diagnostics := by
  have htiles := Token.tiles_of_reads h
  have htoken : ∀ t ∈ tokens ++ [l'.endToken], t.truncated = t := fun t ht => by
    rw [Token.truncated, htiles.span_truncated hshort ht]
  have hdiagnostic : ∀ d ∈ diagnostics, d.truncated = d := fun d hd => by
    obtain ⟨t, ht, hspan⟩ := List.mem_map.mp (span_mem_of_reads h d hd)
    rw [Diagnostic.truncated, ← hspan,
      htiles.span_truncated hshort (List.mem_append_left _ ht), hspan]
  rw [Lexing.truncated, lexing, Lexing.mk.injEq]
  refine ⟨?_, htoken _ (List.mem_append_right _ (List.mem_singleton_self _)), ?_, rfl⟩
  · exact (List.map_congr_left fun t ht => htoken t (List.mem_append_left _ ht)).trans
      (List.map_id _)
  · exact (List.map_congr_left hdiagnostic).trans (List.map_id _)

end Lexer

namespace Token

/-- The tokens of a text of fewer than 2 ^ 32 bytes tile it, with or without the preview verbs. -/
theorem tokenize_tiles (text : String) (options : Options)
    (hshort : text.utf8ByteSize < 2 ^ 32) : Tiles text (tokenize text options) := by
  obtain ⟨tokens, diagnostics, l', hreads, hlex⟩ :=
    Lexer.exists_lex_eq options.devFeatures text
  rw [tokenize, hlex, Lexer.truncated_lexing hreads hshort]
  exact tiles_of_reads hreads

/-- A letter of two bytes that begins no token, a comment with the line feed behind it, and a string
that is open at the end. -/
theorem tokenize_tiles_openString :
    "ROW é // ä\n\"b".utf8ByteSize < 2 ^ 32 ∧
      Tiles "ROW é // ä\n\"b" (tokenize "ROW é // ä\n\"b" .default) :=
  ⟨by decide, tokenize_tiles _ _ (by decide)⟩

end Token

end PipeQuery
