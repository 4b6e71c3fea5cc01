import PipeQuery.Proofs.Contained

/-!
# `PipeQuery.Proofs.Faithful`: spans and leaves of a query are those of the text

Whatever is wrong with a text, every node of its query has a place there. `Node.Faithful` says what
that means: the span fits the text and the tokens, the parts of the node are in it and in the order
of the text, and a leaf has stored the text that stands there. `parse_faithful` says so of all
nodes, for texts of fewer than 2 ^ 32 bytes: in these the offsets of 32 bits are the places.
-/

set_option autoImplicit false

namespace PipeQuery

open PipeQuery.Parser

/-! ### Places -/

/-- The span is in the text, with both ends between characters. -/
structure Span.Fits (span : Span) (text : String) : Prop where
  forward : span.start ≤ span.stop
  inside : span.stop ≤ text.utf8ByteSize
  start_isValid : (⟨span.start⟩ : String.Pos.Raw).IsValid text
  stop_isValid : (⟨span.stop⟩ : String.Pos.Raw).IsValid text

/-- The span begins with a token and ends with one, and neither is hidden. -/
structure Span.Joins (span : Span) (tokens : List Token) : Prop where
  start : ∃ t ∈ tokens, t.channel = .default ∧ t.kind ≠ .eof ∧ t.span.start = span.start
  stop : ∃ t ∈ tokens, t.channel = .default ∧ t.kind ≠ .eof ∧ t.span.stop = span.stop

/-- A leaf has the text of its place: as it stands there, or decoded if it was quoted. -/
def Node.KeepsText (text : String) : Node → Prop
  | .identifier ⟨name, quoted, span⟩ =>
    name = if quoted then Text.Backquoted.decode (span.slice text) else span.slice text
  | .source ⟨name, quoted, span⟩ =>
    name = if quoted then Text.Quoted.decode (span.slice text) else span.slice text
  | .namePattern p => p.raw = p.span.slice text
  | .expr (.literal (.decimal raw _) span) | .expr (.literal (.string raw _) span) =>
    raw = span.slice text
  | .expr (.literal (.integer raw value) span) =>
    raw = span.slice text ∧ value = Text.decimalValue raw.toList ∧ value < 2 ^ 64
  | .expr (.literal (.quantity raw value unit) span) =>
    (∃ between, span.slice text = raw ++ between ++ unit) ∧
      value = Text.decimalValue raw.toList ∧ value < 2 ^ 64
  | _ => True

/-- The node has its place in the text and among the tokens, and the text of that place. -/
structure Node.Faithful (text : String) (tokens : List Token) (node : Node) : Prop where
  fits : node.span.Fits text
  /-- Only a pipeline without commands has a place between tokens. -/
  joins : (∀ span, node ≠ .query [] span) → node.span.Joins tokens
  /-- The parts of a node are in it. -/
  inside : ∀ child ∈ node.children,
    node.span.start ≤ child.span.start ∧ child.span.stop ≤ node.span.stop
  /-- Every part ends before the next ones begin. -/
  ordered : node.children.Pairwise fun a b => a.span.stop ≤ b.span.start
  keepsText : node.KeepsText text

/-! ### Nodes among their lexemes -/

namespace Parser

variable {w : List Lexeme} {node child : Node} {span : Span}

/-- A span covers the lexemes it is made of. -/
theorem Spans.covers (h : Spans w span) (hw : Placed w) {l : Lexeme} (hl : l ∈ w) :
    span.start ≤ l.token.span.start ∧ l.token.span.stop ≤ span.stop := by
  obtain ⟨hfirst, hlast⟩ := h
  constructor
  · obtain ⟨rest, rfl⟩ := List.head?_eq_some_iff.mp hfirst
    rcases List.mem_cons.mp hl with rfl | hl
    · exact Nat.le_refl _
    · exact Nat.le_trans (hw.forward _ List.mem_cons_self) (List.rel_of_pairwise_cons hw.apart hl)
  · obtain ⟨init, rfl⟩ := List.getLast?_eq_some_iff.mp hlast
    rcases List.mem_append.mp hl with hl | hl
    · have hapart := (placed_append.mp hw).2.2 l hl _ (List.mem_singleton_self _)
      exact Nat.le_trans hapart (hw.forward _ (List.mem_append_right _ (List.mem_singleton_self _)))
    · obtain rfl := List.mem_singleton.mp hl
      exact Nat.le_refl _

/-- A node is between the first and the last of its lexemes. -/
theorem Made.between (h : Made w node) (hw : Placed w) :
    node.span.start ≤ node.span.stop ∧
      (∃ l ∈ w, l.token.span.start ≤ node.span.start) ∧
      ∃ l ∈ w, node.span.stop ≤ l.token.span.stop := by
  cases h with
  | mk hspan =>
      refine ⟨hspan.start_le_stop hw, ?_⟩
      generalize node.span = span at hspan
      obtain ⟨hfirst, hlast⟩ := hspan
      exact ⟨⟨_, List.mem_of_head? hfirst, Nat.le_refl _⟩,
        ⟨_, List.mem_of_getLast? hlast, Nat.le_refl _⟩⟩
  | @hollow l =>
      exact ⟨Nat.le_refl _, ⟨l, List.mem_cons_self, hw.forward l List.mem_cons_self⟩,
        ⟨l, List.mem_cons_self, Nat.le_refl _⟩⟩

/-- What is made of some of the lexemes is inside what is made of all of them. -/
theorem Made.inside (h : Made w node) (hw : Placed w) (hchild : child ∈ node.children) :
    node.span.start ≤ child.span.start ∧ child.span.stop ≤ node.span.stop := by
  obtain ⟨w', hwithin, hmade⟩ := h.scattered.exists_of_mem hchild
  obtain ⟨-, ⟨l, hl, hstart⟩, ⟨l', hl', hstop⟩⟩ := hmade.between (hw.stretch hwithin)
  cases h with
  | mk hspan =>
      exact ⟨Nat.le_trans (hspan.covers hw (hwithin.subset hl)).1 hstart,
        Nat.le_trans hstop (hspan.covers hw (hwithin.subset hl')).2⟩
  | hollow => cases hchild

/-- Nodes of stretches one behind the other are one behind the other. -/
theorem Scattered.ordered {nodes : List Node} (h : Scattered Made w nodes) (hw : Placed w) :
    nodes.Pairwise fun a b => a.span.stop ≤ b.span.start := by
  induction h with
  | nil => exact .nil
  | @cons u w w' a nodes h rest ih =>
      obtain ⟨ha, hrest, hapart⟩ := placed_append.mp hw.right
      refine List.pairwise_cons.mpr ⟨fun b hb => ?_, ih hrest⟩
      obtain ⟨w'', hwithin, hmade⟩ := rest.exists_of_mem hb
      obtain ⟨-, -, ⟨l, hl, hstop⟩⟩ := h.between ha
      obtain ⟨-, ⟨l', hl', hstart⟩, -⟩ := hmade.between (hrest.stretch hwithin)
      exact Nat.le_trans hstop (Nat.le_trans (hapart l hl l' (hwithin.subset hl')) hstart)

/-- What one lexeme spans is its token. -/
theorem Spans.eq_of_singleton {l : Lexeme} (h : Spans [l] span) : span = l.token.span := by
  obtain ⟨hfirst, hlast⟩ := h
  cases hfirst
  cases hlast
  rfl

/-- What two lexemes span is from the start of the first to the end of the second. -/
theorem Spans.eq_of_pair {l l' : Lexeme} (h : Spans [l, l'] span) :
    span = ⟨l.token.span.start, l'.token.span.stop⟩ := by
  obtain ⟨hfirst, hlast⟩ := h
  cases hfirst
  cases hlast
  rfl

end Parser

/-! ### Nodes in the text -/

section

variable {text : String} {tokens : List Token} {last : Token} {w : List Lexeme} {node : Node}
  {span : Span}

/-- Two lexemes in a row stand at the ends of what is between them in the text. -/
theorem slice_of_pair {l l' : Lexeme} (hcut : Token.Cut 0 text.toList tokens)
    (hw : [l, l'] <:+: Lexeme.ofTokens false tokens) :
    ∃ between, (⟨l.token.span.start, l'.token.span.stop⟩ : Span).slice text =
      l.token.text ++ between ++ l'.token.text := by
  obtain ⟨before, rest, v, rfl, hrest⟩ := Lexeme.exists_of_among hw
  obtain ⟨hidden, rest, rfl, -, -⟩ := Lexeme.exists_of_cons hrest
  exact hcut.slice_eq

/-- What is written of lexemes has their text. -/
theorem Node.Written.keepsText (h : node.Written w) (hspan : Spans w node.span)
    (hcut : Token.Cut 0 text.toList tokens) (htiles : Token.Tiles text (tokens ++ [last]))
    (hw : w <:+: Lexeme.ofTokens false tokens) : node.KeepsText text := by
  have hslice : ∀ {l : Lexeme}, l ∈ w → l.token.span.slice text = l.token.text := fun hl =>
    htiles.slices _ (List.mem_append_left _ (Lexeme.mem_ofTokens_token (hw.subset hl)).1)
  cases node with
  | identifier id =>
      obtain ⟨l, rfl, hid⟩ := h
      have htext := hslice (List.mem_singleton_self l)
      cases hid with
      | bare => exact htext.symm
      | quoted => exact congrArg Text.Backquoted.decode htext.symm
  | source source =>
      obtain ⟨l, rfl, hsource⟩ := h
      have htext := hslice (List.mem_singleton_self l)
      cases hsource with
      | bare => exact htext.symm
      | quoted => exact congrArg Text.Quoted.decode htext.symm
  | namePattern p =>
      cases h with
      | @pattern l => exact (hslice (List.mem_singleton_self l)).symm
  | expr e =>
      cases e with
      | literal constant span =>
          -- Every constant but a quantity is a single lexeme, if it has a text.
          have hone : ∀ {l : Lexeme}, w = [l] → l.token.text = span.slice text := by
            rintro l rfl
            rw [show span = l.token.span from hspan.eq_of_singleton]
            exact (hslice (List.mem_singleton_self l)).symm
          cases constant with
          | integer raw value =>
              obtain ⟨l, hl, rfl, hvalue, hfits⟩ := h
              exact ⟨hone hl, hvalue, hfits⟩
          | decimal raw value | string raw value =>
              obtain ⟨l, hl, rfl⟩ := h
              exact hone hl
          | quantity raw value unit =>
              obtain ⟨l, l', rfl, rfl, rfl, hvalue, hfits⟩ := h
              refine ⟨?_, hvalue, hfits⟩
              rw [show span = _ from hspan.eq_of_pair]
              exact slice_of_pair hcut hw
          | null | boolean | star => trivial
      | _ => trivial
  | _ => trivial

/-- The ends of a node are ends of tokens that are not hidden, unless it is a pipeline without
commands. -/
theorem Parser.Spans.joins (h : Spans w span) (hcut : Token.Cut 0 text.toList tokens)
    (hw : w <:+: Lexeme.ofTokens false tokens) : span.Joins (tokens ++ [last]) := by
  have htoken : ∀ {l : Lexeme}, l ∈ w →
      l.token ∈ tokens ++ [last] ∧ l.token.channel = .default ∧ l.token.kind ≠ .eof := by
    intro l hl
    obtain ⟨hmem, hchannel⟩ := Lexeme.mem_ofTokens_token (hw.subset hl)
    obtain ⟨_, _, _, -, hpiece⟩ := hcut.of_mem hmem
    exact ⟨List.mem_append_left _ hmem, hchannel, hpiece.kind_ne⟩
  obtain ⟨hfirst, hlast⟩ := h
  obtain ⟨hmem, hchannel, hkind⟩ := htoken (List.mem_of_head? hfirst)
  obtain ⟨hmem', hchannel', hkind'⟩ := htoken (List.mem_of_getLast? hlast)
  exact ⟨⟨_, hmem, hchannel, hkind, rfl⟩, ⟨_, hmem', hchannel', hkind', rfl⟩⟩

/-- A node that was made, hollow queries apart, goes from the start of a token to the end of one. -/
theorem Parser.Made.joins (h : Made w node) (hcut : Token.Cut 0 text.toList tokens)
    (hw : w <:+: Lexeme.ofTokens false tokens) (hne : ∀ span, node ≠ .query [] span) :
    node.span.Joins (tokens ++ [last]) := by
  cases h with
  | mk hspan => exact hspan.joins hcut hw
  | hollow => exact absurd rfl (hne _)

/-- Between the characters of a text there is a place for both ends of a node. -/
theorem Parser.Made.fits (h : Made w node) (hcut : Token.Cut 0 text.toList tokens)
    (htiles : Token.Tiles text (tokens ++ [last])) (hw : w <:+: Lexeme.ofTokens false tokens) :
    node.span.Fits text := by
  have hvalid : ∀ {l : Lexeme}, l ∈ w → (⟨l.token.span.start⟩ : String.Pos.Raw).IsValid text ∧
      (⟨l.token.span.stop⟩ : String.Pos.Raw).IsValid text := fun hl =>
    htiles.boundaries _ (List.mem_append_left _ (Lexeme.mem_ofTokens_token (hw.subset hl)).1)
  have hforward := (h.between ((Lexeme.placed_ofTokens hcut false).stretch hw)).1
  have hends : (⟨node.span.start⟩ : String.Pos.Raw).IsValid text ∧
      (⟨node.span.stop⟩ : String.Pos.Raw).IsValid text := by
    cases h with
    | mk hspan =>
        generalize node.span = span at hspan
        obtain ⟨hfirst, hlast⟩ := hspan
        exact ⟨(hvalid (List.mem_of_head? hfirst)).1, (hvalid (List.mem_of_getLast? hlast)).2⟩
    | hollow =>
        have hstop := (hvalid List.mem_cons_self).2
        exact ⟨hstop, hstop⟩
  exact ⟨hforward, hends.2.le_rawEndPos, hends.1, hends.2⟩

/-- What is made of lexemes of a text is faithful to it. -/
theorem Parser.Made.faithful (h : Made w node) (hcut : Token.Cut 0 text.toList tokens)
    (htiles : Token.Tiles text (tokens ++ [last])) (hw : w <:+: Lexeme.ofTokens false tokens) :
    node.Faithful text (tokens ++ [last]) where
  fits := h.fits hcut htiles hw
  joins := h.joins hcut hw
  inside _ hchild := h.inside ((Lexeme.placed_ofTokens hcut false).stretch hw) hchild
  ordered := h.scattered.ordered ((Lexeme.placed_ofTokens hcut false).stretch hw)
  keepsText := by
    cases h with
    | mk hspan hwritten => exact hwritten.keepsText hspan hcut htiles hw
    | hollow => trivial

/-- An empty query stands at the start of the text. -/
theorem Node.Faithful.empty (text : String) (tokens : List Token) :
    Node.Faithful text tokens (.query [] (.point 0)) where
  fits := ⟨Nat.le_refl _, Nat.zero_le _, String.Pos.Raw.isValid_zero, String.Pos.Raw.isValid_zero⟩
  joins hne := absurd rfl (hne _)
  inside _ hchild := absurd hchild List.not_mem_nil
  ordered := .nil
  keepsText := trivial

end

/-- Whatever is wrong with a text of fewer than 2 ^ 32 bytes, every node of its query is faithful to
it. -/
theorem parse_faithful (text : String) (options : Options) (hshort : text.utf8ByteSize < 2 ^ 32) :
    ∀ node, (parse text options).query.node.Contains node →
      node.Faithful text (parse text options).tokens := by
  intro node hnode
  obtain ⟨tokens, diagnostics, l', q, s', hreads, hquery, hparse⟩ :=
    exists_reads_of_short text options hshort
  rw [hparse] at hnode ⊢
  rcases exists_made_of_contains hreads hquery hnode with rfl | ⟨w, hw, h⟩
  · exact .empty text _
  · exact h.faithful (Token.cut_of_reads hreads).1 (Token.tiles_of_reads hreads) hw

/-- A text with names and literals of all sorts, whose last command is unfinished. -/
theorem parse_faithful_unfinished :
    let text := "EXPLAIN [FROM \"i\"] | ROW `a` = 12 d, b = \"s\" | KEEP b* | DROP"
    (parse text .default).diagnostics ≠ [] ∧
      (parse text .default).query.commands.map Command.render =
        ["EXPLAIN [ FROM \"i\" ]", "ROW `a` = 12 d, b = \"s\"", "KEEP b*"] ∧
      ∀ node, (parse text .default).query.node.Contains node →
        node.Faithful text (parse text .default).tokens := by
  intro text
  have hread : (parse text .default).diagnostics ≠ [] ∧
      (parse text .default).query.commands.map Command.render =
        ["EXPLAIN [ FROM \"i\" ]", "ROW `a` = 12 d, b = \"s\"", "KEEP b*"] := by
    decide +kernel
  exact ⟨hread.1, hread.2, parse_faithful text .default (by decide)⟩

end PipeQuery
