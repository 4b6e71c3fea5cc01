import PipeQuery.Proofs.Contained
import PipeQuery.Proofs.Token.Lexed
import PipeQuery.Proofs.Unbounded

/-!
# `PipeQuery.Proofs.WellFormed`: what every query keeps, and what an accepted one keeps

The types of a query allow more than the parser makes. Some promises hold of every query: where a
star may be, how long lists are, and what is a string (`Node.KeepsStar`, `Node.HasShape`). They come
with the lexemes that a node is made of. Others are only reported, and the command is in the query
all the same. `Node.IsChecked` lists them; they hold where no diagnostic is left, since then every
command is in the grammar. `parse_wellFormed` has both.

No check asks where a node stands, so both hold of texts of any length, of more than 2 ^ 32 bytes
too (`PipeQuery.Proofs.Unbounded`).
-/

set_option autoImplicit false

namespace PipeQuery

open PipeQuery.Parser

/-! ### What is checked -/

/-- A cluster, a colon and an index are three tokens in a row, with nothing hidden among them. -/
def IndexPattern.IsGlued (tokens : List Token) (p : IndexPattern) : Prop :=
  ∀ cluster, p.cluster = some cluster → ∃ t colon t', [t, colon, t'] <:+: tokens ∧
    colon.kind = .colon ∧ t.span = cluster.span ∧ t'.span = p.index.span

/-- A pattern is the star just if it is written so. -/
theorem FieldPattern.isStar_iff (p : FieldPattern) : p.isStar = true ↔ p.render = "*" := by
  obtain ⟨parts, span⟩ := p
  -- What is written with some other character is not the star.
  have hother : ∀ {text : String} {c : Char}, c ∈ text.toList → c ≠ '*' → ¬ text = "*" := by
    rintro _ c hc hne rfl
    exact hne (by simpa using hc)
  match parts with
  | [] => exact iff_of_false Bool.false_ne_true (by decide : "" ≠ "*")
  | [.pattern p] => exact decide_eq_true_iff
  | [.parameter param _] =>
      have hmark : '?' ∈ param.render.toList := by cases param <;> simp [Parameter.render]
      exact iff_of_false Bool.false_ne_true (hother hmark (by decide))
  | part :: next :: rest =>
      have hdot : '.' ∈ (render ⟨part :: next :: rest, span⟩).toList := by
        simp [render, Text.joined]
      refine iff_of_false ?_ (hother hdot (by decide))
      cases part <;> exact Bool.false_ne_true

/-- What a command is checked for as a whole. The count of a `LIMIT` is in the digits of the token
behind its verb. -/
def Command.IsChecked (tokens : List Token) : Command → Prop
  | .stats aggregations groupings _ => aggregations ≠ [] ∨ groupings ≠ []
  | .inlineStats aggregations _ _ => aggregations ≠ []
  | .drop fields _ => ∀ field ∈ fields, field.isStar = false
  | .enrich settings _ _ _ _ => settings.length ≤ 1
  | .explain commands _ _ => commands ≠ []
  | .limit count raw span =>
    count = Text.decimalValue raw.toList ∧ (∀ c ∈ raw.toList, c.isDigit = true) ∧
      ∃ verb t, [verb, t] <:+: tokens.filter (fun t => !t.isHidden) ∧
        verb.kind = .command .limit ∧ t.kind = .integer ∧ t.text = raw ∧
        span = ⟨verb.span.start, max t.span.stop verb.span.stop⟩
  | _ => True

/-- What a node is checked for. -/
def Node.IsChecked (tokens : List Token) : Node → Prop
  | .command c => c.IsChecked tokens
  | .indexPattern p => p.IsGlued tokens
  | .renameClause c => c.oldName.hasWildcard = false ∧ c.newName.hasWildcard = false
  | .enrichField f =>
    f.field.hasWildcard = false ∧ ∀ newName, f.newName = some newName → newName.hasWildcard = false
  | .dissectOption o =>
    Text.sameWord o.name.name "append_separator" = true ∧ o.value.isString = true
  | .setting s =>
    Text.sameWord s.name "ccq.mode" = true ∧ (EnrichMode.ofName? s.value).isSome = true
  | .policy p => p.mode = none → ':' ∉ p.name.toList
  | _ => True

/-! ### Nodes in the grammar -/

/-- The commands of the node and those parts of them that are checked are in the grammar. -/
def Node.InGrammar (lexemes : List Lexeme) : Node → Prop
  | .query commands _ => ∀ c ∈ commands, ∃ w, w <:+: lexemes ∧ IsCommand w c
  | .command c => ∃ w, w <:+: lexemes ∧ IsCommand w c
  | .indexPattern p => ∃ w, w <:+: lexemes ∧ IsIndexPattern w p
  | .renameClause c => ∃ w, IsRenameClause w c
  | .enrichField f => ∃ w, IsEnrichField w f
  | .dissectOption o => ∃ w, IsDissectOption w o
  | .setting s => ∃ w, IsSetting w s
  | .policy p => ∃ l, IsPolicy l p
  | _ => True

/-- A name, a part of one or an expression. -/
def Node.isBasic : Node → Bool
  | .source _ | .fieldName _ | .fieldPattern _ | .namePattern _ | .identifier _ | .parameter .. |
    .expr _ => true
  | _ => false

/-- A part of a name is a basic node. -/
theorem NamePart.isBasic_node (part : NamePart) : part.node.isBasic = true := by
  cases part <;> rfl

/-- So is a part of a pattern. -/
theorem PatternPart.isBasic_node (part : PatternPart) : part.node.isBasic = true := by
  cases part <;> rfl

section

variable {lexemes w : List Lexeme} {node child : Node}

/-- A basic node says nothing of commands, so it is in the grammar. -/
theorem Node.inGrammar_of_isBasic (h : node.isBasic = true) : node.InGrammar lexemes := by
  cases node <;> trivial

/-- What an expression holds is basic. -/
theorem Expr.isBasic_of_mem_children {e : Expr} (h : child ∈ e.children) :
    child.isBasic = true := by
  cases e with
  | call name args span =>
      rcases List.mem_cons.mp h with rfl | h
      · exact name.isBasic_node
      · obtain ⟨e, -, rfl⟩ := List.mem_map.mp h
        rfl
  | _ => exact List.all_eq_true.mp (by simp [children, Node.isBasic]) child h

/-- Only commands and pipelines have parts that are not basic. -/
theorem Node.isBasic_of_mem_children (hcommand : ∀ c, node ≠ .command c)
    (hquery : ∀ commands span, node ≠ .query commands span) (h : child ∈ node.children) :
    child.isBasic = true := by
  cases node with
  | query commands span => exact absurd rfl (hquery commands span)
  | command c => exact absurd rfl (hcommand c)
  | renameClause c =>
      obtain ⟨oldName, newName, form, span⟩ := c
      cases form <;> exact List.all_eq_true.mp (by rfl) child h
  | fieldName name =>
      obtain ⟨part, -, rfl⟩ := List.mem_map.mp h
      exact part.isBasic_node
  | fieldPattern p =>
      obtain ⟨part, -, rfl⟩ := List.mem_map.mp h
      exact part.isBasic_node
  | expr e => exact e.isBasic_of_mem_children h
  | _ => exact List.all_eq_true.mp (by simp [children, isBasic]) child h

/-- Nodes that are made of items are in the grammar if the items are. -/
theorem Node.inGrammar_of_mem_map {α : Type} {f : α → Node} {as : List α}
    (hchild : child ∈ as.map f) (h : ∀ a ∈ as, (f a).InGrammar lexemes) :
    child.InGrammar lexemes := by
  obtain ⟨a, ha, rfl⟩ := List.mem_map.mp hchild
  exact h a ha

/-- What stands behind a verb has its parts from the grammar. -/
theorem Parser.IsBody.child_inGrammar {item : List Lexeme → Command → Prop} {verb : Verb}
    {make : Span → Command} (h : IsBody item verb w make)
    (hitem : ∀ w c, item w c → IsCommand w c) (hw : w <:+: lexemes) {span : Span}
    (hchild : child ∈ (make span).children) : child.InGrammar lexemes := by
  -- Index patterns are found again among the lexemes of the text.
  have hsources : ∀ {v sources}, v <:+: w → SepBy .comma IsIndexPattern v sources →
      child ∈ sources.map Node.indexPattern → child.InGrammar lexemes := by
    intro v sources hv hall hchild
    refine Node.inGrammar_of_mem_map hchild fun p hp => ?_
    obtain ⟨v', hwithin, h⟩ := hall.exists_of_mem hp
    exact ⟨v', hwithin.trans (hv.trans hw), h⟩
  have hassignments : ∀ {aggregations groupings : List Assignment},
      child ∈ aggregations.map Node.assignment ++ groupings.map Node.assignment →
      child.InGrammar lexemes := by
    intro aggregations groupings hchild
    rw [← List.map_append] at hchild
    obtain ⟨_, -, rfl⟩ := List.mem_map.mp hchild
    trivial
  cases h with
  | «from» hall _ =>
      rcases List.mem_append.mp hchild with hchild | hchild
      · exact hsources ⟨[], _, rfl⟩ hall hchild
      · exact Node.inGrammar_of_mem_map hchild fun _ _ => trivial
  | row | eval | sort | keep | drop =>
      exact Node.inGrammar_of_mem_map hchild fun _ _ => trivial
  | showInfo | limit => cases hchild
  | @explain opening closing v _ _ _ h _ _ =>
      obtain rfl := List.mem_singleton.mp hchild
      intro c hc
      obtain ⟨v', hwithin, h⟩ := h.exists_of_mem hc
      exact ⟨v', hwithin.trans (.trans ⟨[opening], [closing], by simp⟩ hw), hitem v' c h⟩
  | metrics hall _ =>
      rcases List.mem_append.mp hchild with hchild | hchild
      · exact hsources ⟨[], _, rfl⟩ hall hchild
      · exact hassignments hchild
  | «where» | mvExpand | «match» =>
      obtain rfl := List.mem_singleton.mp hchild
      trivial
  | stats | inlineStats => exact hassignments hchild
  | rename h =>
      refine Node.inGrammar_of_mem_map hchild fun c hc => ?_
      obtain ⟨v, -, h⟩ := h.exists_of_mem hc
      exact ⟨v, h⟩
  | dissect _ _ hoptions =>
      rcases List.mem_cons.mp hchild with rfl | hchild
      · trivial
      rcases List.mem_cons.mp hchild with rfl | hchild
      · trivial
      refine Node.inGrammar_of_mem_map hchild fun o ho => ?_
      cases hoptions with
      | absent => cases ho
      | present h =>
          obtain ⟨v, -, h⟩ := h.exists_of_mem ho
          exact ⟨v, h⟩
  | grok =>
      rcases List.mem_pair.mp hchild with rfl | rfl <;> trivial
  | enrich hsettings hpolicy _ hfields =>
      rcases List.mem_append.mp hchild with hchild | hchild
      · refine Node.inGrammar_of_mem_map hchild fun s hs => ?_
        cases hsettings with
        | absent => cases hs
        | present h =>
            obtain rfl := List.mem_singleton.mp hs
            exact ⟨_, h⟩
      rcases List.mem_cons.mp hchild with rfl | hchild
      · exact ⟨_, hpolicy⟩
      rcases List.mem_append.mp hchild with hchild | hchild
      · exact Node.inGrammar_of_mem_map hchild fun _ _ => trivial
      refine Node.inGrammar_of_mem_map hchild fun f hf => ?_
      cases hfields with
      | absent => cases hf
      | present _ h =>
          obtain ⟨v, -, h⟩ := h.exists_of_mem hf
          exact ⟨v, h⟩
  | @lookup j v v' l _ _ _ _ htable _ _ =>
      rcases List.mem_cons.mp hchild with rfl | hchild
      · exact ⟨v, .trans ⟨j, l :: v', by simp⟩ hw, htable⟩
      · exact Node.inGrammar_of_mem_map hchild fun _ _ => trivial

/-- What a node in the grammar holds is in the grammar. -/
theorem Node.InGrammar.of_mem_children (h : node.InGrammar lexemes)
    (hchild : child ∈ node.children) : child.InGrammar lexemes := by
  cases node with
  | query commands span => exact Node.inGrammar_of_mem_map hchild h
  | command c =>
      obtain ⟨w, hw, h⟩ := h
      cases h with
      | @mk l verb w make item _ hbody hitem =>
          exact hbody.child_inGrammar hitem (.trans ⟨[l], [], by simp⟩ hw) hchild
  | _ => exact inGrammar_of_isBasic (isBasic_of_mem_children (by simp) (by simp) hchild)

/-- Whatever a node in the grammar contains is in the grammar. -/
theorem Node.InGrammar.of_contains (h : node.InGrammar lexemes) (hchild : node.Contains child) :
    child.InGrammar lexemes := by
  induction hchild with
  | root => exact h
  | child _ hchild ih => exact ih.of_mem_children hchild

end

/-! ### What the grammar promises -/

section

variable {preview : Bool} {tokens : List Token} {last : Token} {w : List Lexeme} {node : Node}

/-- A source has the span of its token. -/
theorem Parser.IsSource.span_eq {l : Lexeme} {source : Source} (h : IsSource l source) :
    l.token.span = source.span := by
  cases h <;> rfl

/-- An index pattern whose source and cluster were read without blanks has none in its text. -/
theorem Parser.IsIndexPattern.isGlued {p : IndexPattern} (h : IsIndexPattern w p)
    (hw : w <:+: Lexeme.ofTokens false tokens) : p.IsGlued (tokens ++ [last]) := by
  cases h with
  | plain =>
      intro cluster hcluster
      cases hcluster
  | @remote l colon l' _ _ hcluster hcolon hindex hglued hglued' =>
      rintro _ ⟨⟩
      obtain ⟨before, behind, v, rfl, hbehind⟩ := Lexeme.exists_of_among hw
      -- A lexeme that is not spaced has its token right behind the one before.
      obtain ⟨hidden, behind, rfl, hbehind', hnone⟩ := Lexeme.exists_of_cons hbehind
      obtain ⟨hidden', behind, rfl, -, hnone'⟩ := Lexeme.exists_of_cons hbehind'
      obtain ⟨-, rfl⟩ := hnone hglued
      obtain ⟨-, rfl⟩ := hnone' hglued'
      exact ⟨l.token, colon.token, l'.token, ⟨before, behind ++ [last], by simp⟩, hcolon,
        hcluster.span_eq, hindex.span_eq⟩

/-- Commands of the grammar pass the checks. -/
theorem Parser.IsCommand.isChecked {c : Command} (h : IsCommand w c)
    (hlexed : Token.Lexed preview .bottom (Lexeme.ofTokens false tokens))
    (hw : w <:+: Lexeme.ofTokens false tokens) : c.IsChecked (tokens ++ [last]) := by
  cases h with
  | @mk l _ _ _ _ hl hbody =>
    cases hbody with
    | stats _ hne => exact hne
    | inlineStats _ hne => exact hne
    | drop _ hstar => exact hstar
    | enrich hsettings => cases hsettings <;> simp [Command.IsChecked]
    | explain _ h => exact h.ne_nil
    | @limit l' hl' =>
        obtain ⟨m, hforms⟩ := hlexed.stretch (.trans ⟨[l], [], by simp⟩ hw : [l'] <:+: _)
        have htext := (hforms.head (by simp [hl'])).1
        rw [hl'] at htext
        -- Lexemes in a row are tokens in a row when what is hidden is left out.
        have htokens : [l.token, l'.token] <:+: (tokens ++ [last]).filter fun t => !t.isHidden := by
          rw [List.filter_append, ← Lexeme.map_token_ofTokens false]
          exact (hw.map Lexeme.token).trans (List.prefix_append _ _).isInfix
        exact ⟨rfl, htext.isDigit_of_integer, l.token, l'.token, htokens, hl, hl', rfl, rfl⟩
    | _ => trivial

/-- What is in the grammar passes the checks. -/
theorem Node.InGrammar.isChecked (h : node.InGrammar (Lexeme.ofTokens false tokens))
    (hlexed : Token.Lexed preview .bottom (Lexeme.ofTokens false tokens)) :
    node.IsChecked (tokens ++ [last]) := by
  -- The grammar's rules carry the checks as premises, so each is read off the rule of its node.
  cases node with
  | command =>
      obtain ⟨w, hw, h⟩ := h
      exact h.isChecked hlexed hw
  | indexPattern =>
      obtain ⟨w, hw, h⟩ := h
      exact h.isGlued hw
  | renameClause =>
      obtain ⟨w, h⟩ := h
      cases h with
      | as _ _ _ hplain hplain' => exact ⟨hplain, hplain'⟩
      | assign _ _ _ hplain hplain' => exact ⟨hplain, hplain'⟩
  | enrichField =>
      obtain ⟨w, h⟩ := h
      cases h with
      | plain _ hplain => exact ⟨hplain, fun _ hnew => by cases hnew⟩
      | renamed _ _ _ hplain hplain' =>
          refine ⟨hplain', fun _ hnew => ?_⟩
          obtain rfl := Option.some.inj hnew
          exact hplain
  | dissectOption =>
      obtain ⟨w, h⟩ := h
      cases h with
      | mk _ _ _ hknown hstring => exact ⟨hknown, hstring⟩
  | setting =>
      obtain ⟨w, h⟩ := h
      cases h with
      | mk _ _ _ _ _ hknown hmode => exact ⟨hknown, hmode⟩
  -- A policy with a mode in front of it may be any word, so only the plain one is asked about.
  | policy =>
      obtain ⟨l, h⟩ := h
      cases h with
      | plain _ hplain => exact fun _ => hplain
      | qualified => exact fun hnone => by cases hnone
  | _ => trivial

end

/-! ### Queries -/

/-- A query without commands holds no star, and has its shape. -/
theorem Node.keepsStar_hasShape_empty (span : Span) :
    (Node.query [] span).KeepsStar ∧ (Node.query [] span).HasShape :=
  ⟨keepsStar_of_forall fun _ he => absurd he List.not_mem_nil, trivial⟩

/-- What is made of lexemes keeps stars in their place and the promises of its kind. -/
theorem Parser.Made.keepsStar_hasShape {w : List Lexeme} {node : Node} (h : Made w node) :
    node.KeepsStar ∧ node.HasShape := by
  cases h with
  | mk _ _ hstar hshape => exact ⟨hstar, hshape⟩
  | hollow => exact Node.keepsStar_hasShape_empty _

/-- The nodes of a text that is accepted pass the checks, since its commands are in the grammar. -/
theorem parse_isChecked {text : String} {options : Options}
    (h : (parse text options).diagnostics = []) {node : Node}
    (hnode : (parse text options).query.node.Contains node) :
    node.IsChecked (parse text options).tokens := by
  obtain ⟨tokens, l', s', hreads, -, hquery, -, hcommands⟩ := parse_clean h
  have htokens : (parse text options).tokens =
      tokens.map Token.truncated ++ [l'.endToken.truncated] := by
    rw [parse_eq_of_reads hreads hquery, List.map_append]
    rfl
  have hroot : (parse text options).query.node.InGrammar
      (Lexeme.ofTokens false (tokens.map Token.truncated)) :=
    fun c hc => hcommands.exists_of_mem hc
  rw [htokens]
  exact (hroot.of_contains hnode).isChecked (Token.lexed_truncated_of_reads hreads)

/-- Every query keeps stars and lists in shape, and an accepted one passes all the checks of its
commands too. -/
theorem parse_wellFormed (text : String) (options : Options) :
    (∀ node, (parse text options).query.node.Contains node → node.KeepsStar ∧ node.HasShape) ∧
      ((parse text options).diagnostics = [] →
        ∀ node, (parse text options).query.node.Contains node →
          node.IsChecked (parse text options).tokens) := by
  refine ⟨forall_contains_of_places (fun node => ?_) fun hreads hquery node hnode => ?_,
    fun h node hnode => parse_isChecked h hnode⟩
  · exact and_congr node.keepsStar_mapSpans node.hasShape_mapSpans
  · rcases exists_made_of_contains hreads hquery hnode with rfl | ⟨w, -, h⟩
    · exact Node.keepsStar_hasShape_empty _
    · exact h.keepsStar_hasShape

/-- A text without diagnostics that has something of every kind that is checked. -/
theorem parse_wellFormed_eightVerbs :
    let text := "FROM c:i | EXPLAIN [ROW a = 1] | DROP a | RENAME a AS b | " ++
      "ENRICH [ccq.mode:any] p WITH c = d | DISSECT a \"%{x}\" append_separator = \",\" | " ++
      "STATS b = 1 | LIMIT 10"
    (parse text .default).diagnostics = [] ∧
      (parse text .default).query.commands.map Command.verb =
        [.from, .explain, .drop, .rename, .enrich, .dissect, .stats, .limit] ∧
      ∀ node, (parse text .default).query.node.Contains node →
        node.IsChecked (parse text .default).tokens := by
  intro text
  have hread : (parse text .default).diagnostics = [] ∧
      (parse text .default).query.commands.map Command.verb =
        [.from, .explain, .drop, .rename, .enrich, .dissect, .stats, .limit] := by
    decide +kernel
  exact ⟨hread.1, hread.2, (parse_wellFormed text .default).2 hread.1⟩

end PipeQuery
