import PipeQuery.Proofs.Command.Sound
import PipeQuery.Proofs.Expr.Made

/-!
# `PipeQuery.Proofs.Command.Made`: commands are made of their lexemes

A command that is read is made of the lexemes that were taken, whatever was reported on the way.
Where nothing can be reported the grammar of `PipeQuery.Proofs.Command.Grammar` tells so; the other
parts are read once more here, since in a state that is not clean they need not be in the grammar.
`Yields` is for the parts of a command and `Spreads` for commands: between those of an `EXPLAIN`
there may be some that were given up.
-/

set_option autoImplicit false

namespace PipeQuery.Parser

variable {α : Type} {c : Context} {s s' s₁ s₂ : State} {sub : Nat → Parse Expr}
  {nodes nodes' : List Node} {w : List Lexeme}

/-- From `s` to `s'` the nodes were read, one behind the other. -/
def Yields (s : State) (nodes : List Node) (s' : State) : Prop :=
  ∃ w, Moves s w s' ∧ (Placed w → Scattered Plain w nodes)

/-- Lexemes that are only passed over make no nodes. -/
theorem Moves.yields (h : Moves s w s') : Yields s [] s' :=
  ⟨w, h, fun _ => .nil⟩

/-- What two steps make stands one behind the other. -/
theorem Yields.trans (h : Yields s nodes s₁) (h' : Yields s₁ nodes' s') :
    Yields s (nodes ++ nodes') s' := by
  obtain ⟨w, hmoves, hnodes⟩ := h
  obtain ⟨w', hmoves', hnodes'⟩ := h'
  exact ⟨w ++ w', hmoves.trans hmoves', fun hw => (hnodes hw.left).append (hnodes' hw.right)⟩

/-- Steps that make no nodes, in front of some and behind some. -/
theorem Moves.then (h : Moves s w s₁) (h' : Yields s₁ nodes s') : Yields s nodes s' :=
  h.yields.trans h'

/-- Steps that make no nodes, behind some that do. -/
theorem Yields.then (h : Yields s nodes s₁) (h' : Moves s₁ w s') : Yields s nodes s' := by
  simpa using h.trans h'.yields

/-- A list yields its items, if an item yields a node. -/
theorem separated_yields {kind : Token.Kind} (hkind : kind ≠ .eof) {item : Parse α} {f : α → Node}
    (hitem : ∀ {s a s'}, item c s = (.ok a, s') → Yields s [f a] s') {as : List α}
    (h : separated kind item c s = (.ok as, s')) : Yields s (as.map f) s' := by
  obtain ⟨w, hmoves, hall⟩ := separated_ok (g := fun _ => True)
    (R := fun w a => Placed w → Scattered Plain w [f a]) hkind (fun _ h => h)
    (fun h => (hitem h).imp fun _ h => ⟨h.1, fun _ => h.2⟩) h
  exact ⟨w, hmoves, fun hw => (hall trivial).scattered hw fun h => h⟩

/-! ### Parts that nothing is reported of -/

/-- A field pattern is made of the lexemes that its reader takes. -/
theorem fieldPattern_yields (hend : c.endToken.kind = .eof) {p : FieldPattern}
    (h : fieldPattern c s = (.ok p, s')) : Yields s [.fieldPattern p] s' := by
  obtain ⟨w, hpattern, hmoves⟩ := fieldPattern_ok hend h
  exact ⟨w, hmoves, fun hw => (hpattern.stretch hw).scattered⟩

/-- A list of field patterns yields each of them. -/
theorem fieldPatterns_yields (hend : c.endToken.kind = .eof) {fields : List FieldPattern}
    (h : fieldPatterns c s = (.ok fields, s')) : Yields s (fields.map .fieldPattern) s' :=
  separated_yields (by simp) (fieldPattern_yields hend) h

/-- The readers of expressions make their expression of the lexemes they take. -/
theorem expr_yields (hsub : ReadsAll c sub) {e : Expr} (h : sub 0 c s = (.ok e, s')) :
    Yields s [.expr e] s' := by
  obtain ⟨w, hmoves, hderives⟩ := (hsub (Nat.zero_le _) h).derives .disjunction (Nat.le_refl 1)
  exact ⟨w, hmoves, fun hw => (hderives.stretch hw).scattered⟩

/-- An operand, with its casts, is made of the lexemes that were taken for it. -/
theorem primary_yields (hend : c.endToken.kind = .eof) (hsub : ReadsAll c sub) {e : Expr}
    (h : primary sub c s = (.ok e, s')) : Yields s [.expr e] s' := by
  obtain ⟨w, hmoves, hderives⟩ := primary_ok hend hsub h
  exact ⟨w, hmoves, fun hw => (hderives.stretch hw).scattered⟩

/-- A string literal is a string, and is made of one lexeme. -/
theorem stringLiteral_yields {what : String} {e : Expr}
    (h : stringLiteral what c s = (.ok e, s')) : e.isString = true ∧ Yields s [.expr e] s' := by
  obtain ⟨l, -, rfl, hmoves⟩ := stringLiteral_ok h
  exact ⟨rfl, [l], hmoves, fun _ => .one (plain_stringOf l)⟩

/-- An assignment stretches from its target, or its value if there is none, to the end of the value.
-/
theorem IsAssignment.stretch {a : Assignment} (h : IsAssignment w a) (hw : Placed w) :
    Stretch w [.assignment a] a.span := by
  cases h with
  | plain h =>
      exact .wrap (.assignment ⟨none, _, _⟩) (h.stretch hw) ⟨fun _ => trivial, trivial, rfl⟩
  | @target l _ _ _ _ hname _ h =>
      exact .wrap (.assignment ⟨some _, _, _⟩)
        (.merge (m := [l]) (hname.stretch hw.left) (h.stretch hw.right.tail) hw)
        ⟨fun _ => trivial, trivial, rfl⟩

/-- A list of assignments yields each of them. -/
theorem assignments_yields (hend : c.endToken.kind = .eof) (hsub : ReadsAll c sub)
    {as : List Assignment} (h : assignments sub c s = (.ok as, s')) :
    Yields s (as.map .assignment) s' := by
  obtain ⟨w, hmoves, hall⟩ := assignments_ok hend hsub h
  exact ⟨w, hmoves, fun hw => hall.scattered hw fun h hw => (h.stretch hw).scattered⟩

/-- The items of a clause lie in its lexemes, behind the word that begins it. -/
theorem IsClause.scattered {word : Keyword} {R : List Lexeme → α → Prop} {f : α → Node}
    {as : List α} (h : IsClause word R w as) (hw : Placed w)
    (hitem : ∀ {w a}, R w a → Placed w → Scattered Plain w [f a]) :
    Scattered Plain w (as.map f) := by
  cases h with
  | absent => exact .nil
  | present _ h => exact (h.scattered hw.tail hitem).cons_lexeme _

/-- What is optional lies in its lexemes, and in none of them if it is absent. -/
theorem IsOptional.scattered {R : List Lexeme → α → Prop} {f : α → Node} {as : List α}
    (h : IsOptional R w as) (hw : Placed w)
    (hitem : ∀ {w a}, R w a → Placed w → Scattered Plain w [f a]) :
    Scattered Plain w (as.map f) := by
  cases h with
  | absent => exact .nil
  | present h => exact h.scattered hw hitem

/-- The aggregations of a `STATS` lie in front of its groupings. -/
theorem IsStatsParts.scattered {aggregations groupings : List Assignment}
    (h : IsStatsParts w aggregations groupings) (hw : Placed w) :
    Scattered Plain w (aggregations.map .assignment ++ groupings.map .assignment) := by
  have hitem : ∀ {w a}, IsAssignment w a → Placed w → Scattered Plain w [.assignment a] :=
    fun h hw => (h.stretch hw).scattered
  obtain ⟨haggregations, hgroupings⟩ := h
  exact (haggregations.scattered hw.left hitem).append (hgroupings.scattered hw.right hitem)

/-- The reader of both parts of a `STATS` yields the aggregations and then the groupings. -/
theorem statsParts_yields (hend : c.endToken.kind = .eof) (hsub : ReadsAll c sub)
    {parts : List Assignment × List Assignment} (h : statsParts sub c s = (.ok parts, s')) :
    Yields s (parts.1.map .assignment ++ parts.2.map .assignment) s' :=
  (statsParts_ok hend hsub h).imp fun _ h => ⟨h.1, h.2.scattered⟩

/-- A metadata clause lies in its lexemes, in brackets or not. -/
theorem IsMetadata.scattered {m : Option Metadata} (h : IsMetadata w m) (hw : Placed w) :
    Scattered Plain w (m.toList.map .metadata) := by
  have hitem : ∀ {w source}, IsSourceItem w source → Placed w →
      Scattered Plain w [.source source] := by
    rintro _ _ ⟨h⟩ -
    exact .one h.plain
  cases h with
  | @bare l w fields _ h =>
      have hstretch := Stretch.upTo (.lexeme l) (h.scattered hw.tail hitem) hw rfl
      exact (hstretch.wrap (.metadata ⟨_, _, _⟩)
        ⟨fun _ => trivial, trivial, rfl⟩).scattered
  | @bracketed opening l closing w fields _ _ h _ =>
      have hstretch := Stretch.closed (.lexeme opening)
        ((h.scattered hw.tail.tail.left hitem).skip [l]) hw
      exact (hstretch.wrap (.metadata ⟨_, _, _⟩)
        ⟨fun _ => trivial, trivial, rfl⟩).scattered
  | absent => exact .nil

/-- The reader of an optional metadata clause yields it, if there is one. -/
theorem metadata_yields (hend : c.endToken.kind = .eof) {m : Option Metadata}
    (h : metadata c s = (.ok m, s')) : Yields s (m.toList.map .metadata) s' :=
  (metadata_ok hend h).imp fun _ h => ⟨h.1, h.2.scattered⟩

/-- A sort key stretches from its expression to the last word behind it. -/
theorem IsSortKey.stretch {key : SortKey} (h : IsSortKey w key) (hw : Placed w) :
    Stretch w [.sortKey key] key.span := by
  obtain ⟨h, -, -⟩ := h
  exact .wrap (.sortKey ⟨_, _, _, _⟩) (.upTo (h.stretch hw.left) .nil hw rfl)
    ⟨fun _ => trivial, trivial, rfl⟩

/-- A sort key is made of the lexemes that its reader takes. -/
theorem sortKey_yields (hsub : ReadsAll c sub) {key : SortKey}
    (h : sortKey sub c s = (.ok key, s')) : Yields s [.sortKey key] s' :=
  (sortKey_ok hsub h).imp fun _ h => ⟨h.1, fun hw => (h.2.stretch hw).scattered⟩

/-! ### Parts that something may be reported of -/

/-- An index pattern is made of its lexemes, be they glued or not: a blank at the colon is reported
only. -/
theorem indexPattern_yields (hend : c.endToken.kind = .eof) {p : IndexPattern}
    (h : indexPattern c s = (.ok p, s')) : Yields s [.indexPattern p] s' := by
  rcases indexPattern_parts hend h with ⟨l, source, hsource, hmoves, rfl⟩ |
    ⟨l, colon, l', cluster, index, hcluster, -, hindex, hmoves, rfl, -⟩
  · refine ⟨[l], hmoves, fun _ => ?_⟩
    exact (Stretch.wrap (.indexPattern ⟨none, _, _⟩) (.of_plain hsource.plain)
      ⟨fun _ => trivial, trivial, rfl⟩).scattered
  · refine ⟨_, hmoves, fun hw => ?_⟩
    exact (Stretch.wrap (.indexPattern ⟨some _, _, _⟩)
      (.merge (m := [colon]) (.of_plain hcluster.plain) (.of_plain hindex.plain) hw)
      ⟨fun _ => trivial, trivial, rfl⟩).scattered

/-- A list of index patterns yields each of them. -/
theorem indexPatterns_yields (hend : c.endToken.kind = .eof) {sources : List IndexPattern}
    (h : indexPatterns c s = (.ok sources, s')) : Yields s (sources.map .indexPattern) s' :=
  separated_yields (by simp) (indexPattern_yields hend) h

/-- Two field patterns with one lexeme between them make a node at the span of both. -/
theorem pair_yields {p p' : FieldPattern} {l : Lexeme} {w w' : List Lexeme} {node : Node}
    (hp : IsFieldPattern w p) (hp' : IsFieldPattern w' p')
    (hmoves : Moves s (w ++ ([l] ++ w')) s')
    (hchildren : node.children = [.fieldPattern p, .fieldPattern p'])
    (hspan : node.span = p.span.merge p'.span) (hinner : IsInner node) : Yields s [node] s' := by
  refine ⟨_, hmoves, fun hw => (Stretch.wrap _ ?_ hinner).scattered⟩
  rw [hchildren, hspan]
  exact .merge (m := [l]) (hp.stretch hw.left) (hp'.stretch hw.right.right) hw

/-- A clause of a `RENAME` is made of its lexemes even where a wildcard in it was reported. -/
theorem renameClause_yields (hend : c.endToken.kind = .eof) {clause : RenameClause}
    (h : renameClause c s = (.ok clause, s')) : Yields s [.renameClause clause] s' := by
  obtain ⟨w, l, w', first, second, hfirst, hsecond, hmoves, hform, -⟩ := renameClause_parts hend h
  rcases hform with ⟨-, rfl⟩ | ⟨-, rfl⟩
  · exact pair_yields hfirst hsecond hmoves rfl rfl ⟨fun _ => trivial, trivial, rfl⟩
  · -- Its span is that of both names in either order, and its children are in that of the text.
    exact pair_yields hfirst hsecond hmoves rfl (Span.merge_comm _ _)
      ⟨fun _ => trivial, trivial, rfl⟩

/-- A field of an `ENRICH` is made of its lexemes even where a wildcard in it was reported. -/
theorem enrichField_yields (hend : c.endToken.kind = .eof) {field : EnrichField}
    (h : enrichField c s = (.ok field, s')) : Yields s [.enrichField field] s' := by
  rcases enrichField_parts hend h with ⟨w, name, hname, hmoves, rfl, -⟩ |
    ⟨w, l, w', new, name, hnew, -, hname, hmoves, rfl, -⟩
  · exact ⟨w, hmoves, fun hw => (Stretch.wrap (.enrichField ⟨none, _, _⟩) (hname.stretch hw)
      ⟨fun _ => trivial, trivial, rfl⟩).scattered⟩
  · exact pair_yields hnew hname hmoves rfl rfl ⟨fun _ => trivial, trivial, rfl⟩

/-- An option of a `DISSECT` is made of its lexemes, be it known or not. -/
theorem dissectOption_yields (hend : c.endToken.kind = .eof) (hsub : ReadsAll c sub)
    {option : DissectOption} (h : dissectOption sub c s = (.ok option, s')) :
    Yields s [.dissectOption option] s' := by
  obtain ⟨l, assign, w, name, value, hid, -, hderives, hmoves, rfl, -⟩ :=
    dissectOption_parts hend hsub h
  refine ⟨_, hmoves, fun hw => ?_⟩
  exact (Stretch.wrap (.dissectOption ⟨_, _, _⟩)
    (.merge (m := [assign]) (.of_plain hid.plain) (hderives.stretch hw.tail.tail) hw)
    ⟨fun _ => trivial, trivial, rfl⟩).scattered

/-- The options of a `DISSECT` are read one by one, each made of its own lexemes. -/
theorem dissectOptions_yields (hend : c.endToken.kind = .eof) (hsub : ReadsAll c sub)
    {options : List DissectOption} (h : dissectOptions sub c s = (.ok options, s')) :
    Yields s (options.map .dissectOption) s' := by
  simp only [dissectOptions, peek] at h
  rw [bind_ok] at h
  obtain ⟨first, _, hpeek, h⟩ := h
  obtain ⟨rfl, rfl⟩ := look_ok.mp hpeek
  split at h
  · exact separated_yields (by simp) (dissectOption_yields hend hsub) h
  · obtain ⟨rfl, rfl⟩ := pure_ok.mp h
    exact (Moves.refl _).yields

/-- A setting is made of its lexemes, brackets included. -/
theorem setting_yields {given : Setting} (hahead : s.kindAt 0 = .openBracket)
    (h : setting c s = (.ok given, s')) : Yields s [.setting given] s' := by
  obtain ⟨opening, name, colon, value, closing, -, -, -, -, -, hmoves, rfl, -⟩ :=
    setting_parts hahead h
  refine ⟨_, hmoves, fun hw => ?_⟩
  exact (Stretch.wrap (.setting ⟨_, _, _⟩)
    (.closed (m := [name, colon, value]) (.lexeme opening) .nil hw)
    ⟨fun _ => trivial, trivial, rfl⟩).scattered

/-- Behind the settings `before` further ones may follow. -/
theorem settings_yields {fuel : Nat} {before given : List Setting}
    (h : settings fuel before c s = (.ok given, s')) :
    ∃ more, given = before ++ more ∧ Yields s (more.map .setting) s' := by
  induction fuel generalizing s before with
  | zero =>
      obtain ⟨rfl, rfl⟩ := pure_ok.mp h
      exact ⟨[], (List.append_nil _).symm, (Moves.refl s).yields⟩
  | succ fuel ih =>
      rw [settings, bind_ok] at h
      obtain ⟨b, _, hcheck, h⟩ := h
      obtain ⟨rfl, rfl⟩ := check_ok.mp hcheck
      by_cases hahead : s.kindAt 0 = .openBracket
      · simp only [hahead, decide_true, if_true] at h
        rw [bind_ok] at h
        obtain ⟨next, s₁, hnext, h⟩ := h
        obtain ⟨s₂, hmoves, -, h⟩ := reportIf_ok h
        obtain ⟨more, rfl, hmore⟩ := ih h
        refine ⟨next :: more, by simp, ?_⟩
        exact ((setting_yields hahead hnext).then hmoves).trans hmore
      · simp only [hahead, decide_false, Bool.false_eq_true, if_false] at h
        obtain ⟨rfl, rfl⟩ := pure_ok.mp h
        exact ⟨[], (List.append_nil _).symm, (Moves.refl _).yields⟩

/-- A policy is made of its one lexeme. -/
theorem policy_yields {p : Policy} (h : policy c s = (.ok p, s')) : Yields s [.policy p] s' := by
  simp only [policy] at h
  rw [bind_ok] at h
  obtain ⟨t, s₁, hexpect, h⟩ := h
  obtain ⟨l, -, rfl, hmoves⟩ := expect_ok (by simp) hexpect
  have hplain : ∀ {mode name}, Plain [l] (.policy ⟨mode, name, l.token.span⟩) :=
    .leaf trivial trivial rfl (.single l) rfl
  split at h
  · obtain ⟨rfl, rfl⟩ := pure_ok.mp h
    exact ⟨[l], hmoves, fun _ => .one hplain⟩
  · obtain ⟨s₂, hmoves', -, h⟩ := reportIf_ok h
    obtain ⟨rfl, rfl⟩ := pure_ok.mp h
    exact Yields.then ⟨[l], hmoves, fun _ => .one hplain⟩ hmoves'

/-! ### Commands -/

section

variable {l : Lexeme} {rest : List Lexeme} {command : Command}

/-- A command is made of its verb and of what was read behind it. -/
theorem Yields.made {make : Span → Command} (hverb : Moves s [l] s₁)
    (hnodes : Yields s₁ nodes s₂)
    (h : (do return make (← spanFrom l.token.span)) c s₂ = (.ok command, s'))
    (hmake : ∀ span, (make span).span = span ∧ (make span).children = nodes)
    (hshape : ∀ span, (Node.command (make span)).HasShape) : Yields s [.command command] s' := by
  simp only [bind_ok, pure_ok, spanFrom_ok] at h
  obtain ⟨_, _, ⟨rfl, rfl⟩, rfl, rfl⟩ := h
  obtain ⟨w, hmoves, hscattered⟩ := hnodes
  have hall := hverb.trans hmoves
  refine ⟨[l] ++ w, hall, fun hw => ?_⟩
  rw [hall.prevEnd_eq, spanFrom_eq (by simp)]
  obtain ⟨hspan, hchildren⟩ := hmake (spanOver l.token.span ([l] ++ w))
  refine (Stretch.wrap (.command (make _)) ?_
    ⟨fun _ => trivial, hshape _, rfl⟩).scattered
  rw [Node.children, Node.span, hchildren, hspan]
  exact .upTo (.lexeme l) (hscattered hw.right) hw rfl

/-- A `FROM` is made of its verb, its sources and its metadata. -/
theorem fromCommand_yields (hend : c.endToken.kind = .eof) (hrest : s.rest = l :: rest)
    (h : fromCommand c s = (.ok command, s')) : Yields s [.command command] s' := by
  obtain ⟨s₁, hmoves, h⟩ := verb_ok hrest h
  obtain ⟨sources, s₂, hsources, h⟩ := bind_ok.mp h
  obtain ⟨m, s₃, hmetadata, h⟩ := bind_ok.mp h
  exact .made hmoves ((indexPatterns_yields hend hsources).trans
    (metadata_yields hend hmetadata)) h (fun _ => ⟨rfl, rfl⟩) fun _ => trivial

/-- A `ROW` is made of its verb and its assignments. -/
theorem rowCommand_yields (hend : c.endToken.kind = .eof) (hsub : ReadsAll c sub)
    (hrest : s.rest = l :: rest) (h : rowCommand sub c s = (.ok command, s')) :
    Yields s [.command command] s' := by
  obtain ⟨s₁, hmoves, h⟩ := verb_ok hrest h
  obtain ⟨fields, s₂, hfields, h⟩ := bind_ok.mp h
  exact .made hmoves (assignments_yields hend hsub hfields) h (fun _ => ⟨rfl, rfl⟩)
    fun _ => trivial

/-- A `SHOW` is made of its two words. -/
theorem showCommand_yields (hrest : s.rest = l :: rest)
    (h : showCommand c s = (.ok command, s')) : Yields s [.command command] s' := by
  obtain ⟨s₁, hmoves, h⟩ := verb_ok hrest h
  obtain ⟨t, s₂, hexpect, h⟩ := bind_ok.mp h
  obtain ⟨info, -, -, hmoves₁⟩ := expect_ok (by simp) hexpect
  exact .made hmoves hmoves₁.yields h (fun _ => ⟨rfl, rfl⟩) fun _ => trivial

/-- A `METRICS` is made of its verb, its sources and both parts of its statistics. -/
theorem metricsCommand_yields (hend : c.endToken.kind = .eof) (hsub : ReadsAll c sub)
    (hrest : s.rest = l :: rest) (h : metricsCommand sub c s = (.ok command, s')) :
    Yields s [.command command] s' := by
  obtain ⟨s₁, hmoves, h⟩ := verb_ok hrest h
  obtain ⟨sources, s₂, hsources, h⟩ := bind_ok.mp h
  obtain ⟨parts, s₃, hparts, h⟩ := bind_ok.mp h
  exact .made hmoves ((indexPatterns_yields hend hsources).trans
    (statsParts_yields hend hsub hparts)) h (fun _ => ⟨rfl, rfl⟩) fun _ => trivial

/-- An `EVAL` is made of its verb and its assignments. -/
theorem evalCommand_yields (hend : c.endToken.kind = .eof) (hsub : ReadsAll c sub)
    (hrest : s.rest = l :: rest) (h : evalCommand sub c s = (.ok command, s')) :
    Yields s [.command command] s' := by
  obtain ⟨s₁, hmoves, h⟩ := verb_ok hrest h
  obtain ⟨fields, s₂, hfields, h⟩ := bind_ok.mp h
  exact .made hmoves (assignments_yields hend hsub hfields) h (fun _ => ⟨rfl, rfl⟩)
    fun _ => trivial

/-- A `WHERE` is made of its verb and its condition. -/
theorem whereCommand_yields (hsub : ReadsAll c sub) (hrest : s.rest = l :: rest)
    (h : whereCommand sub c s = (.ok command, s')) : Yields s [.command command] s' := by
  obtain ⟨s₁, hmoves, h⟩ := verb_ok hrest h
  obtain ⟨e, s₂, he, h⟩ := bind_ok.mp h
  exact .made hmoves (expr_yields hsub he) h (fun _ => ⟨rfl, rfl⟩) fun _ => trivial

/-- A `STATS` is made of its verb and its two parts, even where both are missing. -/
theorem statsCommand_yields (hend : c.endToken.kind = .eof) (hsub : ReadsAll c sub)
    (hrest : s.rest = l :: rest) (h : statsCommand sub c s = (.ok command, s')) :
    Yields s [.command command] s' := by
  obtain ⟨s₁, hmoves, h⟩ := verb_ok hrest h
  obtain ⟨parts, s₂, hparts, h⟩ := bind_ok.mp h
  obtain ⟨s₃, hmoves₁, -, h⟩ := reportIf_ok h
  exact .made hmoves ((statsParts_yields hend hsub hparts).then hmoves₁) h
    (fun _ => ⟨rfl, rfl⟩) fun _ => trivial

/-- An `INLINESTATS` is made of its verb and its two parts, even where the aggregations are missing.
-/
theorem inlineStatsCommand_yields (hend : c.endToken.kind = .eof) (hsub : ReadsAll c sub)
    (hrest : s.rest = l :: rest) (h : inlineStatsCommand sub c s = (.ok command, s')) :
    Yields s [.command command] s' := by
  obtain ⟨s₁, hmoves, h⟩ := verb_ok hrest h
  obtain ⟨parts, s₂, hparts, h⟩ := bind_ok.mp h
  obtain ⟨s₃, hmoves₁, -, h⟩ := reportIf_ok h
  exact .made hmoves ((statsParts_yields hend hsub hparts).then hmoves₁) h
    (fun _ => ⟨rfl, rfl⟩) fun _ => trivial

/-- A `SORT` is made of its verb and its keys. -/
theorem sortCommand_yields (hsub : ReadsAll c sub) (hrest : s.rest = l :: rest)
    (h : sortCommand sub c s = (.ok command, s')) : Yields s [.command command] s' := by
  obtain ⟨s₁, hmoves, h⟩ := verb_ok hrest h
  obtain ⟨keys, s₂, hkeys, h⟩ := bind_ok.mp h
  exact .made hmoves (separated_yields (by simp) (sortKey_yields hsub) hkeys) h
    (fun _ => ⟨rfl, rfl⟩) fun _ => trivial

/-- A `LIMIT` is made of its verb and its count. -/
theorem limitCommand_yields (hrest : s.rest = l :: rest)
    (h : limitCommand c s = (.ok command, s')) : Yields s [.command command] s' := by
  obtain ⟨s₁, hmoves, h⟩ := verb_ok hrest h
  obtain ⟨t, s₂, hexpect, h⟩ := bind_ok.mp h
  obtain ⟨count, -, rfl, hmoves₁⟩ := expect_ok (by simp) hexpect
  cases hvalue : integerValue count.token with
  | none =>
      rw [hvalue] at h
      simp only [bind_ok, stop_ok, and_false, exists_false] at h
  | some value =>
      rw [hvalue] at h
      exact .made hmoves hmoves₁.yields h (fun _ => ⟨rfl, rfl⟩) fun _ => trivial

/-- A `KEEP` is made of its verb and its patterns. -/
theorem keepCommand_yields (hend : c.endToken.kind = .eof) (hrest : s.rest = l :: rest)
    (h : keepCommand c s = (.ok command, s')) : Yields s [.command command] s' := by
  obtain ⟨s₁, hmoves, h⟩ := verb_ok hrest h
  obtain ⟨fields, s₂, hfields, h⟩ := bind_ok.mp h
  exact .made hmoves (fieldPatterns_yields hend hfields) h (fun _ => ⟨rfl, rfl⟩)
    fun _ => trivial

/-- A `DROP` is made of its verb and its patterns, stars that were refused among them. -/
theorem dropCommand_yields (hend : c.endToken.kind = .eof) (hrest : s.rest = l :: rest)
    (h : dropCommand c s = (.ok command, s')) : Yields s [.command command] s' := by
  obtain ⟨s₁, hmoves, h⟩ := verb_ok hrest h
  obtain ⟨fields, s₂, hfields, h⟩ := bind_ok.mp h
  obtain ⟨u, s₃, hrefuse, h⟩ := bind_ok.mp h
  exact .made hmoves ((fieldPatterns_yields hend hfields).then (refuseStars_ok hrefuse).1) h
    (fun _ => ⟨rfl, rfl⟩) fun _ => trivial

/-- A `RENAME` is made of its verb and its clauses. -/
theorem renameCommand_yields (hend : c.endToken.kind = .eof) (hrest : s.rest = l :: rest)
    (h : renameCommand c s = (.ok command, s')) : Yields s [.command command] s' := by
  obtain ⟨s₁, hmoves, h⟩ := verb_ok hrest h
  obtain ⟨clauses, s₂, hclauses, h⟩ := bind_ok.mp h
  exact .made hmoves (separated_yields (by simp) (renameClause_yields hend) hclauses) h
    (fun _ => ⟨rfl, rfl⟩) fun _ => trivial

/-- A `DISSECT` is made of its verb, its input, its pattern and its options. -/
theorem dissectCommand_yields (hend : c.endToken.kind = .eof) (hsub : ReadsAll c sub)
    (hrest : s.rest = l :: rest) (h : dissectCommand sub c s = (.ok command, s')) :
    Yields s [.command command] s' := by
  obtain ⟨s₁, hmoves, h⟩ := verb_ok hrest h
  obtain ⟨input, s₂, hinput, h⟩ := bind_ok.mp h
  obtain ⟨pattern, s₃, hpattern, h⟩ := bind_ok.mp h
  obtain ⟨options, s₄, hoptions, h⟩ := bind_ok.mp h
  obtain ⟨hstring, hpattern⟩ := stringLiteral_yields hpattern
  exact .made hmoves ((primary_yields hend hsub hinput).trans
    (hpattern.trans (dissectOptions_yields hend hsub hoptions))) h (fun _ => ⟨rfl, rfl⟩)
    fun _ => hstring

/-- A `GROK` is made of its verb, its input and its pattern. -/
theorem grokCommand_yields (hend : c.endToken.kind = .eof) (hsub : ReadsAll c sub)
    (hrest : s.rest = l :: rest) (h : grokCommand sub c s = (.ok command, s')) :
    Yields s [.command command] s' := by
  obtain ⟨s₁, hmoves, h⟩ := verb_ok hrest h
  obtain ⟨input, s₂, hinput, h⟩ := bind_ok.mp h
  obtain ⟨pattern, s₃, hpattern, h⟩ := bind_ok.mp h
  obtain ⟨hstring, hpattern⟩ := stringLiteral_yields hpattern
  exact .made hmoves ((primary_yields hend hsub hinput).trans hpattern) h
    (fun _ => ⟨rfl, rfl⟩) fun _ => hstring

/-- An `MV_EXPAND` is made of its verb and its field. -/
theorem mvExpandCommand_yields (hend : c.endToken.kind = .eof) (hrest : s.rest = l :: rest)
    (h : mvExpandCommand c s = (.ok command, s')) : Yields s [.command command] s' := by
  obtain ⟨s₁, hmoves, h⟩ := verb_ok hrest h
  obtain ⟨field, s₂, hfield, h⟩ := bind_ok.mp h
  obtain ⟨w, hfield, hmoves₁⟩ := fieldName_ok hend hfield
  exact .made hmoves ⟨w, hmoves₁, fun hw => (hfield.stretch hw).scattered⟩ h
    (fun _ => ⟨rfl, rfl⟩) fun _ => trivial

/-- A `MATCH` is made of its verb and its query. -/
theorem matchCommand_yields (hrest : s.rest = l :: rest)
    (h : matchCommand c s = (.ok command, s')) : Yields s [.command command] s' := by
  obtain ⟨s₁, hmoves, h⟩ := verb_ok hrest h
  obtain ⟨query, s₂, hquery, h⟩ := bind_ok.mp h
  exact .made hmoves (stringLiteral_yields hquery).2 h (fun _ => ⟨rfl, rfl⟩) fun _ => trivial

/-- An `ENRICH` is made of its verb, its settings, its policy and its clauses. -/
theorem enrichCommand_yields (hend : c.endToken.kind = .eof) (hrest : s.rest = l :: rest)
    (h : enrichCommand c s = (.ok command, s')) : Yields s [.command command] s' := by
  obtain ⟨s₁, hmoves, h⟩ := verb_ok hrest h
  obtain ⟨_, _, hremaining, h⟩ := bind_ok.mp h
  obtain ⟨rfl, rfl⟩ := look_ok.mp hremaining
  obtain ⟨given, s₂, hsettings, h⟩ := bind_ok.mp h
  obtain ⟨name, s₃, hpolicy, h⟩ := bind_ok.mp h
  obtain ⟨more, hgiven, hsettings⟩ := settings_yields hsettings
  obtain rfl : given = more := hgiven
  have hfront := hsettings.trans (policy_yields hpolicy)
  -- The added fields, behind the field that rows are matched on.
  have hfields : ∀ on {s₄}, Yields s₃ (on.toList.map .fieldPattern) s₄ → (do
      if ← eat (.keyword .«with») then
        let fields ← separated .comma enrichField
        return Command.enrich given name on fields (← spanFrom l.token.span)
      else
        let fields ← pure []
        return Command.enrich given name on fields (← spanFrom l.token.span)) c s₄ =
        (.ok command, s') → Yields s [.command command] s' := by
    intro on s₄ hon h
    obtain ⟨fields, w₂, s₅, hmoves₂, hclause, h⟩ := clause_ok (g := fun _ => True)
      (R := fun w a => Placed w → Scattered Plain w [.enrichField a])
      (fun h => by
        obtain ⟨w, hmoves, hall⟩ := separated_ok (g := fun _ => True)
          (R := fun w a => Placed w → Scattered Plain w [.enrichField a]) (by simp)
          (fun _ h => h)
          (fun h => (enrichField_yields hend h).imp fun _ h => ⟨h.1, fun _ => h.2⟩) h
        exact ⟨w, hmoves, hall⟩) h
    have hclause : Yields s₄ (fields.map .enrichField) s₅ :=
      ⟨w₂, hmoves₂, fun hw => (hclause trivial).scattered hw fun h => h⟩
    refine .made hmoves (hfront.trans (hon.trans hclause)) h (fun _ => ⟨rfl, ?_⟩)
      fun _ => trivial
    simp [Command.children]
  rw [bind_ok] at h
  obtain ⟨b, s₄, heat, h⟩ := h
  rcases eat_ok (by simp) heat with ⟨rfl, word, -, hmoves₁⟩ | ⟨rfl, -, rfl⟩
  · simp only [if_true] at h
    rw [bind_ok] at h
    obtain ⟨on, s₅, hon, h⟩ := h
    obtain ⟨field, _, hfield, heq⟩ := bind_ok.mp hon
    obtain ⟨rfl, rfl⟩ := pure_ok.mp heq
    exact hfields (some field) (hmoves₁.then (fieldPattern_yields hend hfield)) h
  · exact hfields none (Moves.refl _).yields h

/-- A `LOOKUP` is made of its verb, its table and the fields that are matched. -/
theorem lookupCommand_yields (hend : c.endToken.kind = .eof) (hrest : s.rest = l :: rest)
    (h : lookupCommand c s = (.ok command, s')) : Yields s [.command command] s' := by
  obtain ⟨s₁, hmoves, h⟩ := verb_ok hrest h
  simp only [current, peekSecond] at h
  obtain ⟨_, _, hlook, h⟩ := bind_ok.mp h
  obtain ⟨rfl, rfl⟩ := look_ok.mp hlook
  obtain ⟨_, _, hlook, h⟩ := bind_ok.mp h
  obtain ⟨rfl, rfl⟩ := look_ok.mp hlook
  -- The table and the fields, behind the word `JOIN`.
  have htable : ∀ {join j s₂}, Moves s₁ j s₂ → (do
      let table ← indexPattern
      let _ ← expect (.keyword .on) "ON"
      let matchFields ← fieldPatterns
      return Command.lookup table matchFields join (← spanFrom l.token.span)) c s₂ =
        (.ok command, s') → Yields s [.command command] s' := by
    intro join j s₂ hmoves₁ h
    obtain ⟨table, s₃, htable, h⟩ := bind_ok.mp h
    obtain ⟨t, s₄, hexpect, h⟩ := bind_ok.mp h
    obtain ⟨fields, s₅, hfields, h⟩ := bind_ok.mp h
    obtain ⟨on, -, -, hmoves₂⟩ := expect_ok (by simp) hexpect
    have hbehind := hmoves₂.then (fieldPatterns_yields hend hfields)
    exact .made hmoves (hmoves₁.then ((indexPattern_yields hend htable).trans hbehind)) h
      (fun _ => ⟨rfl, rfl⟩) fun _ => trivial
  split at h
  case isTrue hjoin =>
    obtain ⟨t, s₂, hadvance, hread⟩ := bind_ok.mp h
    simp only [Bool.and_eq_true, decide_eq_true_eq] at hjoin
    obtain ⟨word, rest', hrest', -⟩ := current_eq hend hjoin.1.1 (by simp)
    exact htable (advance_ok hrest' hadvance).2 hread
  case isFalse => exact htable (.refl s₁) h

end

end PipeQuery.Parser
