import PipeQuery.Proofs.Command.Grammar

/-!
# `PipeQuery.Proofs.Command.Run`: the tokens of a command

`IsRun` says which tokens are those of a command: they begin with its verb, the command has their
span, and there is no pipe among them unless an `EXPLAIN` holds commands between its brackets, for
which the same is said again. Lexemes that the grammar makes a command of are a run of it if they
end one behind the other (`IsCommand.isRun`), and so it is for pipelines (`SepBy.isRuns`).
-/

set_option autoImplicit false

namespace PipeQuery

/-! ### Runs of tokens -/

mutual

/-- The tokens are those of the command. -/
inductive IsRun : List Token → Command → Prop where
  /-- Any command that holds no other ones: no pipe is among its tokens. -/
  | plain {first last : Token} {tokens : List Token} {command : Command}
    (hverb : first.kind = .command command.verb) (hplain : command.verb ≠ .explain)
    (hlast : (first :: tokens).getLast? = some last)
    (hspan : command.span = ⟨first.span.start, last.span.stop⟩)
    (hpipes : ∀ t ∈ first :: tokens, t.kind ≠ .pipe) : IsRun (first :: tokens) command
  /-- `EXPLAIN`, with the tokens of further commands between its brackets. -/
  | explain {first opening closing : Token} {tokens : List Token} {commands : List Command}
    {inner : Span} (hverb : first.kind = .command .explain) (hopening : opening.kind = .openBracket)
    (hcommands : IsRuns tokens commands) (hclosing : closing.kind = .closeBracket)
    (hinner : Command.spanOf? commands = some inner) :
    IsRun (first :: opening :: (tokens ++ [closing]))
      (.explain commands inner ⟨first.span.start, closing.span.stop⟩)

/-- The tokens are those of the commands, one at least, with a pipe between neighbours. -/
inductive IsRuns : List Token → List Command → Prop where
  | one {tokens : List Token} {command : Command} (h : IsRun tokens command) :
    IsRuns tokens [command]
  | more {pipe : Token} {tokens tokens' : List Token} {command : Command}
    {commands : List Command} (h : IsRun tokens command) (hpipe : pipe.kind = .pipe)
    (rest : IsRuns tokens' commands) : IsRuns (tokens ++ pipe :: tokens') (command :: commands)

end

namespace Parser

/-! ### Lexemes without a pipe -/

/-- No lexeme is a pipe. -/
def NoPipe (w : List Lexeme) : Prop :=
  ∀ l ∈ w, l.token.kind ≠ .pipe

/-- No lexemes have no pipe among them. -/
@[simp]
theorem noPipe_nil : NoPipe [] :=
  fun _ h => absurd h List.not_mem_nil

/-- A pipe among lexemes is the first one or stands behind it. -/
@[simp]
theorem noPipe_cons {l : Lexeme} {w : List Lexeme} :
    NoPipe (l :: w) ↔ l.token.kind ≠ .pipe ∧ NoPipe w := by
  simp [NoPipe]

/-- There is no pipe in two stretches of lexemes just if there is none in either. -/
@[simp]
theorem noPipe_append {w w' : List Lexeme} : NoPipe (w ++ w') ↔ NoPipe w ∧ NoPipe w' := by
  simp [NoPipe, or_imp, forall_and]

/-- In a list there is no pipe if there is none in its items and its separator is not one. -/
theorem SepBy.noPipe {α : Type} {kind : Token.Kind} {R : List Lexeme → α → Prop}
    {w : List Lexeme} {as : List α} (h : SepBy kind R w as) (hkind : kind ≠ .pipe)
    (hR : ∀ {w a}, R w a → NoPipe w) : NoPipe w := by
  induction h with
  | one h => exact hR h
  | more h hl _ ih => simp [hR h, hl, hkind, ih]

/-- An identifier is no pipe. -/
theorem IsIdentifier.noPipe {l : Lexeme} {id : Identifier} (h : IsIdentifier l id) :
    l.token.kind ≠ .pipe := by
  cases h <;> simp [*]

/-- A parameter is no pipe. -/
theorem IsParameter.noPipe {l : Lexeme} {param : Parameter} (h : IsParameter l param) :
    l.token.kind ≠ .pipe := by
  cases h <;> simp [*]

/-- A part of a name has no pipe in it. -/
theorem IsNamePart.noPipe {w : List Lexeme} {part : NamePart} (h : IsNamePart w part) :
    NoPipe w := by
  cases h with
  | identifier h => simp [h.noPipe]
  | parameter h => simp [h.noPipe]

/-- A name has no pipe in it. -/
theorem IsFieldName.noPipe {w : List Lexeme} {name : FieldName} (h : IsFieldName w name) :
    NoPipe w := by
  cases h with
  | mk h => exact h.noPipe (by simp) IsNamePart.noPipe

/-- A part of a pattern has no pipe in it. -/
theorem IsPatternPart.noPipe {w : List Lexeme} {part : PatternPart} (h : IsPatternPart w part) :
    NoPipe w := by
  cases h with
  | pattern h => simp [h]
  | parameter h => simp [h.noPipe]

/-- A field pattern has no pipe in it. -/
theorem IsFieldPattern.noPipe {w : List Lexeme} {p : FieldPattern} (h : IsFieldPattern w p) :
    NoPipe w := by
  cases h with
  | mk h => exact h.noPipe (by simp) IsPatternPart.noPipe

/-- A source is no pipe. -/
theorem IsSource.noPipe {l : Lexeme} {source : Source} (h : IsSource l source) :
    l.token.kind ≠ .pipe := by
  cases h <;> simp [*]

/-- An index pattern has no pipe in it. -/
theorem IsIndexPattern.noPipe {w : List Lexeme} {p : IndexPattern} (h : IsIndexPattern w p) :
    NoPipe w := by
  cases h with
  | plain h => simp [h.noPipe]
  | remote h hcolon h' _ _ => simp [h.noPipe, hcolon, h'.noPipe]

/-- A `NOT`, there or not, has no pipe in it. -/
theorem IsNegation.noPipe {w : List Lexeme} {negated : Bool} (h : IsNegation w negated) :
    NoPipe w := by
  cases h <;> simp [*]

/-- No expression has a pipe in it. -/
theorem Derives.noPipe {level : Level} {w : List Lexeme} {e : Expr} (h : Derives level w e) :
    NoPipe w := by
  induction h with
  | up _ _ ih => exact ih
  | chain hop _ _ _ _ ih ih' | compare hop _ _ _ ih ih' =>
      -- Operators are told by the lexeme's kind, and a pipe is none.
      have hl : ∀ {kind op}, binaryOp? kind = some op → kind ≠ .pipe := by
        rintro _ _ hop rfl
        cases hop
      simp [ih, hl hop, ih']
  | not hl _ ih => simp [hl, ih]
  | inList _ hn hl hopening hitems _ hclosing ih ih' =>
      simp [ih, hn.noPipe, hl, hopening, hitems.noPipe (by simp) (ih' _ _), hclosing]
  | like _ hn hl hpattern ih => simp [ih, hn.noPipe, hl, hpattern]
  | isNull _ hl hn hnull ih => simp [ih, hl, hn.noPipe, hnull]
  | «match» _ hl hquery ih => simp [ih, hl, hquery]
  | sign hop _ ih =>
      have hl : ∀ {kind op}, signOp? kind = some op → kind ≠ .pipe := by
        rintro _ _ hop rfl
        cases hop
      simp [hl hop, ih]
  | cast _ hl hid ih => simp [ih, hl, hid.noPipe]
  | nullWord hl | trueWord hl | falseWord hl | string hl | decimal hl | integer hl _
  | wideInteger hl _ => simp [hl]
  | quantity hl _ hunit => simp [hl, hunit]
  | parameter h => simp [h.noPipe]
  | field h _ => exact h.noPipe
  | call h hopening hclosing =>
      have := h.noPipe
      simp_all
  | callStar h hopening hstar hclosing =>
      have := h.noPipe
      simp_all
  | callWith h hopening hitems _ hclosing ih =>
      have hl := h.noPipe
      have hw := hitems.noPipe (by simp) (ih _ _)
      simp_all
  | paren hopening _ hclosing ih => simp [hopening, ih, hclosing]
  | parenList hopening hitems _ hclosing ih | bracketList hopening hitems _ hclosing ih =>
      simp [hopening, hitems.noPipe (by simp) (ih _ _), hclosing]
  | emptyList hopening hclosing => simp [hopening, hclosing]

/-- An assignment has no pipe in it. -/
theorem IsAssignment.noPipe {w : List Lexeme} {a : Assignment} (h : IsAssignment w a) :
    NoPipe w := by
  cases h with
  | plain h => exact h.noPipe
  | target hname hl h => simp [hname.noPipe, hl, h.noPipe]

/-- A clause has no pipe in it if its items have none. -/
theorem IsClause.noPipe {α : Type} {word : Keyword} {R : List Lexeme → α → Prop} {w : List Lexeme}
    {as : List α} (h : IsClause word R w as) (hR : ∀ {w a}, R w a → NoPipe w) : NoPipe w := by
  cases h with
  | absent => exact noPipe_nil
  | present hl h => simp [hl, h.noPipe (by simp) hR]

/-- A part that may be missing has no pipe in it if its items have none. -/
theorem IsOptional.noPipe {α : Type} {R : List Lexeme → α → Prop} {w : List Lexeme} {as : List α}
    (h : IsOptional R w as) (hR : ∀ {w a}, R w a → NoPipe w) : NoPipe w := by
  cases h with
  | absent => exact noPipe_nil
  | present h => exact h.noPipe (by simp) hR

/-- The parts of `STATS` have no pipe in them. -/
theorem IsStatsParts.noPipe {w : List Lexeme} {aggregations groupings : List Assignment}
    (h : IsStatsParts w aggregations groupings) : NoPipe w := by
  cases h with
  | mk haggregations hgroupings =>
      simp [haggregations.noPipe IsAssignment.noPipe, hgroupings.noPipe IsAssignment.noPipe]

/-- A source of the metadata has no pipe in it. -/
theorem IsSourceItem.noPipe {w : List Lexeme} {source : Source} (h : IsSourceItem w source) :
    NoPipe w := by
  cases h with
  | mk h => simp [h.noPipe]

/-- The metadata of a `FROM` has no pipe in it. -/
theorem IsMetadata.noPipe {w : List Lexeme} {m : Option Metadata} (h : IsMetadata w m) :
    NoPipe w := by
  cases h with
  | absent => exact noPipe_nil
  | bare hl h => simp [hl, h.noPipe (by simp) IsSourceItem.noPipe]
  | bracketed hopening hl h hclosing =>
      simp [hopening, hl, h.noPipe (by simp) IsSourceItem.noPipe, hclosing]

/-- A direction has no pipe in it. -/
theorem IsDirection.noPipe {w : List Lexeme} {d : Option Direction} (h : IsDirection w d) :
    NoPipe w := by
  cases h <;> simp [*]

/-- The order of the nulls has no pipe in it. -/
theorem IsNullsOrder.noPipe {w : List Lexeme} {n : Option NullsOrder} (h : IsNullsOrder w n) :
    NoPipe w := by
  cases h <;> simp [*]

/-- A sort key has no pipe in it. -/
theorem IsSortKey.noPipe {w : List Lexeme} {key : SortKey} (h : IsSortKey w key) : NoPipe w := by
  cases h with
  | mk h hdirection hnulls => simp [h.noPipe, hdirection.noPipe, hnulls.noPipe]

/-- A renaming has no pipe in it. -/
theorem IsRenameClause.noPipe {w : List Lexeme} {clause : RenameClause}
    (h : IsRenameClause w clause) : NoPipe w := by
  cases h with
  | as hold hl hnew _ _ => simp [hold.noPipe, hl, hnew.noPipe]
  | assign hnew hl hold _ _ => simp [hold.noPipe, hl, hnew.noPipe]

/-- An option of `DISSECT` has no pipe in it. -/
theorem IsDissectOption.noPipe {w : List Lexeme} {option : DissectOption}
    (h : IsDissectOption w option) : NoPipe w := by
  cases h with
  | mk hname hassign hvalue _ _ => simp [hname.noPipe, hassign, hvalue.noPipe]

/-- The settings of an `ENRICH` have no pipe in them. -/
theorem IsSettings.noPipe {w : List Lexeme} {settings : List Setting} (h : IsSettings w settings) :
    NoPipe w := by
  cases h with
  | absent => exact noPipe_nil
  | present h => cases h; simp [*]

/-- A policy is no pipe. -/
theorem IsPolicy.noPipe {l : Lexeme} {policy : Policy} (h : IsPolicy l policy) :
    l.token.kind ≠ .pipe := by
  cases h <;> simp [*]

/-- The field on which an `ENRICH` matches has no pipe in it. -/
theorem IsMatchField.noPipe {w : List Lexeme} {on : Option FieldPattern}
    (h : IsMatchField w on) : NoPipe w := by
  cases h with
  | absent => exact noPipe_nil
  | present hl h => simp [hl, h.noPipe]

/-- The join of a `LOOKUP` has no pipe in it. -/
theorem IsJoin.noPipe {w : List Lexeme} {join : Bool} (h : IsJoin w join) : NoPipe w := by
  cases h <;> simp [*]

/-- An added field of `ENRICH` has no pipe in it. -/
theorem IsEnrichField.noPipe {w : List Lexeme} {field : EnrichField} (h : IsEnrichField w field) :
    NoPipe w := by
  cases h with
  | plain h _ => exact h.noPipe
  | renamed hnew hl h _ _ => simp [hnew.noPipe, hl, h.noPipe]

/-- Only the commands in an `EXPLAIN` have pipes among their lexemes. -/
theorem IsBody.noPipe {item : List Lexeme → Command → Prop} {verb : Verb} {w : List Lexeme}
    {make : Span → Command} (h : IsBody item verb w make) (hverb : verb ≠ .explain) :
    NoPipe w := by
  -- Every part of a body holds no pipe; commands are parts of `EXPLAIN` only.
  cases h with
  | «from» hsources hmetadata =>
      simp [hsources.noPipe (by simp) IsIndexPattern.noPipe, hmetadata.noPipe]
  | row h | eval h => exact h.noPipe (by simp) IsAssignment.noPipe
  | showInfo hl => simp [hl]
  | explain => exact absurd rfl hverb
  | metrics hsources hparts =>
      simp [hsources.noPipe (by simp) IsIndexPattern.noPipe, hparts.noPipe]
  | «where» h => exact h.noPipe
  | stats hparts _ | inlineStats hparts _ => exact hparts.noPipe
  | sort h => exact h.noPipe (by simp) IsSortKey.noPipe
  | limit hl _ => simp [hl]
  | keep h | drop h _ => exact h.noPipe (by simp) IsFieldPattern.noPipe
  | rename h => exact h.noPipe (by simp) IsRenameClause.noPipe
  | dissect h hpattern hoptions =>
      simp [h.noPipe, hpattern, hoptions.noPipe IsDissectOption.noPipe]
  | grok h hpattern => simp [h.noPipe, hpattern]
  | enrich hsettings hpolicy hon hfields =>
      simp [hsettings.noPipe, hpolicy.noPipe, hon.noPipe, hfields.noPipe IsEnrichField.noPipe]
  | mvExpand h => exact h.noPipe
  | lookup hjoin htable hl h =>
      simp [hjoin.noPipe, htable.noPipe, hl, h.noPipe (by simp) IsFieldPattern.noPipe]
  | «match» hl => simp [hl]

/-! ### Spans of lexemes in order -/

/-- No lexeme ends before one that stands in front of it. -/
def Ordered (w : List Lexeme) : Prop :=
  w.Pairwise fun l l' => l.token.span.stop ≤ l'.token.span.stop

/-- The span over lexemes in order goes from the first to the last. -/
theorem spanOver_eq {l last : Lexeme} {w : List Lexeme} (h : Ordered (l :: w))
    (hlast : (l :: w).getLast? = some last) :
    spanOver l.token.span (l :: w) = ⟨l.token.span.start, last.token.span.stop⟩ := by
  have hle : l.token.span.stop ≤ last.token.span.stop := by
    rcases List.mem_cons.mp (List.mem_of_getLast? hlast) with rfl | hmem
    · exact Nat.le_refl _
    · exact List.rel_of_pairwise_cons h hmem
  have hstop : lastStop (l :: w) l.token.span.stop = last.token.span.stop := by
    rw [lastStop, hlast]
    rfl
  rw [spanOver, hstop, Nat.max_eq_left hle]

/-! ### From the grammar to runs -/

/-- Commands with pipes between are runs, one for each command, if each of them is one. -/
theorem SepBy.isRuns {item : List Lexeme → Command → Prop} {w : List Lexeme}
    {commands : List Command} (h : SepBy .pipe item w commands)
    (hitem : ∀ w command, item w command → Ordered w → IsRun (w.map Lexeme.token) command)
    (hw : Ordered w) : IsRuns (w.map Lexeme.token) commands := by
  induction h with
  | one h => exact .one (hitem _ _ h hw)
  | more h hpipe _ ih =>
      obtain ⟨hw, hw', -⟩ := List.pairwise_append.mp hw
      rw [List.map_append, List.map_cons]
      exact .more (hitem _ _ h hw) hpipe (ih (List.pairwise_cons.mp hw').2)

/-- The lexemes of a command are a run of it. The induction is on the nesting of `EXPLAIN`. -/
theorem IsCommand.isRun {w : List Lexeme} {command : Command} (h : IsCommand w command)
    (hw : Ordered w) : IsRun (w.map Lexeme.token) command := by
  induction h with
  | @mk l verb w make item hverb hbody _ ih =>
      -- Only `EXPLAIN` holds commands, and so pipes; what is inside is a run by induction.
      by_cases hexplain : verb = .explain
      · subst hexplain
        cases hbody with
        | @explain opening closing w commands inner hopening h hclosing hinner =>
            have hlast : (l :: opening :: (w ++ [closing])).getLast? = some closing := by
              rw [← List.cons_append, ← List.cons_append, List.getLast?_concat]
            have hinside : Ordered w := by
              obtain ⟨-, hw⟩ := List.pairwise_cons.mp hw
              obtain ⟨-, hw⟩ := List.pairwise_cons.mp hw
              exact (List.pairwise_append.mp hw).1
            rw [spanOver_eq hw hlast]
            simp only [List.map_cons, List.map_append, List.map_nil]
            exact .explain hverb hopening (h.isRuns ih hinside) hclosing hinner
      · obtain ⟨last, hlast⟩ : ∃ last, (l :: w).getLast? = some last :=
          Option.ne_none_iff_exists'.mp (by simp)
        have hlast' : (l.token :: w.map Lexeme.token).getLast? = some last.token := by
          rw [← List.map_cons, List.getLast?_map, hlast]
          rfl
        refine .plain ?_ ?_ hlast' ?_ ?_
        · rw [hbody.verb_eq]
          exact hverb
        · rwa [hbody.verb_eq]
        · -- The span ends with the last lexeme, since no lexeme in front of it reaches further.
          rw [hbody.span_eq, spanOver_eq hw hlast]
        · intro t ht
          rcases List.mem_cons.mp ht with rfl | ht
          · rw [hverb]
            simp
          · obtain ⟨l', hl', rfl⟩ := List.mem_map.mp ht
            exact hbody.noPipe hexplain l' hl'

end Parser

end PipeQuery
