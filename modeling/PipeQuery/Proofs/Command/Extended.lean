import PipeQuery.Proofs.Command.Carried
import PipeQuery.Proofs.Command.Pipeline

/-!
# `PipeQuery.Proofs.Command.Extended`: a pipeline with more text behind it

A pipeline that is read without a report is read as the same commands when a pipe and more lexemes
stand behind it. Its last command ends at the pipe as it ended with the text. An `EXPLAIN` in it has
its closing bracket there, so the pipelines that are held in others end where they did, and
`Chain.extend` has what is read in a row at each level. It is enough to look at what is read without
a report: behind an error a command may go on into the text behind.
-/

set_option autoImplicit false

namespace PipeQuery.Parser

variable {e : Embedding} {c c' : Context} {n : Nat} {s s' s₁ : State}

namespace Embedding

/-- A success over the text is one over the longer text. -/
theorem Agrees.of_ok {α : Type} {R : α → α → Prop} {p p' : Parse α} {a : α}
    (h : e.Agrees n R (p c s) (p' c' s')) (hok : p c s = (.ok a, s₁)) :
    ∃ b s₁', p' c' s' = (.ok b, s₁') ∧ R a b ∧ e.States n s₁ s₁' := by
  obtain ⟨hresults, hstates⟩ := h
  rw [hok] at hresults hstates
  generalize p' c' s' = o' at hresults hstates
  obtain ⟨result, s₁'⟩ := o'
  cases hresults with
  | ok hab => exact ⟨_, s₁', rfl, hab, hstates⟩

/-- A clean state has a clean one beside it, if diagnostics are traced. -/
theorem States.isClean (h : e.States n s s') (htraced : e.traced) (hclean : s.IsClean) :
    s'.IsClean := by
  rcases h.recorded htraced with hall | ⟨-, hdirty⟩
  · rw [State.IsClean] at hclean
    rw [hclean] at hall
    exact List.forall₂_nil_left_iff.mp hall
  · exact absurd hclean hdirty

/-- What is read without a report is read in the longer text. -/
def FollowsCommand (e : Embedding) (c c' : Context) (read : Parse Command) : Prop :=
  ∀ ⦃m s s' l l'⦄, e.Front m s s' l l' → ∀ ⦃command s₁⦄, read c s = (.ok command, s₁) → s₁.IsClean →
    e.Agrees m (Image (Command.mapSpans (.shift e.offset))) (read c s) (read c' s')

/-- The same of a pipeline in brackets, which ends at its bracket. -/
def FollowsPipeline (e : Embedding) (c c' : Context) (read : Parse (List Command)) : Prop :=
  ∀ ⦃n s s'⦄, e.States n s s' → ∀ ⦃commands s₁⦄, read c s = (.ok commands, s₁) → s₁.IsClean →
    s₁.kindAt 0 = .closeBracket →
    e.Agrees n (Image (List.map (Command.mapSpans (.shift e.offset)))) (read c s) (read c' s')

end Embedding

open PipeQuery.Parser.Embedding

/-- A chain of commands is one in the longer text. -/
theorem Chain.extend {R : List Lexeme → Command → Prop} {read : Parse Command}
    (hread : ReadsClean c R read) (hfollows : e.FollowsCommand c c' read) {inBrackets : Bool}
    {commands : List Command} (h : Chain read inBrackets c s commands s₁) (hclean : s₁.IsClean)
    (hs : e.States n s s') :
    ∃ s₁', Chain read inBrackets c' s' (commands.map (Command.mapSpans (.shift e.offset))) s₁' ∧
      e.States n s₁ s₁' := by
  -- In front of a command there is a lexeme, which is in front of it in the longer text as well.
  have hfront : ∀ {n s s'}, e.States n s s' → StartsCommand inBrackets s →
      ∃ m l l', n = m + 1 ∧ e.Front m s s' l l' ∧ StartsCommand inBrackets s' := by
    intro n s s' hs hstart
    rcases hs.front_or_end with ⟨m, l, l', hm, hfront, -⟩ | ⟨hrest, -⟩
    · refine ⟨m, l, l', hm, hfront, ?_⟩
      obtain ⟨hkind, hkind'⟩ := hfront.kindAt_zero
      rwa [StartsCommand, EndsPipeline, hkind', ← hkind]
    · exact absurd (.inl (hs.kindAt_end hrest).1) hstart.1
  induction h generalizing n s' with
  | one hstart h =>
      obtain ⟨m, l, l', rfl, hfront, hstart'⟩ := hfront hs hstart
      obtain ⟨_, s₁', hread', rfl, hs₁⟩ := (hfollows hfront h hclean).of_ok h
      exact ⟨s₁', .one hstart' hread', hs₁.mono (Nat.le_succ m)⟩
  | @more s s₁ s₂ pipe rest command commands hstart h hrest hpipe hbehind ih =>
      obtain ⟨w, hmoves, -⟩ := hbehind.moves hread hclean
      have hpast : Moves s₁ [pipe] (s₁.past [pipe]) := .past hrest
      have hclean₁ : s₁.IsClean := hpast.isClean (hmoves.isClean hclean)
      obtain ⟨m, l, l', rfl, hfront, hstart'⟩ := hfront hs hstart
      obtain ⟨_, s₁', hread', rfl, hs₁⟩ := (hfollows hfront h hclean₁).of_ok h
      -- The pipe between two commands is a lexeme of the text.
      rcases hs₁.front_or_end with ⟨m, l, l', rfl, hfront₁, -⟩ | ⟨hnil, -⟩
      · obtain ⟨r, hr⟩ := hfront₁.rest
        obtain ⟨r', hr'⟩ := hfront₁.rest'
        obtain rfl : l = pipe := (List.cons.inj (hr.symm.trans hrest)).1
        obtain ⟨s₂', hchain, hs₂⟩ := ih hclean hfront₁.past
        exact ⟨s₂', .more hstart' hread' hr' (hfront₁.moved.kind_eq.trans hpipe) hchain,
          hs₂.mono (by omega)⟩
      · rw [hnil] at hrest
        cases hrest

namespace Embedding

/-- A command that the shorter text reads without a diagnostic is read in the longer one as well. -/
theorem command_follows (hc : e.Contexts c c') (herr : c.errorStarts = [])
    {explained : Parse (List Command)} (hexplained : e.FollowsPipeline c c' explained)
    (levels : Nat) : e.FollowsCommand c c' (command (expressionAt levels) explained) := by
  intro m s s' l l' hfront command s₁ hok hclean
  have hsub := expressionAt_carries hc levels
  refine (command_agrees hc hsub hfront fun hkind => ?_).resolve_right ?_
  · obtain ⟨r, hrest⟩ := hfront.rest
    have hexplain : explainCommand explained c s = (.ok command, s₁) := by
      rw [← hok, Parser.command, bind_apply_of_ok (current_apply hrest), hkind]
    obtain ⟨opening, s₂, commands, s₃, closing, hopening, hcommands, -, hclosing, hmoves, -⟩ :=
      explainCommand_parts herr hrest hexplain hclean
    refine explainCommand_agrees hc hfront fun {_ s₂' _} hopening' hs => ?_
    obtain ⟨-, rfl⟩ := Prod.mk.inj (hopening.symm.trans hopening')
    refine hexplained hs hcommands (hmoves.isClean hclean) ?_
    rw [kindAt_eq, hmoves.rest_eq]
    exact hclosing
  · rintro ⟨d, d', hstop, -⟩
    rw [hstop] at hok
    cases hok

/-- What an `EXPLAIN` holds is read in the longer text, with any number of levels of nesting
left. -/
theorem explained_follows (hc : e.Contexts c c') (herr : c.errorStarts = []) (headroom : Nat) :
    e.FollowsPipeline c c' (explained headroom) := by
  induction headroom with
  | zero =>
      intro n s s' _ commands s₁ h
      simp only [explained, tooDeep, bind_ok, stop_ok, and_false, exists_false] at h
  | succ headroom ih =>
      intro n s s' hs commands s₁ h hclean hclosing
      have hread : ReadsClean c IsCommand _ := commandAt_ok hc.eof herr headroom
      obtain ⟨s₂, hpipeline, rfl⟩ := deeper_ok h
      have hs := hs.deeper
      refine Agrees.deeper ?_
      rw [pipeline, bind_apply_of_ok remaining_apply] at hpipeline
      rw [pipeline, bind_apply_of_ok remaining_apply, bind_apply_of_ok remaining_apply, hpipeline]
      obtain ⟨-, ⟨rfl, rfl⟩ | hchain⟩ := chain_of_stages herr hread (le_refl _) hpipeline hclean
      · -- Nothing between the brackets: the closing one is ahead in the longer text as well.
        have hends' : EndsPipeline true { s' with depth := s'.depth + 1 } :=
          .inr ⟨rfl, (hs.kindAt_iff (by decide)).mpr hclosing⟩
        rw [stages_apply_end hends']
        exact ⟨.ok rfl, hs⟩
      · obtain ⟨s₂', hchain', hs₂⟩ :=
          hchain.extend hread (command_follows hc herr ih headroom) hclean hs
        have hends' : EndsPipeline true s₂' :=
          .inr ⟨rfl, (hs₂.kindAt_iff (by decide)).mpr hclosing⟩
        have hlength := (hchain.length_le hread hclean).trans hs.length_le
        rw [hchain'.stages_apply hends' (by rwa [List.length_map])]
        exact ⟨.ok rfl, hs₂⟩

end Embedding

/-- The pipeline of a text that is read without a report, as it is read in the longer text: the same
commands, up to what stands behind the text. -/
theorem wholePipeline_extend (hc : e.Contexts c c') (htraced : e.traced)
    (herr : c.errorStarts = []) {maxDepth : Nat} {commands : List Command} (hs : e.States n s s')
    (hkinds : ∀ l ∈ s.rest, l.token.kind ≠ .eof)
    (h : wholePipeline maxDepth c s = (.ok commands, s₁)) (hclean : s₁.IsClean)
    (hne : commands ≠ []) :
    commands.length ≤ s.rest.length ∧ ∃ s₁',
      Chain (command (expressionAt maxDepth) (explained maxDepth)) false c' s'
        (commands.map (Command.mapSpans (.shift e.offset))) s₁' ∧
      s₁'.rest = e.behind ∧ s₁'.IsClean := by
  have hread : ReadsClean c IsCommand _ := commandAt_ok hc.eof herr maxDepth
  rw [wholePipeline, pipeline, bind_apply_of_ok remaining_apply] at h
  obtain ⟨hends, ⟨rfl, -⟩ | hchain⟩ := chain_of_stages herr hread (le_refl _) h hclean
  · exact absurd rfl hne
  · obtain ⟨w, hmoves, -⟩ := hchain.moves hread hclean
    -- At the top no bracket ends a pipeline, so all lexemes have been read.
    have hrest : s₁.rest = [] := by
      refine rest_eq_nil_of_endsPipeline (fun l hl => hkinds l ?_) hends
      rw [hmoves.rest_eq]
      exact List.mem_append_right _ hl
    obtain ⟨s₁', hchain', hs₁⟩ := hchain.extend hread
      (command_follows hc herr (explained_follows hc herr maxDepth) maxDepth) hclean hs
    refine ⟨hchain.length_le hread hclean, s₁', hchain', ?_, hs₁.isClean htraced hclean⟩
    obtain ⟨w', hrest', hmoved⟩ := hs₁.rest
    rw [hrest] at hmoved
    rw [hrest', List.forall₂_nil_left_iff.mp hmoved, List.nil_append]

end PipeQuery.Parser
