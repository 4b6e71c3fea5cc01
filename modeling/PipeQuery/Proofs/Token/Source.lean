import Mathlib.Data.List.Basic
import PipeQuery.Proofs.Token.Word

/-!
# `PipeQuery.Proofs.Token.Source`: sources and policies

Two kinds of words in which one character can bring the next one with it: a slash in a source, and
the colon of a policy. Both are found again in front of a text that does not carry them on
(`source_scans`, `policy_scans`), so the character that was brought along belongs to the word.
-/

set_option autoImplicit false

namespace PipeQuery.Token.Shape

/-- A source stays inside the text. -/
theorem source_le_length (cs : List Char) : source cs ≤ cs.length := by
  induction cs using source.induct with
  | case1 => exact Nat.le_refl 0
  | case2 => simp [source]
  | case3 c rest hc => simp [source, hc]
  | case4 c rest hc ih =>
      rw [source, if_neg hc]
      simp only [List.length_cons]
      omega
  | case5 c rest hslash hslash' hc =>
      rw [source]
      · simp [hc]
      all_goals assumption
  | case6 c rest hslash hslash' hc ih =>
      rw [source]
      · rw [if_neg hc, List.length_cons]; omega
      all_goals assumption

/-- The first character that is no part of a source ends it. -/
theorem source_eq_zero {cs : List Char} (h : startsWith (fun c => !endsSource c) cs = false) :
    source cs = 0 := by
  cases cs with
  | nil => rfl
  | cons c rest =>
      have hends : endsSource c = true := by simpa using h
      have hslash : c ≠ '/' := by rintro rfl; exact absurd hends (by decide)
      rw [source]
      · rw [if_pos hends]
      · rintro rfl; exact absurd rfl hslash
      · rintro _ _ rfl; exact absurd rfl hslash

/-- Sources are scanned, carried on by all that does not end them. -/
theorem source_scans : Scans source (fun c => !endsSource c) where
  le_length := source_le_length
  cut cs tail htail := by
    induction cs using source.induct with
    | case1 => exact source_eq_zero htail
    | case2 => exact source_eq_zero htail
    | case3 c rest hc =>
        rw [source, if_pos hc]
        exact source_eq_zero htail
    -- A slash takes the next character with it, so two characters are put back at once.
    | case4 c rest hc ih =>
        rw [source, if_neg hc, List.take_succ_cons, List.take_succ_cons, List.cons_append,
          List.cons_append, source, if_neg hc, ih]
    | case5 c rest hslash hslash' hc =>
        have hzero : source (c :: rest) = 0 := by
          rw [source]
          · rw [if_pos hc]
          all_goals assumption
        rw [hzero]
        exact source_eq_zero htail
    -- Any other character is taken alone, whatever is behind it.
    | case6 c rest hslash hslash' hc ih =>
        have hc' : c ≠ '/' := by
          rintro rfl
          cases rest with
          | nil => exact hslash rfl rfl
          | cons d rest => exact hslash' d rest rfl rfl
        have hstep : ∀ rest, source (c :: rest) = source rest + 1 := fun rest => by
          rw [source]
          · rw [if_neg hc]
          · rintro rfl; exact absurd rfl hc'
          · rintro _ _ rfl; exact absurd rfl hc'
        rw [hstep, List.take_succ_cons, List.cons_append, hstep, ih]

/-- The characters that carry a policy on. -/
def carriesPolicy (c : Char) : Bool :=
  isPolicyChar c || c = ':'

/-- A colon behind a run, with names on both sides of it, belongs to the policy. -/
theorem policy_qualified {first rest : List Char} (hne : first ≠ [])
    (hfirst : ∀ c ∈ first, isPolicyChar c = true) (hrest : startsWith isPolicyChar rest = true) :
    policy (first ++ ':' :: rest) = first.length + (run isPolicyChar rest + 1) := by
  have hcolon : startsWith isPolicyChar (':' :: rest) = false := by rw [startsWith_cons]; decide
  have hlen : first.length ≠ 0 := fun h => hne (List.length_eq_zero_iff.mp h)
  simp only [policy, run_append hfirst hcolon, List.drop_left, hrest]
  simp only [ne_eq, hlen, not_false_eq_true, decide_true, Bool.and_self, if_true]
  omega

/-- Any other policy is a run. -/
theorem policy_plain {first tail : List Char} (hfirst : ∀ c ∈ first, isPolicyChar c = true)
    (htail : startsWith isPolicyChar tail = false)
    (hcolon : ∀ rest, tail = ':' :: rest → first = [] ∨ startsWith isPolicyChar rest = false) :
    policy (first ++ tail) = first.length := by
  simp only [policy, run_append hfirst htail, List.drop_left]
  split
  · rename_i rest
    rcases hcolon rest rfl with rfl | hrest
    · simp
    · simp [hrest]
  · rfl

/-- A policy stays inside the text. -/
theorem policy_le_length (cs : List Char) : policy cs ≤ cs.length := by
  have hrun := run_le_length isPolicyChar cs
  simp only [policy]
  split
  · rename_i rest hrest
    have hlen := congrArg List.length hrest
    rw [List.length_drop, List.length_cons] at hlen
    have := run_le_length isPolicyChar rest
    split <;> omega
  · exact hrun

/-- Policies are scanned, carried on by their characters. -/
theorem policy_scans : Scans policy carriesPolicy where
  le_length := policy_le_length
  cut cs tail htail := by
    -- The word is a run, and with a colon behind it perhaps another run.
    obtain ⟨first, rest, rfl, hfirst, hrest⟩ : ∃ first rest, cs = first ++ rest ∧
        (∀ c ∈ first, isPolicyChar c = true) ∧ startsWith isPolicyChar rest = false :=
      ⟨_, _, List.takeWhile_append_dropWhile.symm, fun c hc => List.mem_takeWhile_imp hc,
        startsWith_dropWhile isPolicyChar cs⟩
    have htail' : startsWith isPolicyChar tail = false :=
      startsWith_mono (fun c hc => by simp [carriesPolicy, hc]) htail
    by_cases hq : ∃ second, rest = ':' :: second ∧ first ≠ [] ∧
        startsWith isPolicyChar second = true
    · obtain ⟨second, rfl, hne, hstart⟩ := hq
      have hpolicy := policy_qualified hne hfirst hstart
      have hstart' : startsWith isPolicyChar (second.takeWhile isPolicyChar ++ tail) = true := by
        cases second with
        | nil => simp at hstart
        | cons c second => simp_all
      have hsecond : run isPolicyChar (second.takeWhile isPolicyChar ++ tail) =
          run isPolicyChar second :=
        run_append (fun c hc => List.mem_takeWhile_imp hc) htail'
      rw [hpolicy, List.take_length_add_append, List.take_succ_cons, take_run, List.append_assoc,
        List.cons_append, policy_qualified hne hfirst hstart', hsecond]
    · -- Without such a colon the word is the run, and `tail` begins with no colon either.
      have hpolicy : policy (first ++ rest) = first.length := by
        refine policy_plain hfirst hrest fun second hsecond => ?_
        by_cases hne : first = []
        · exact .inl hne
        · exact .inr (Bool.eq_false_iff.mpr fun hstart => hq ⟨second, hsecond, hne, hstart⟩)
      rw [hpolicy, List.take_left]
      refine policy_plain hfirst htail' fun second hsecond => ?_
      rw [hsecond] at htail
      exact absurd htail (by simp [carriesPolicy])

/-- If a text with a colon is one policy, what stands behind the colon is a name. -/
theorem policyName_of_policy {first rest : List Char}
    (h : policy (first ++ ':' :: rest) = (first ++ ':' :: rest).length) :
    rest ≠ [] ∧ ∀ c ∈ rest, isPolicyChar c = true := by
  obtain ⟨before, behind, hsplit, hbefore, hbehind⟩ : ∃ before behind,
      first ++ ':' :: rest = before ++ behind ∧ (∀ c ∈ before, isPolicyChar c = true) ∧
        startsWith isPolicyChar behind = false :=
    ⟨_, _, List.takeWhile_append_dropWhile.symm, fun c hc => List.mem_takeWhile_imp hc,
      startsWith_dropWhile isPolicyChar _⟩
  -- No colon is a character of policies, so the first one cuts the word in a single way.
  have hcolon : ':' ∉ before := fun hmem => absurd (hbefore _ hmem) (by decide)
  by_cases hq : ∃ name, behind = ':' :: name ∧ before ≠ [] ∧ startsWith isPolicyChar name = true
  · obtain ⟨name, rfl, hne, hstart⟩ := hq
    rw [hsplit, policy_qualified hne hbefore hstart, List.length_append, List.length_cons] at h
    have hrun : run isPolicyChar (name ++ []) = name.length := by
      rw [List.append_nil]
      omega
    have hname := (of_run_append hrun).1
    have hcolon' : ':' ∉ name := fun hmem => absurd (hname _ hmem) (by decide)
    obtain ⟨-, -, rfl⟩ := (List.append_cons_inj_of_notMem hcolon hcolon').mp hsplit.symm
    refine ⟨?_, hname⟩
    rintro rfl
    cases hstart
  · -- Otherwise the policy is what stands before the first character of another class.
    have hplain : policy (before ++ behind) = before.length := by
      refine policy_plain hbefore hbehind fun name hname => ?_
      by_cases hne : before = []
      · exact .inl hne
      · exact .inr (Bool.eq_false_iff.mpr fun hstart => hq ⟨name, hname, hne, hstart⟩)
    rw [hsplit, hplain, List.length_append] at h
    obtain rfl : behind = [] := List.length_eq_zero_iff.mp (by omega)
    rw [List.append_nil] at hsplit
    exact absurd (hsplit ▸ List.mem_append_right first List.mem_cons_self) hcolon

end PipeQuery.Token.Shape
