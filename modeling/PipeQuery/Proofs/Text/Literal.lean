import PipeQuery.Proofs.Text.Encoding

/-!
# `PipeQuery.Proofs.Text.Literal`: what a closed literal looks like

`Quoted.extent` scans for the end of a literal and `Quoted.decodeChars` reads what stands between
its quotes, each on its own. Here both are held against a description that is neither: `Unescapes`
relates what stands between the quotes to what it stands for, with no clause for a backslash that
escapes nothing, and `IsVerbatim` says where the first three closing quotes are. `of_extent_closed`
is the result: the text of a closed literal is one or the other, and decodes accordingly.
-/

set_option autoImplicit false

namespace PipeQuery.Text.Quoted

/-! ### Between single quotes -/

/-- The characters with an escape: how each is written behind the backslash, and what it is. -/
def escapes : List (Char × Char) :=
  [('t', '\t'), ('n', '\n'), ('r', '\r'), ('\x22', '\x22'), ('\\', '\\')]

/-- The characters that stand between quotes as they are. -/
def isPlain (c : Char) : Bool :=
  c ≠ '\x22' && c ≠ '\\' && !endsLine c

/-- `cs` is `ds` written between quotes. Every backslash escapes something. -/
inductive Unescapes : List Char → List Char → Prop where
  | nil : Unescapes [] []
  | escape {c d : Char} {cs ds : List Char} (h : (c, d) ∈ escapes) (rest : Unescapes cs ds) :
    Unescapes ('\\' :: c :: cs) (d :: ds)
  | plain {c : Char} {cs ds : List Char} (h : isPlain c = true) (rest : Unescapes cs ds) :
    Unescapes (c :: cs) (c :: ds)

/-- A character that may stand behind a backslash stands for some character. -/
theorem exists_escape {c : Char} (h : isEscape c = true) : ∃ d, (c, d) ∈ escapes := by
  simp only [isEscape, Bool.or_eq_true, decide_eq_true_eq] at h
  rcases h with (((rfl | rfl) | rfl) | rfl) | rfl
  · exact ⟨'\t', by decide⟩
  · exact ⟨'\n', by decide⟩
  · exact ⟨'\r', by decide⟩
  · exact ⟨'\x22', by decide⟩
  · exact ⟨'\\', by decide⟩

/-- A plain character is read as itself. -/
theorem unescape_plain {c : Char} (h : isPlain c = true) (cs : List Char) :
    unescape (c :: cs) = c :: unescape cs := by
  have hslash : c ≠ '\\' := by rintro rfl; cases h
  rw [unescape]
  all_goals simp [hslash]

/-- An escape is read as the character it stands for. -/
theorem unescape_escape {c d : Char} (h : (c, d) ∈ escapes) (cs : List Char) :
    unescape ('\\' :: c :: cs) = d :: unescape cs := by
  simp only [escapes, List.mem_cons, Prod.mk.injEq, List.not_mem_nil, or_false] at h
  rcases h with ⟨rfl, rfl⟩ | ⟨rfl, rfl⟩ | ⟨rfl, rfl⟩ | ⟨rfl, rfl⟩ | ⟨rfl, rfl⟩ <;> rfl

/-- What stands between the quotes stands for one text only, the one that is decoded. -/
theorem Unescapes.unescape_eq {cs ds : List Char} (h : Unescapes cs ds) : unescape cs = ds := by
  induction h with
  | nil => rfl
  | escape h _ ih => rw [unescape_escape h, ih]
  | plain h _ ih => rw [unescape_plain h, ih]

/-- A backslash that escaped nothing is not forgotten. -/
theorem body_bad (pending : Bool) (cs : List Char) : (body pending true cs).verdict ≠ .closed := by
  induction cs generalizing pending with
  | nil => rw [body]; decide
  | cons c rest ih =>
      rw [body]
      split
      · exact ih false
      · split
        · decide
        · split
          · decide
          · exact ih _

/-- A plain character carries the body on by one. -/
theorem body_plain {c : Char} (h : isPlain c = true) (cs : List Char) :
    body false false (c :: cs) = (body false false cs).grow 1 := by
  simp only [isPlain, Bool.and_eq_true, decide_eq_true_eq, Bool.not_eq_true'] at h
  simp [body, h]

/-- An escape carries the body on by two. -/
theorem body_escape {c : Char} (h : isEscape c = true) (cs : List Char) :
    body false false ('\\' :: c :: cs) = (body false false cs).grow 2 := by
  rw [body, Bool.false_and, if_neg Bool.false_ne_true, if_neg (by decide), if_neg (by decide), body,
    h]
  rfl

/-- A body with an unknown escape in it is not closed. -/
theorem body_not_escape {c : Char} (h : ¬ isEscape c = true) (cs : List Char) :
    (body false false ('\\' :: c :: cs)).verdict ≠ .closed := by
  have hquote : c ≠ '\x22' := by rintro rfl; exact h rfl
  rw [body, Bool.false_and, if_neg Bool.false_ne_true, if_neg (by decide), if_neg (by decide), body,
    Bool.eq_false_iff.mpr h, Bool.and_false, if_neg Bool.false_ne_true, if_neg hquote]
  split
  · decide
  · exact body_bad _ cs

/-- A literal that is closed ends with its first quote that is not escaped. The recursion is on the
text, two characters at a time where a backslash stands. -/
theorem of_body_closed : ∀ {cs : List Char}, (body false false cs).verdict = .closed →
    ∃ inner rest ds, cs = inner ++ '\x22' :: rest ∧ Unescapes inner ds ∧
      (body false false cs).length = inner.length + 1
  | [], h => nomatch h
  | c :: cs, h => by
      by_cases hplain : isPlain c = true
      · rw [body_plain hplain] at h ⊢
        obtain ⟨inner, rest, ds, rfl, hinner, hlength⟩ := of_body_closed h
        exact ⟨c :: inner, rest, c :: ds, rfl, .plain hplain hinner, congrArg (· + 1) hlength⟩
      · by_cases hquote : c = '\x22'
        · subst hquote
          exact ⟨[], cs, [], rfl, .nil, rfl⟩
        · by_cases hslash : c = '\\'
          · -- A backslash is followed by something, and escapes it, or the literal is not closed.
            subst hslash
            match cs, h with
            | d :: cs, h =>
                by_cases hescape : isEscape d = true
                · rw [body_escape hescape] at h ⊢
                  obtain ⟨inner, rest, ds, rfl, hinner, hlength⟩ := of_body_closed h
                  obtain ⟨e, he⟩ := exists_escape hescape
                  exact ⟨'\\' :: d :: inner, rest, e :: ds, rfl, .escape he hinner,
                    congrArg (· + 2) hlength⟩
                · exact absurd h (body_not_escape hescape cs)
          · have hline : endsLine c = true := by simpa [isPlain, hquote, hslash] using hplain
            rw [body, Bool.false_and, if_neg Bool.false_ne_true, if_pos hline] at h
            cases h

/-! ### Between triple quotes -/

/-- What a verbatim literal begins with. -/
def triple : List Char :=
  ['\x22', '\x22', '\x22']

/-- Three quotes are the start of a text that begins with them. -/
theorem isTriple_iff (cs : List Char) : isTriple cs = true ↔ triple <+: cs := by
  constructor
  · intro h
    unfold isTriple at h
    split at h
    · exact List.prefix_append triple _
    · cases h
  · rintro ⟨rest, rfl⟩
    rfl

/-- Up to two quotes are counted, and no third: fewer are all that there are. -/
theorem extraQuotes_spec (cs : List Char) :
    ∃ behind, cs = List.replicate (extraQuotes cs) '\x22' ++ behind ∧ extraQuotes cs ≤ 2 ∧
      (extraQuotes cs < 2 → behind.head? ≠ some '\x22') := by
  unfold extraQuotes
  split
  case h_1 rest => exact ⟨rest, rfl, Nat.le_refl 2, fun h => absurd h (Nat.lt_irrefl 2)⟩
  case h_2 rest hmore =>
    refine ⟨rest, rfl, Nat.le_succ 1, fun _ hhead => ?_⟩
    obtain ⟨behind, rfl⟩ := List.head?_eq_some_iff.mp hhead
    exact hmore behind rfl
  case h_3 _ hnone =>
    refine ⟨cs, rfl, Nat.zero_le 2, fun _ hhead => ?_⟩
    obtain ⟨behind, rfl⟩ := List.head?_eq_some_iff.mp hhead
    exact hnone behind rfl

/-- A verbatim literal that is closed ends with the first three quotes, on the line it began on. -/
theorem of_verbatim_closed {cs : List Char} (h : (verbatim cs).verdict = .closed) :
    ∃ inner rest, cs = inner ++ (triple ++ rest) ∧ ¬ triple <:+: inner ++ ['\x22', '\x22'] ∧
      (∀ c ∈ inner, endsLine c = false) ∧
      (verbatim cs).length = inner.length + (3 + extraQuotes rest) := by
  induction cs using verbatim.induct with
  | case1 => cases h
  | case2 rest =>
      refine ⟨[], rest, rfl, by decide, by simp, ?_⟩
      rw [verbatim, List.length_nil, Nat.zero_add]
  | case3 c rest hopen hline =>
      rw [verbatim, if_pos hline] at h
      · cases h
      · exact hopen
  | case4 c rest hopen hline ih =>
      have hstep : verbatim (c :: rest) = (verbatim rest).grow 1 := by
        rw [verbatim, if_neg hline]
        exact hopen
      rw [hstep, Extent.grow_verdict] at h
      obtain ⟨inner, behind, rfl, hfirst, hlines, hlength⟩ := ih h
      refine ⟨c :: inner, behind, rfl, fun hinfix => ?_, ?_, ?_⟩
      · rcases List.infix_cons_iff.mp hinfix with hstart | hinfix
        · -- Three quotes that begin with `c` would have been found there.
          obtain ⟨hc, hprefix⟩ := List.cons_prefix_cons.mp hstart
          have hlonger : inner ++ ['\x22', '\x22'] <+: inner ++ (triple ++ behind) :=
            (List.prefix_append_right_inj inner).mpr
              (List.prefix_append ['\x22', '\x22'] ('\x22' :: behind))
          obtain ⟨tail, htail⟩ := List.IsPrefix.trans hprefix hlonger
          exact hopen tail hc.symm htail.symm
        · exact hfirst hinfix
      · intro d hd
        rcases List.mem_cons.mp hd with rfl | hd
        · exact Bool.eq_false_iff.mpr hline
        · exact hlines d hd
      · rw [hstep, Extent.grow_length, hlength, List.length_cons]
        omega

/-! ### Closed literals -/

/-- A text between single quotes: it is what it decodes to, with every character escaped that needs
it and no other. -/
def IsEscaped (cs : List Char) : Prop :=
  ∃ inner, cs = '\x22' :: (inner ++ ['\x22']) ∧ Unescapes inner (decodeChars cs)

/-- A text between triple quotes, in front of the text `behind`: `inner` is what stands before the
first three quotes that may close it, and the `extra` quotes right behind these belong to it. -/
structure IsVerbatim (cs behind : List Char) : Prop where
  ends : ∃ inner extra, cs = triple ++ (inner ++ (triple ++ List.replicate extra '\x22')) ∧
    ¬ triple <:+: inner ++ ['\x22', '\x22'] ∧ extra ≤ 2 ∧
    (extra < 2 → behind.head? ≠ some '\x22')
  on_line : ∀ c ∈ cs, endsLine c = false
  decode_eq : cs = triple ++ (decodeChars cs ++ triple)

/-- Between single quotes the escapes are read. -/
theorem decodeChars_escaped (inner : List Char) (h : ¬ triple <+: '\x22' :: (inner ++ ['\x22'])) :
    decodeChars ('\x22' :: (inner ++ ['\x22'])) = unescape inner := by
  rw [decodeChars, if_neg (fun htriple => h ((isTriple_iff _).mp htriple))]
  show unescape (dropTail ['\x22'] (inner ++ ['\x22'])) = unescape inner
  rw [dropTail_append]

/-- Between triple quotes the text is taken as it is. -/
theorem decodeChars_verbatim (inner : List Char) :
    decodeChars (triple ++ (inner ++ triple)) = inner := by
  show dropTail triple (inner ++ triple) = inner
  rw [dropTail_append]

/-- Of the quotes at the end of a verbatim literal the last three close it. -/
theorem triple_append_replicate (n : Nat) :
    triple ++ List.replicate n '\x22' = List.replicate n '\x22' ++ triple := by
  have htriple : triple = List.replicate 3 '\x22' := rfl
  rw [htriple, List.replicate_append_replicate, List.replicate_append_replicate, Nat.add_comm]

/-- A triple-quoted string that was closed is one of the rules. -/
theorem isVerbatim_of_closed {cs : List Char} (h : (verbatim cs).verdict = .closed) :
    IsVerbatim (triple ++ cs.take (verbatim cs).length) (cs.drop (verbatim cs).length) := by
  obtain ⟨inner, rest, rfl, hfirst, hlines, hlength⟩ := of_verbatim_closed h
  obtain ⟨behind, hrest, htwo, hmore⟩ := extraQuotes_spec rest
  generalize extraQuotes rest = extra at hrest hlength htwo hmore
  subst hrest
  -- Up to two quotes behind the first three close the literal along with them.
  have hsplit : inner ++ (triple ++ (List.replicate extra '\x22' ++ behind)) =
      (inner ++ (triple ++ List.replicate extra '\x22')) ++ behind := by
    simp only [List.append_assoc]
  have htaken : (verbatim (inner ++ (triple ++ (List.replicate extra '\x22' ++ behind)))).length =
      (inner ++ (triple ++ List.replicate extra '\x22')).length := by
    rw [hlength, List.length_append, List.length_append, List.length_replicate]
    rfl
  rw [htaken, hsplit, List.take_left, List.drop_left]
  refine ⟨⟨inner, extra, rfl, hfirst, htwo, hmore⟩, fun c hc => ?_, ?_⟩
  · have hquotes : ∀ n, c ∈ List.replicate n '\x22' → endsLine c = false := fun n hc =>
      List.eq_of_mem_replicate hc ▸ rfl
    rcases List.mem_append.mp hc with hc | hc
    · exact hquotes 3 hc
    · rcases List.mem_append.mp hc with hc | hc
      · exact hlines c hc
      · rcases List.mem_append.mp hc with hc | hc
        · exact hquotes 3 hc
        · exact hquotes extra hc
  · rw [triple_append_replicate, ← List.append_assoc inner, decodeChars_verbatim]

/-- A string between single quotes that was closed is one of the rules. -/
theorem isEscaped_of_closed {cs : List Char} (h : (body false false cs).verdict = .closed)
    (hsingle : ¬ triple <+: '\x22' :: cs) :
    IsEscaped ('\x22' :: cs.take (body false false cs).length) := by
  obtain ⟨inner, rest, ds, rfl, hinner, hlength⟩ := of_body_closed h
  have htaken : (inner ++ '\x22' :: rest).take (inner.length + 1) = inner ++ ['\x22'] := by
    rw [List.take_append, List.take_of_length_le (Nat.le_succ _), Nat.add_sub_cancel_left]
    rfl
  have hprefix : '\x22' :: (inner ++ ['\x22']) <+: '\x22' :: (inner ++ '\x22' :: rest) :=
    ⟨rest, by simp⟩
  rw [hlength, htaken]
  refine ⟨inner, rfl, ?_⟩
  rw [decodeChars_escaped inner fun htriple => hsingle (htriple.trans hprefix), hinner.unescape_eq]
  exact hinner

/-- A closed literal that begins with three quotes is verbatim, and in any other every backslash
escapes something. -/
theorem of_extent_closed {cs : List Char} (h : (extent cs).verdict = .closed)
    (hopened : cs.head? = some '\x22') :
    (triple <+: cs.take (extent cs).length →
      IsVerbatim (cs.take (extent cs).length) (cs.drop (extent cs).length)) ∧
    (¬ triple <+: cs.take (extent cs).length → IsEscaped (cs.take (extent cs).length)) := by
  obtain ⟨cs, rfl⟩ := List.head?_eq_some_iff.mp hopened
  by_cases htriple : triple <+: '\x22' :: cs
  · -- The quotes that the text begins with are in the literal.
    obtain ⟨rest, hrest⟩ := htriple
    obtain rfl : cs = '\x22' :: '\x22' :: rest := (List.cons.inj hrest).2.symm
    have hclosed : (verbatim rest).verdict = .closed := h
    constructor
    · intro _
      exact isVerbatim_of_closed hclosed
    · intro hsingle
      exact absurd (List.prefix_append triple _) hsingle
  · -- The literal is a prefix of the text and has no three quotes in front that the text has not.
    have hextent : extent ('\x22' :: cs) = (body false false cs).grow 1 := by
      rw [extent, if_neg (fun h => htriple ((isTriple_iff _).mp h))]
      rfl
    rw [hextent] at h ⊢
    constructor
    · intro hstart
      exact absurd (hstart.trans (List.take_prefix _ _)) htriple
    · intro _
      exact isEscaped_of_closed h htriple

end PipeQuery.Text.Quoted
