import PipeQuery.Proofs.Token.Reading

/-!
# `PipeQuery.Proofs.Token.Filter`: what stands between two default tokens

A filter keeps the places of the default tokens and answers with the part of the list between two
of them. Nothing of that part is left out, and so it holds hidden tokens only just if no default
token stands between the two:

    shown_hiddenBetween         the default tokens between the two are all in the answer
    forall_isHidden_iff         the answer is of hidden tokens just if the two are neighbours
    exists_between              the list is put together from the answer and what is around it
    exists_append_interleaved   neighbours and the answers between them make up the list
    spaced_iff                  a lexeme is spaced just if its answer is not empty

The first three are joined in `separates`. The last is what the parser asks, which looks at the
lexemes and not at the places.

All of it is said by dividing the list at a default token (`DividesAt`). How many default tokens
stand in front of one is its number, and how many tokens do is its place (`DividesAt.place?_eq`),
so a list divides at a number in one way (`DividesAt.unique`).
-/

set_option autoImplicit false

namespace PipeQuery.TokenFilter

variable {f : TokenFilter} {i j n : Nat} {tokens front between back : List Token} {s t : Token}

/-! ### The default tokens of a list -/

/-- The default tokens of a list. -/
def shown (tokens : List Token) : List Token :=
  tokens.filter fun t => !t.isHidden

/-- The default tokens of a list are those of its parts. -/
theorem shown_append (front back : List Token) :
    shown (front ++ back) = shown front ++ shown back :=
  List.filter_append front back

/-- A default token is among those of the list. -/
theorem shown_cons (h : t.isHidden = false) (tokens : List Token) :
    shown (t :: tokens) = t :: shown tokens :=
  List.filter_cons_of_pos (by rw [h]; rfl)

/-- A hidden token is not. -/
theorem shown_cons_hidden (h : t.isHidden = true) (tokens : List Token) :
    shown (t :: tokens) = shown tokens :=
  List.filter_cons_of_neg (by rw [h]; decide)

/-- A list has no default tokens just if all are hidden. -/
theorem shown_eq_nil_iff : shown tokens = [] ↔ ∀ t ∈ tokens, t.isHidden = true := by
  rw [shown, List.filter_eq_nil_iff]
  exact forall₂_congr fun t _ => by cases t.isHidden <;> decide

/-- The places of the default tokens in a list whose first token has a given place. -/
def placesFrom (start : Nat) (tokens : List Token) : List Nat :=
  ((tokens.zipIdx start).filter fun (t, _) => !t.isHidden).map Prod.snd

/-- The place of a default token is kept. -/
theorem placesFrom_cons (h : t.isHidden = false) (start : Nat) (tokens : List Token) :
    placesFrom start (t :: tokens) = start :: placesFrom (start + 1) tokens := by
  rw [placesFrom, List.zipIdx_cons, List.filter_cons_of_pos (by simp [h]), List.map_cons]
  rfl

/-- The place of a hidden token is not. -/
theorem placesFrom_cons_hidden (h : t.isHidden = true) (start : Nat) (tokens : List Token) :
    placesFrom start (t :: tokens) = placesFrom (start + 1) tokens := by
  rw [placesFrom, List.zipIdx_cons, List.filter_cons_of_neg (by simp [h])]
  rfl

/-- The places of a list are those of its parts. -/
theorem placesFrom_append (start : Nat) (front back : List Token) :
    placesFrom start (front ++ back) =
      placesFrom start front ++ placesFrom (start + front.length) back := by
  rw [placesFrom, List.zipIdx_append, List.filter_append, List.map_append]
  rfl

/-- There are as many places as default tokens. -/
theorem length_placesFrom (start : Nat) (tokens : List Token) :
    (placesFrom start tokens).length = (shown tokens).length := by
  -- On the tokens, with the start free: the places behind a token begin one later.
  induction tokens generalizing start with
  | nil => rfl
  | cons t tokens ih =>
      cases h : t.isHidden with
      | true => rw [placesFrom_cons_hidden h, shown_cons_hidden h, ih]
      | false => rw [placesFrom_cons h, shown_cons h, List.length_cons, List.length_cons, ih]

/-- A filter is as long as it has default tokens. -/
theorem length_eq (f : TokenFilter) : f.length = (shown f.all).length :=
  length_placesFrom 0 f.all

/-! ### A list divided at a default token -/

/-- The `i`-th default token of a list, with what is in front of it and what is behind. -/
structure DividesAt (tokens : List Token) (i : Nat) (front : List Token) (t : Token)
    (back : List Token) : Prop where
  append_eq : front ++ t :: back = tokens
  isHidden_eq : t.isHidden = false
  length_shown : (shown front).length = i

/-- There are as many ways to divide a list as it has default tokens. -/
theorem exists_dividesAt (h : i < (shown tokens).length) :
    ∃ front t back, DividesAt tokens i front t back := by
  -- A hidden token in front changes no number, a default one is the first or makes the others one
  -- later.
  induction tokens generalizing i with
  | nil => exact absurd h (Nat.not_lt_zero i)
  | cons t tokens ih =>
      cases hhidden : t.isHidden with
      | true =>
          rw [shown_cons_hidden hhidden] at h
          obtain ⟨front, s, back, rfl, hs, hlength⟩ := ih h
          exact ⟨t :: front, s, back, rfl, hs, by rw [shown_cons_hidden hhidden, hlength]⟩
      | false =>
          rw [shown_cons hhidden, List.length_cons] at h
          cases i with
          | zero => exact ⟨[], t, tokens, rfl, hhidden, rfl⟩
          | succ i =>
              obtain ⟨front, s, back, rfl, hs, hlength⟩ := ih (Nat.lt_of_succ_lt_succ h)
              exact ⟨t :: front, s, back, rfl, hs,
                by rw [shown_cons hhidden, List.length_cons, hlength]⟩

namespace DividesAt

/-- The default tokens are those in front, the one itself and those behind. -/
theorem shown_eq (h : DividesAt tokens i front t back) :
    shown tokens = shown front ++ t :: shown back := by
  rw [← h.append_eq, shown_append, shown_cons h.isHidden_eq]

/-- The place of a default token is the number of tokens in front of it. -/
theorem place?_eq (h : DividesAt f.all i front t back) : f.place? i = some front.length := by
  have hplaces : f.places =
      placesFrom 0 front ++ front.length :: placesFrom (front.length + 1) back := by
    show placesFrom 0 f.all = _
    rw [← h.append_eq, placesFrom_append, placesFrom_cons h.isHidden_eq, Nat.zero_add]
  have hlength : (placesFrom 0 front).length = i := by rw [length_placesFrom, h.length_shown]
  rw [place?, hplaces, List.getElem?_append_right (Nat.le_of_eq hlength), hlength, Nat.sub_self]
  rfl

/-- The token of a number is the one that the list divides at. -/
theorem get?_eq (h : DividesAt f.all i front t back) : f.get? i = some t := by
  rw [get?, h.place?_eq, Option.bind_some, ← h.append_eq,
    List.getElem?_append_right (Nat.le_refl _), Nat.sub_self]
  rfl

/-- The number says which token it is, and so what is in front and what is behind. -/
theorem unique {front' back' : List Token} (h : DividesAt f.all i front t back)
    (h' : DividesAt f.all i front' s back') : front = front' ∧ t = s ∧ back = back' := by
  have hlength : front.length = front'.length :=
    Option.some.inj (h.place?_eq.symm.trans h'.place?_eq)
  obtain ⟨hfront, hrest⟩ := List.append_inj (h.append_eq.trans h'.append_eq.symm) hlength
  obtain ⟨ht, hback⟩ := List.cons.inj hrest
  exact ⟨hfront, ht, hback⟩

/-- To divide what is behind is to divide the list further on. -/
theorem append {rest : List Token} (h : DividesAt tokens i front s rest)
    (h' : DividesAt rest n between t back) :
    DividesAt tokens (i + 1 + n) (front ++ s :: between) t back where
  append_eq := by rw [List.append_assoc, List.cons_append, h'.append_eq, h.append_eq]
  isHidden_eq := h'.isHidden_eq
  length_shown := by
    rw [shown_append, shown_cons h.isHidden_eq, List.length_append, List.length_cons,
      h.length_shown, h'.length_shown]
    omega

/-- Between two default tokens stands what is behind the first and in front of the second. -/
theorem hiddenBetween_eq (h : DividesAt f.all i front s (between ++ t :: back))
    (h' : DividesAt f.all j (front ++ s :: between) t back) : f.hiddenBetween i j = between := by
  have hlt : front.length < (front ++ s :: between).length := by
    rw [List.length_append, List.length_cons]
    omega
  have htake : f.all.take (front ++ s :: between).length = front ++ s :: between := by
    rw [← h'.append_eq, List.take_left]
  have hdrop : (front ++ s :: between).drop (front.length + 1) = between := by
    rw [← List.drop_drop, List.drop_left]
    rfl
  simp only [hiddenBetween, h.place?_eq, h'.place?_eq]
  rw [if_pos hlt, htake, hdrop]

end DividesAt

/-! ### Between two default tokens -/

/-- The list is put together from what is between two default tokens and what is around it. -/
theorem exists_between (hij : i < j) (hj : j < f.length) :
    ∃ front s t back, DividesAt f.all i front s (f.hiddenBetween i j ++ t :: back) ∧
      DividesAt f.all j (front ++ s :: f.hiddenBetween i j) t back := by
  rw [length_eq] at hj
  -- The list divides at the first of the two, and then what is behind it at the second, which is
  -- counted from there.
  obtain ⟨front, s, rest, hs⟩ := exists_dividesAt (Nat.lt_trans hij hj)
  have hrest : j - (i + 1) < (shown rest).length := by
    rw [hs.shown_eq, List.length_append, List.length_cons, hs.length_shown] at hj
    omega
  obtain ⟨between, t, back, ht⟩ := exists_dividesAt hrest
  have hnumber : i + 1 + (j - (i + 1)) = j := by omega
  have ht' := hnumber ▸ hs.append ht
  rw [← ht.append_eq] at hs
  have hbetween : f.hiddenBetween i j = between := hs.hiddenBetween_eq ht'
  rw [hbetween]
  exact ⟨front, s, t, back, hs, ht'⟩

/-- The default tokens between two of them are all in the answer, and no others. -/
theorem shown_hiddenBetween (hij : i < j) (hj : j < f.length) :
    shown (f.hiddenBetween i j) = ((shown f.all).take j).drop (i + 1) := by
  obtain ⟨front, s, t, back, hs, ht⟩ := exists_between hij hj
  have htake : (shown f.all).take j = shown front ++ s :: shown (f.hiddenBetween i j) := by
    rw [ht.shown_eq, List.take_left' ht.length_shown, shown_append, shown_cons hs.isHidden_eq]
  rw [htake, ← hs.length_shown, ← List.drop_drop, List.drop_left]
  rfl

/-- What is between two default tokens is hidden just if they are neighbours. -/
theorem forall_isHidden_iff (hij : i < j) (hj : j < f.length) :
    (∀ t ∈ f.hiddenBetween i j, t.isHidden = true) ↔ j = i + 1 := by
  have hlength : (shown (f.hiddenBetween i j)).length = j - (i + 1) := by
    rw [shown_hiddenBetween hij hj, List.length_drop, List.length_take, ← length_eq,
      Nat.min_eq_left (Nat.le_of_lt hj)]
  rw [← shown_eq_nil_iff, ← List.length_eq_zero_iff, hlength]
  omega

/-- A default token between two others is in the answer. -/
example : let pipe : Token := ⟨.pipe, "|", ⟨0, 1⟩, 1, 1, .default⟩
    (⟨[pipe, pipe, pipe]⟩ : TokenFilter).hiddenBetween 0 2 = [pipe] := by
  decide

/-! ### The list from its default tokens -/

/-- The default tokens up to the `n`-th, with what stands between each and the next. -/
def interleaved (f : TokenFilter) : Nat → List Token
  | 0 => (f.get? 0).toList
  | n + 1 => f.interleaved n ++ f.hiddenBetween n (n + 1) ++ (f.get? (n + 1)).toList

/-- Up to the `n`-th default token the list is what is interleaved, but for what is hidden in front
of the first. -/
theorem exists_dividesAt_interleaved (hn : n < f.length) :
    ∃ leading front t back, f.interleaved n = front ++ [t] ∧ shown leading = [] ∧
      DividesAt f.all n (leading ++ front) t back := by
  induction n with
  | zero =>
      obtain ⟨leading, t, back, ht⟩ := exists_dividesAt (length_eq f ▸ hn)
      refine ⟨leading, [], t, back, ?_, List.eq_nil_of_length_eq_zero ht.length_shown, ?_⟩
      · rw [interleaved, ht.get?_eq]
        rfl
      · rwa [List.append_nil]
  | succ n ih =>
      obtain ⟨leading, front, s, rest, hfront, hleading, hs⟩ := ih (Nat.lt_of_succ_lt hn)
      obtain ⟨front', s', t, back, hs', ht⟩ := exists_between (Nat.lt_succ_self n) hn
      -- Both divide the list at the `n`-th default token, so in the same way.
      obtain ⟨rfl, rfl, -⟩ := hs.unique hs'
      refine ⟨leading, front ++ s :: f.hiddenBetween n (n + 1), t, back, ?_, hleading, ?_⟩
      · rw [interleaved, hfront, ht.get?_eq, List.append_assoc front, List.singleton_append]
        rfl
      · rwa [← List.append_assoc]

/-- The default tokens and what stands between each and the next make up the list, but for what is
hidden in front of the first and behind the last. -/
theorem exists_append_interleaved (h : f.length ≠ 0) :
    ∃ leading trailing, f.all = leading ++ f.interleaved (f.length - 1) ++ trailing ∧
      (∀ t ∈ leading, t.isHidden = true) ∧ ∀ t ∈ trailing, t.isHidden = true := by
  obtain ⟨leading, front, t, trailing, hinterleaved, hleading, ht⟩ :=
    exists_dividesAt_interleaved (Nat.pred_lt h)
  refine ⟨leading, trailing, ?_, shown_eq_nil_iff.mp hleading, shown_eq_nil_iff.mp ?_⟩
  · show f.all = leading ++ f.interleaved (f.length.pred) ++ trailing
    rw [hinterleaved, ← ht.append_eq]
    simp
  · -- The last default token has none behind it.
    have hlength := congrArg List.length ht.shown_eq
    rw [← length_eq, List.length_append, List.length_cons, ht.length_shown,
      Nat.pred_eq_sub_one] at hlength
    exact List.eq_nil_of_length_eq_zero (by omega)

/-- A filter keeps the channels of its tokens apart, between neighbours. -/
structure Separates (f : TokenFilter) : Prop where
  /-- The default tokens between any two of them are all in the answer, and no others. -/
  shown_eq : ∀ i j, i < j → j < f.length →
    shown (f.hiddenBetween i j) = ((shown f.all).take j).drop (i + 1)
  /-- The answer is of hidden tokens just if the two are neighbours. -/
  neighbours : ∀ i j, i < j → j < f.length →
    ((∀ t ∈ f.hiddenBetween i j, t.isHidden = true) ↔ j = i + 1)
  /-- Neighbours and the answers between them make up the list, but for what is hidden at its
  ends. -/
  rebuilt : f.length ≠ 0 → ∃ leading trailing,
    f.all = leading ++ f.interleaved (f.length - 1) ++ trailing ∧
      (∀ t ∈ leading, t.isHidden = true) ∧ ∀ t ∈ trailing, t.isHidden = true

/-- Any filter keeps the channels apart between neighbours, and no further. -/
theorem separates (f : TokenFilter) : f.Separates where
  shown_eq _ _ := shown_hiddenBetween
  neighbours _ _ := forall_isHidden_iff
  rebuilt := exists_append_interleaved

/-! ### What the parser asks -/

/-- Behind some hidden tokens the first default token is spaced, if there are any. -/
theorem ofTokens_hidden (hhidden : ∀ s ∈ between, s.isHidden = true) (ht : t.isHidden = false)
    (spaced : Bool) : Lexeme.ofTokens spaced (between ++ t :: back) =
      ⟨t, spaced || decide (between ≠ [])⟩ :: Lexeme.ofTokens false back := by
  induction between generalizing spaced with
  | nil => simp [Lexeme.ofTokens_cons spaced ht]
  | cons s between ih =>
      obtain ⟨hs, hbetween⟩ := List.forall_mem_cons.mp hhidden
      rw [List.cons_append, Lexeme.ofTokens, if_pos hs, ih hbetween]
      simp

/-- A lexeme is spaced just if hidden tokens stand between its token and the one in front. -/
theorem spaced_iff (hn : n + 1 < f.length) :
    ∃ l, (Lexeme.ofTokens false f.all)[n + 1]? = some l ∧
      f.get? (n + 1) = some l.token ∧ (l.spaced = true ↔ f.hiddenBetween n (n + 1) ≠ []) := by
  obtain ⟨front, s, t, back, hs, ht⟩ := exists_between (Nat.lt_succ_self n) hn
  have hhidden := (forall_isHidden_iff (Nat.lt_succ_self n) hn).mpr rfl
  obtain ⟨b, heq⟩ := Lexeme.ofTokens_append_cons false front hs.isHidden_eq
    (f.hiddenBetween n (n + 1) ++ t :: back)
  rw [hs.append_eq, ofTokens_hidden hhidden ht.isHidden_eq] at heq
  have hlength : (Lexeme.ofTokens false front).length = n :=
    (Lexeme.length_ofTokens false front).trans hs.length_shown
  refine ⟨⟨t, decide (f.hiddenBetween n (n + 1) ≠ [])⟩, ?_, ht.get?_eq, decide_eq_true_iff⟩
  rw [heq, List.getElem?_append_right (by omega), hlength, Nat.add_sub_cancel_left]
  rfl

end PipeQuery.TokenFilter
