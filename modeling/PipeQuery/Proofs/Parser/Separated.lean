import PipeQuery.Proofs.Parser.Step

/-!
# `PipeQuery.Proofs.Parser.Separated`: items with separators between them

`SepBy` is the grammar of a list of items, and `separated` its reader: what it returns was written
as such a list (`separated_ok`), and such a list is read if its items are (`separated_apply`).
-/

set_option autoImplicit false

namespace PipeQuery.Parser

variable {α : Type} {c : Context} {s s' : State} {kind : Token.Kind} {item : Parse α}

/-- The lexemes are one item or more, with a separator of the kind between neighbours. -/
inductive SepBy (kind : Token.Kind) (R : List Lexeme → α → Prop) :
    List Lexeme → List α → Prop where
  | one {w : List Lexeme} {a : α} (h : R w a) : SepBy kind R w [a]
  | more {w w' : List Lexeme} {a : α} {as : List α} {l : Lexeme} (h : R w a)
    (hkind : l.token.kind = kind) (rest : SepBy kind R w' as) :
    SepBy kind R (w ++ l :: w') (a :: as)

/-- Nothing, or further items, each behind a separator. -/
def Others (kind : Token.Kind) (R : List Lexeme → α → Prop) (w : List Lexeme) (as : List α) :
    Prop :=
  w = [] ∧ as = [] ∨ ∃ l w', w = l :: w' ∧ l.token.kind = kind ∧ SepBy kind R w' as

/-- A first item and others behind it are a list. -/
theorem Others.cons {R : List Lexeme → α → Prop} {w w' : List Lexeme} {a : α} {as : List α}
    (h : R w a) (rest : Others kind R w' as) : SepBy kind R (w ++ w') (a :: as) := by
  rcases rest with ⟨rfl, rfl⟩ | ⟨l, w', rfl, hkind, rest⟩
  · rw [List.append_nil]
    exact .one h
  · exact .more h hkind rest

namespace SepBy

variable {R R' : List Lexeme → α → Prop} {w : List Lexeme} {as : List α}

/-- A list has an item. -/
theorem ne_nil (h : SepBy kind R w as) : as ≠ [] := by
  cases h <;> exact List.cons_ne_nil _ _

/-- There are no more items than lexemes. -/
theorem length_le (h : SepBy kind R w as) (hne : ∀ w a, R w a → w ≠ []) : as.length ≤ w.length := by
  induction h with
  | one h => exact List.length_pos_iff.mpr (hne _ _ h)
  | more _ _ _ ih =>
      rw [List.length_append, List.length_cons, List.length_cons]
      omega

/-- Every item has its lexemes. -/
theorem exists_of_mem {a : α} (h : SepBy kind R w as) (ha : a ∈ as) :
    ∃ w', w' <:+: w ∧ R w' a := by
  induction h with
  | one h =>
      obtain rfl := List.mem_singleton.mp ha
      exact ⟨_, List.infix_rfl, h⟩
  | @more w w' _ as l h _ _ ih =>
      rcases List.mem_cons.mp ha with rfl | ha
      · exact ⟨w, ⟨[], l :: w', rfl⟩, h⟩
      · obtain ⟨w'', hwithin, h⟩ := ih ha
        exact ⟨w'', hwithin.trans ⟨w ++ [l], [], by simp⟩, h⟩

/-- The first item of a list and what stands behind it. -/
theorem head (h : SepBy kind R w as) :
    ∃ w₁ w₂ a bs, w = w₁ ++ w₂ ∧ as = a :: bs ∧ R w₁ a ∧ Others kind R w₂ bs := by
  cases h with
  | one h => exact ⟨_, [], _, [], (List.append_nil _).symm, rfl, h, .inl ⟨rfl, rfl⟩⟩
  | more h hkind rest => exact ⟨_, _, _, _, rfl, rfl, h, .inr ⟨_, _, rfl, hkind, rest⟩⟩

/-- Items of another sort, if that is so for those that are no longer than the whole. -/
theorem imp (h : SepBy kind R w as)
    (himp : ∀ w' a, w'.length ≤ w.length → R w' a → R' w' a) : SepBy kind R' w as := by
  induction h with
  | one h => exact .one (himp _ _ (Nat.le_refl _) h)
  | more h hkind _ ih =>
      refine .more (himp _ _ ?_ h) hkind (ih fun w' a hle => himp w' a ?_)
      · rw [List.length_append]; omega
      · rw [List.length_append, List.length_cons]; omega

end SepBy

/-! ### What is read is such a list -/

section

variable {g : State → Prop} {R : List Lexeme → α → Prop}

/-- Further items, whatever is known of one item in a state that is g in the end. -/
theorem moreItems_ok (hkind : kind ≠ .eof)
    (hgood : ∀ {s w s'}, Moves s w s' → g s' → g s)
    (hitem : ∀ {s a s'}, item c s = (.ok a, s') → ∃ w, Moves s w s' ∧ (g s' → R w a))
    {fuel : Nat} {as : List α} (h : moreItems kind item fuel c s = (.ok as, s')) :
    ∃ w, Moves s w s' ∧ (g s' → Others kind R w as) := by
  induction fuel generalizing s as with
  | zero =>
      obtain ⟨rfl, rfl⟩ := pure_ok.mp h
      exact ⟨[], .refl s, fun _ => .inl ⟨rfl, rfl⟩⟩
  | succ fuel ih =>
      rw [moreItems, bind_ok] at h
      obtain ⟨b, s₁, heat, h⟩ := h
      rcases eat_ok hkind heat with ⟨rfl, l, hl, hmoves⟩ | ⟨rfl, -, rfl⟩
      · -- What is good at the end was good behind this item, so the item is what it should be.
        obtain ⟨first, s₂, hfirst, h⟩ := bind_ok.mp h
        obtain ⟨w, hmoves', hR⟩ := hitem hfirst
        obtain ⟨rest, s₃, hrest, h⟩ := bind_ok.mp h
        obtain ⟨rfl, rfl⟩ := pure_ok.mp h
        obtain ⟨w', hmoves'', hothers⟩ := ih hrest
        refine ⟨[l] ++ (w ++ w'), hmoves.trans (hmoves'.trans hmoves''), fun hs => ?_⟩
        exact .inr ⟨l, w ++ w', rfl, hl, (hothers hs).cons (hR (hgood hmoves'' hs))⟩
      · obtain ⟨rfl, rfl⟩ := pure_ok.mp h
        exact ⟨[], .refl _, fun _ => .inl ⟨rfl, rfl⟩⟩

/-- The items behind a first one are read off others, as long as the state they lead to is good. -/
theorem others_ok (hkind : kind ≠ .eof)
    (hgood : ∀ {s w s'}, Moves s w s' → g s' → g s)
    (hitem : ∀ {s a s'}, item c s = (.ok a, s') → ∃ w, Moves s w s' ∧ (g s' → R w a))
    {as : List α} (h : others kind item c s = (.ok as, s')) :
    ∃ w, Moves s w s' ∧ (g s' → Others kind R w as) :=
  moreItems_ok hkind hgood hitem h

/-- A list is read off its items and separators, as long as the state it leads to is good. -/
theorem separated_ok (hkind : kind ≠ .eof)
    (hgood : ∀ {s w s'}, Moves s w s' → g s' → g s)
    (hitem : ∀ {s a s'}, item c s = (.ok a, s') → ∃ w, Moves s w s' ∧ (g s' → R w a))
    {as : List α} (h : separated kind item c s = (.ok as, s')) :
    ∃ w, Moves s w s' ∧ (g s' → SepBy kind R w as) := by
  obtain ⟨first, s₁, hfirst, h⟩ := bind_ok.mp h
  obtain ⟨rest, s₂, hrest, h⟩ := bind_ok.mp h
  obtain ⟨rfl, rfl⟩ := pure_ok.mp h
  obtain ⟨w, hmoves, hR⟩ := hitem hfirst
  obtain ⟨w', hmoves', hothers⟩ := others_ok hkind hgood hitem hrest
  exact ⟨w ++ w', hmoves.trans hmoves', fun hs => (hothers hs).cons (hR (hgood hmoves' hs))⟩

end

/-! ### Such a list is read -/

section

variable {R : List Lexeme → α → Prop} {q : List Lexeme → Prop}

/-- Without a separator ahead there are no more items. -/
theorem moreItems_apply_nil {fuel : Nat} (h : s.kindAt 0 ≠ kind) :
    moreItems kind item fuel c s = (.ok [], s) := by
  cases fuel with
  | zero => rfl
  | succ fuel =>
      rw [moreItems, bind_apply_of_ok (eat_apply_of_ne h)]
      rfl

/-- Further items are read if each is, in front of a separator or of what closes the list. -/
theorem moreItems_apply
    (hitem : ∀ {s w rest a}, R w a → s.rest = w ++ rest → q rest →
      item c s = (.ok a, s.past w))
    (hsep : ∀ {l : Lexeme} {rest}, l.token.kind = kind → q (l :: rest))
    {w rest : List Lexeme} {as : List α} (hall : Others kind R w as) (hclosed : q rest)
    (hrest : kindIn rest 0 ≠ kind) {fuel : Nat} (hs : s.rest = w ++ rest)
    (hfuel : w.length ≤ fuel) : moreItems kind item fuel c s = (.ok as, s.past w) := by
  induction fuel generalizing s w as with
  | zero =>
      obtain rfl := List.length_eq_zero_iff.mp (Nat.le_zero.mp hfuel)
      rcases hall with ⟨-, rfl⟩ | ⟨l, w', hnil, -, -⟩
      · rfl
      · exact absurd hnil (by simp)
  | succ fuel ih =>
      rcases hall with ⟨rfl, rfl⟩ | ⟨l, w', rfl, hl, hall⟩
      · refine moreItems_apply_nil ?_
        rw [kindAt_eq, hs]
        exact hrest
      · obtain ⟨w₁, w₂, a, bs, rfl, rfl, hR, hothers⟩ := hall.head
        have hs₁ : (s.past [l]).rest = w₁ ++ (w₂ ++ rest) :=
          past_rest (by rw [hs]; simp)
        have hs₂ : (s.past ([l] ++ w₁)).rest = w₂ ++ rest :=
          past_rest (by rw [hs]; simp)
        -- Behind an item stands a separator or what is behind the list.
        have hclosed' : q (w₂ ++ rest) := by
          rcases hothers with ⟨rfl, -⟩ | ⟨l', w', rfl, hl', -⟩
          · exact hclosed
          · exact hsep hl'
        have hfuel' : w₂.length ≤ fuel := by
          simp only [List.length_cons, List.length_append] at hfuel
          omega
        rw [moreItems, bind_apply_of_ok (eat_apply (l := l) (by rw [hs]; rfl) hl)]
        simp only [if_true]
        rw [bind_apply_of_ok (hitem hR hs₁ hclosed'), past_past,
          bind_apply_of_ok (ih hothers hs₂ hfuel'), past_past, Parse.pure_apply]
        simp

/-- Others are read in full if the items are and no separator follows. -/
theorem others_apply
    (hitem : ∀ {s w rest a}, R w a → s.rest = w ++ rest → q rest →
      item c s = (.ok a, s.past w))
    (hsep : ∀ {l : Lexeme} {rest}, l.token.kind = kind → q (l :: rest))
    {w rest : List Lexeme} {as : List α} (hall : Others kind R w as) (hclosed : q rest)
    (hrest : kindIn rest 0 ≠ kind) (hs : s.rest = w ++ rest) :
    others kind item c s = (.ok as, s.past w) := by
  rw [others, bind_apply_of_ok remaining_apply]
  exact moreItems_apply hitem hsep hall hclosed hrest hs (by rw [hs]; simp)

/-- A list is read in full if its items are and no separator follows. -/
theorem separated_apply
    (hitem : ∀ {s w rest a}, R w a → s.rest = w ++ rest → q rest →
      item c s = (.ok a, s.past w))
    (hsep : ∀ {l : Lexeme} {rest}, l.token.kind = kind → q (l :: rest))
    {w rest : List Lexeme} {as : List α} (hall : SepBy kind R w as) (hclosed : q rest)
    (hrest : kindIn rest 0 ≠ kind) (hs : s.rest = w ++ rest) :
    separated kind item c s = (.ok as, s.past w) := by
  obtain ⟨w₁, w₂, a, bs, rfl, rfl, hR, hothers⟩ := hall.head
  have hs₁ : s.rest = w₁ ++ (w₂ ++ rest) := by rw [hs, List.append_assoc]
  have hs₂ : (s.past w₁).rest = w₂ ++ rest := past_rest hs₁
  have hclosed' : q (w₂ ++ rest) := by
    rcases hothers with ⟨rfl, -⟩ | ⟨l', w', rfl, hl', -⟩
    · exact hclosed
    · exact hsep hl'
  rw [separated, bind_apply_of_ok (hitem hR hs₁ hclosed'),
    bind_apply_of_ok (others_apply hitem hsep hothers hclosed hrest hs₂), past_past,
    Parse.pure_apply]

end

end PipeQuery.Parser
