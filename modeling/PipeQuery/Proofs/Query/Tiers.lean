import PipeQuery.Parser.Expr
import PipeQuery.Proofs.Query.Meets
import PipeQuery.Proofs.Query.Spans

/-!
# `PipeQuery.Proofs.Query.Tiers`: how tall an expression is

`Expr.height` counts the nodes on the longest way down from an expression. Chains of operators and
of casts lean to the left, and a chain grows with the text. `Expr.tiers` is the height in which a
chain is no taller than one node: the operand on the left of an operator is on its tier if it is an
operation of the same power, and the operand of a cast if it is a cast. What an expression holds has
no more tiers than it has itself, so a bound for one expression is a bound for all in it
(`allMeet_tiers_le`). The height is no more than the tiers times the longest chain (`height_le`).
-/

set_option autoImplicit false

namespace PipeQuery

/-- A chain that leans to the left: of operators of one power, or of casts. -/
inductive Chain where
  | operators (power : Nat)
  | casts
deriving DecidableEq

namespace Expr

/-- The chain whose last link is the expression. -/
def chain? : Expr → Option Chain
  | .binary _ op _ _ => some (.operators (Parser.power op))
  | .cast .. => some .casts
  | _ => none

/-- How far a link of the chain stands above its operand on the left: not at all if that is a link
of the same chain. -/
def rise (chain : Chain) (operand : Expr) : Nat :=
  if operand.chain? = some chain then 0 else 1

mutual

/-- The number of nodes on the longest way from the expression to a leaf. -/
def height : Expr → Nat
  | .literal .. | .field .. | .parameter .. => 1
  | .call _ es _ | .list es _ _ => heightAll es + 1
  | .unary _ e _ | .cast e _ _ | .isNull e _ _ => e.height + 1
  | .binary e _ e' _ | .like e e' _ _ _ | .«match» e e' _ => max e.height e'.height + 1
  | .inList e es _ _ => max e.height (heightAll es) + 1

/-- The height of the tallest of the expressions. -/
def heightAll : List Expr → Nat
  | [] => 0
  | e :: es => max e.height (heightAll es)

end

mutual

/-- The height of the expression when a chain counts as one node. -/
def tiers : Expr → Nat
  | .literal .. | .field .. | .parameter .. => 1
  | .call _ es _ | .list es _ _ => tiersAll es + 1
  | .unary _ e _ | .isNull e _ _ => e.tiers + 1
  | .cast e _ _ => e.tiers + e.rise .casts
  | .binary e op e' _ => max (e.tiers + e.rise (.operators (Parser.power op))) (e'.tiers + 1)
  | .like e e' _ _ _ | .«match» e e' _ => max e.tiers e'.tiers + 1
  | .inList e es _ _ => max e.tiers (tiersAll es) + 1

/-- The tiers of the tallest of the expressions. -/
def tiersAll : List Expr → Nat
  | [] => 0
  | e :: es => max e.tiers (tiersAll es)

end

/-- An operand is one tier below at most. -/
theorem rise_le_one (chain : Chain) (e : Expr) : e.rise chain ≤ 1 := by
  unfold rise
  split <;> omega

/-! ### Spans -/

section

variable (f : Span → Span)

/-- A link of a chain stays one with other spans. -/
@[simp]
theorem chain?_mapSpans (e : Expr) : (e.mapSpans f).chain? = e.chain? := by
  cases e <;> rfl

/-- An operand stands as far below with other spans. -/
@[simp]
theorem rise_mapSpans (chain : Chain) (e : Expr) :
    (e.mapSpans f).rise chain = e.rise chain := by
  rw [rise, rise, chain?_mapSpans]

mutual

/-- Spans add no tiers. -/
theorem tiers_mapSpans : (e : Expr) → (e.mapSpans f).tiers = e.tiers
  | .literal .. | .field .. | .parameter .. => rfl
  | .call _ es _ | .list es _ _ => by simp [mapSpans, tiers, tiersAll_mapSpansAll es]
  | .unary _ e _ | .cast e _ _ | .isNull e _ _ => by simp [mapSpans, tiers, tiers_mapSpans e]
  | .binary e _ e' _ | .like e e' _ _ _ | .«match» e e' _ => by
      simp [mapSpans, tiers, tiers_mapSpans e, tiers_mapSpans e']
  | .inList e es _ _ => by simp [mapSpans, tiers, tiers_mapSpans e, tiersAll_mapSpansAll es]

/-- Nor do the spans of several expressions. -/
theorem tiersAll_mapSpansAll : (es : List Expr) → tiersAll (mapSpansAll f es) = tiersAll es
  | [] => rfl
  | e :: es => by rw [mapSpansAll, tiersAll, tiersAll, tiers_mapSpans e, tiersAll_mapSpansAll es]

end

end

/-! ### Operands -/

/-- Each of some expressions has no more tiers than the tallest. -/
theorem tiers_le_of_mem {es : List Expr} {e : Expr} (h : e ∈ es) : e.tiers ≤ tiersAll es := by
  induction h with
  | head => exact Nat.le_max_left _ _
  | tail _ _ ih => exact Nat.le_trans ih (Nat.le_max_right _ _)

/-- A list has no more tiers than a bound on those of its expressions. -/
theorem tiersAll_le {es : List Expr} {n : Nat} (h : ∀ e ∈ es, e.tiers ≤ n) : tiersAll es ≤ n := by
  induction es with
  | nil => exact Nat.zero_le n
  | cons e es ih =>
      obtain ⟨he, hes⟩ := List.forall_mem_cons.mp h
      exact Nat.max_le.mpr ⟨he, ih hes⟩

/-- What an expression holds is only named, or it is an expression with no more tiers. -/
theorem tiers_le_of_mem_children {e : Expr} {node : Node} (h : node ∈ e.children) :
    node.isNaming = true ∨ ∃ e', node = .expr e' ∧ e'.tiers ≤ e.tiers := by
  have hitem : ∀ {es : List Expr}, node ∈ es.map Node.expr →
      ∃ e', node = .expr e' ∧ e'.tiers ≤ tiersAll es := by
    intro es h
    obtain ⟨e', hmem, rfl⟩ := List.mem_map.mp h
    exact ⟨e', rfl, tiers_le_of_mem hmem⟩
  cases e with
  | literal | parameter => cases h
  | field =>
      obtain rfl := List.mem_singleton.mp h
      exact .inl rfl
  | call name es =>
      rcases List.mem_cons.mp h with rfl | h
      · exact .inl (Node.isNaming_namePart name)
      · obtain ⟨e', rfl, hle⟩ := hitem h
        exact .inr ⟨e', rfl, Nat.le_succ_of_le hle⟩
  | list es =>
      obtain ⟨e', rfl, hle⟩ := hitem h
      exact .inr ⟨e', rfl, Nat.le_succ_of_le hle⟩
  | unary | isNull =>
      obtain rfl := List.mem_singleton.mp h
      exact .inr ⟨_, rfl, Nat.le_succ _⟩
  -- A cast is a link of a chain, so its operand may be as high as the cast itself.
  | cast =>
      obtain rfl | rfl := List.mem_cons.mp h |>.imp_right List.mem_singleton.mp
      · exact .inr ⟨_, rfl, Nat.le_add_right _ _⟩
      · exact .inl rfl
  | binary | like | «match» =>
      obtain rfl | rfl := List.mem_cons.mp h |>.imp_right List.mem_singleton.mp
      · exact .inr ⟨_, rfl, by simp only [tiers]; omega⟩
      · exact .inr ⟨_, rfl, by simp only [tiers]; omega⟩
  | inList e es =>
      rcases List.mem_cons.mp h with rfl | h
      · exact .inr ⟨_, rfl, by simp only [tiers]; omega⟩
      · obtain ⟨e', rfl, hle⟩ := hitem h
        exact .inr ⟨e', rfl, by simp only [tiers]; omega⟩

/-- A bound for the tiers of an expression is one for all expressions in it. -/
theorem allMeet_tiers_le {V : Verb → Prop} {e : Expr} {n : Nat} (h : e.tiers ≤ n) :
    (Node.expr e).AllMeet V (fun e' => e'.tiers ≤ n) := by
  intro node hnode
  -- On the way down from an expression there are expressions, and below these only names.
  have hcontained : node.isNaming = true ∨ ∃ e', node = .expr e' ∧ e'.tiers ≤ n := by
    induction hnode with
    | root => exact .inr ⟨e, rfl, h⟩
    | child _ hchild ih =>
        rcases ih with hnaming | ⟨e', rfl, hle⟩
        · exact .inl (Node.isNaming_of_mem_children hnaming hchild)
        · exact (tiers_le_of_mem_children hchild).imp_right
            fun ⟨e'', heq, hle'⟩ => ⟨e'', heq, Nat.le_trans hle' hle⟩
  cases node with
  | expr e' =>
      obtain hnaming | ⟨e', heq, hle⟩ := hcontained
      · cases hnaming
      · cases heq
        exact hle
  | command => obtain hnaming | ⟨e', heq, -⟩ := hcontained <;> contradiction
  | _ => trivial

/-! ### Height and the lengths of chains -/

/-- The number of links of the chain whose last link is the expression, 1 if that is no link. -/
def links : Expr → Nat
  | .binary e op _ _ => if e.chain? = some (.operators (Parser.power op)) then e.links + 1 else 1
  | .cast e _ _ => if e.chain? = some .casts then e.links + 1 else 1
  | _ => 1

mutual

/-- The number of links of the longest chain in the expression. -/
def longestChain : Expr → Nat
  | .literal .. | .field .. | .parameter .. => 1
  | .call _ es _ | .list es _ _ => max 1 (longestChainAll es)
  | .unary _ e _ | .isNull e _ _ => max 1 e.longestChain
  | .cast e type span => max (links (.cast e type span)) e.longestChain
  | .binary e op e' span =>
    max (links (.binary e op e' span)) (max e.longestChain e'.longestChain)
  | .like e e' _ _ _ | .«match» e e' _ => max 1 (max e.longestChain e'.longestChain)
  | .inList e es _ _ => max 1 (max e.longestChain (longestChainAll es))

/-- The number of links of the longest chain in one of the expressions. -/
def longestChainAll : List Expr → Nat
  | [] => 0
  | e :: es => max e.longestChain (longestChainAll es)

end

/-- The chain at the top of an expression is no longer than the longest in it. -/
theorem links_le_longestChain (e : Expr) : e.links ≤ e.longestChain := by
  cases e <;> simp only [links, longestChain] <;> omega

section

variable {n t : Nat} {e : Expr} {chain : Chain}

/-- A tier is no higher than the longest chain, so an operand a tier below leaves room for one. -/
theorem height_operand_le (h : e.height + n ≤ n * e.tiers + e.links) (hn : e.longestChain ≤ n)
    (ht : e.tiers + 1 ≤ t) : e.height + n ≤ n * t := by
  have hlinks := e.links_le_longestChain
  have hmul := Nat.mul_le_mul_left n ht
  rw [Nat.mul_add, Nat.mul_one] at hmul
  omega

/-- A link is one higher than its operand on the left, which is a link before it or a tier below. -/
theorem height_link_le (h : e.height + n ≤ n * e.tiers + e.links) (hn : e.longestChain ≤ n)
    (ht : e.tiers + e.rise chain ≤ t) :
    e.height + 1 + n ≤ n * t + if e.chain? = some chain then e.links + 1 else 1 := by
  unfold rise at ht
  split at ht
  case isTrue hchain =>
    have hmul := Nat.mul_le_mul_left n ht
    rw [if_pos hchain]
    rw [Nat.add_zero] at hmul
    omega
  case isFalse hchain =>
    have hoperand := height_operand_le h hn ht
    rw [if_neg hchain]
    omega

end

mutual

/-- All tiers but the highest are as high as a chain at most, and that is as high as its own. -/
theorem height_add_le {n : Nat} :
    (e : Expr) → e.longestChain ≤ n → e.height + n ≤ n * e.tiers + e.links
  | .literal .., _ | .field .., _ | .parameter .., _ => by
      simp only [height, tiers, links]
      omega
  | .call _ es _, h | .list es _ _, h => by
      have hes := heightAll_le es (Nat.max_le.mp h).2
      simp only [height, tiers, links, Nat.mul_add, Nat.mul_one]
      omega
  | .unary _ e _, h | .isNull e _ _, h => by
      have he : e.longestChain ≤ n := (Nat.max_le.mp h).2
      have hle := height_operand_le (height_add_le e he) he (Nat.le_refl _)
      simp only [height, tiers, links]
      omega
  | .cast e _ _, h => by
      have he : e.longestChain ≤ n := (Nat.max_le.mp h).2
      exact height_link_le (height_add_le e he) he (Nat.le_refl _)
  -- Only the left operand can continue the chain that the operator stands in; the right one is
  -- below.
  | .binary e op e' _, h => by
      obtain ⟨he, he'⟩ := Nat.max_le.mp (Nat.max_le.mp h).2
      have hleft := height_link_le (height_add_le e he) he
        (Nat.le_max_left (e.tiers + e.rise (.operators (Parser.power op))) (e'.tiers + 1))
      have hright := height_operand_le (height_add_le e' he') he'
        (Nat.le_max_right (e.tiers + e.rise (.operators (Parser.power op))) (e'.tiers + 1))
      simp only [height, tiers, links]
      -- A link of the chain adds to `links`, a new chain to `tiers`.
      split
      case isTrue hchain =>
        rw [if_pos hchain] at hleft
        omega
      case isFalse hchain =>
        rw [if_neg hchain] at hleft
        omega
  | .like e e' _ _ _, h | .«match» e e' _, h => by
      obtain ⟨he, he'⟩ := Nat.max_le.mp (Nat.max_le.mp h).2
      have hleft := height_operand_le (height_add_le e he) he
        (Nat.add_le_add_right (Nat.le_max_left e.tiers e'.tiers) 1)
      have hright := height_operand_le (height_add_le e' he') he'
        (Nat.add_le_add_right (Nat.le_max_right e.tiers e'.tiers) 1)
      simp only [height, tiers, links]
      omega
  | .inList e es _ _, h => by
      obtain ⟨he, hes⟩ := Nat.max_le.mp (Nat.max_le.mp h).2
      have hleft := height_operand_le (height_add_le e he) he
        (Nat.add_le_add_right (Nat.le_max_left e.tiers (tiersAll es)) 1)
      have hitems := heightAll_le es hes
      have hright := Nat.mul_le_mul_left n (Nat.le_max_right e.tiers (tiersAll es))
      simp only [height, tiers, links, Nat.mul_add, Nat.mul_one] at hleft ⊢
      omega

/-- A list is no higher than its longest chain times its tiers. -/
theorem heightAll_le {n : Nat} :
    (es : List Expr) → longestChainAll es ≤ n → heightAll es ≤ n * tiersAll es
  | [], _ => Nat.zero_le _
  | e :: es, h => by
      obtain ⟨he, hes⟩ := Nat.max_le.mp h
      have hlinks := Nat.le_trans e.links_le_longestChain he
      have hhead := height_add_le e he
      have htail := heightAll_le es hes
      have hleft := Nat.mul_le_mul_left n (Nat.le_max_left e.tiers (tiersAll es))
      have hright := Nat.mul_le_mul_left n (Nat.le_max_right e.tiers (tiersAll es))
      simp only [heightAll, tiersAll]
      omega

end

/-- An expression is no higher than its tiers would be if each were its longest chain. -/
theorem height_le (e : Expr) : e.height ≤ e.longestChain * e.tiers := by
  have hlinks := e.links_le_longestChain
  have hheight := height_add_le e (Nat.le_refl _)
  omega

end Expr

end PipeQuery
