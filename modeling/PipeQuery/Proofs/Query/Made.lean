import Mathlib.Data.List.Induction
import PipeQuery.Proofs.Parser.Name
import PipeQuery.Proofs.Query.Node

/-!
# `PipeQuery.Proofs.Query.Made`: nodes and the lexemes they are made of

`Made w node` says that the lexemes `w` make the node: its place goes from the first to the last of
them, a leaf has their text, and its children are made of stretches of `w`, one behind the other
(`Scattered`). Nothing is said of the lexemes between the stretches. There are separators and
parentheses among them, and where a command was given up, all that was passed over. So this is what
is left of the grammar when anything may be wrong with the text.
-/

set_option autoImplicit false

namespace PipeQuery

/-- The span around a span and itself is the span. -/
theorem Span.merge_self (a : Span) : a.merge a = a := by
  rw [merge, Nat.min_self, Nat.max_self]

/-- The span around two spans does not depend on their order. -/
theorem Span.merge_comm (a b : Span) : a.merge b = b.merge a := by
  rw [merge, merge, Nat.min_comm, Nat.max_comm]

namespace Parser

variable {α β : Type} {w w' m : List Lexeme} {l : Lexeme} {span span' : Span}

/-! ### Lexemes in their places -/

/-- Every lexeme ends where the next one begins or before. -/
structure Placed (w : List Lexeme) : Prop where
  apart : w.Pairwise fun l l' => l.token.span.stop ≤ l'.token.span.start
  forward : ∀ l ∈ w, l.token.span.start ≤ l.token.span.stop

/-- Two stretches are in order just if each is and the first ends before the second begins. -/
theorem placed_append : Placed (w ++ w') ↔ Placed w ∧ Placed w' ∧
    ∀ l ∈ w, ∀ l' ∈ w', l.token.span.stop ≤ l'.token.span.start := by
  constructor
  · rintro ⟨hapart, hforward⟩
    obtain ⟨h, h', hbetween⟩ := List.pairwise_append.mp hapart
    exact ⟨⟨h, fun l hl => hforward l (List.mem_append_left _ hl)⟩,
      ⟨h', fun l hl => hforward l (List.mem_append_right _ hl)⟩, hbetween⟩
  · rintro ⟨h, h', hbetween⟩
    exact ⟨List.pairwise_append.mpr ⟨h.apart, h'.apart, hbetween⟩, fun l hl =>
      (List.mem_append.mp hl).elim (h.forward l) (h'.forward l)⟩

/-- What stands in front is in order. -/
theorem Placed.left (h : Placed (w ++ w')) : Placed w :=
  (placed_append.mp h).1

/-- What stands behind is in order. -/
theorem Placed.right (h : Placed (w ++ w')) : Placed w' :=
  (placed_append.mp h).2.1

/-- What stands behind the first lexeme is in order. -/
theorem Placed.tail (h : Placed (l :: w)) : Placed w :=
  Placed.right (w := [l]) h

/-- A stretch of lexemes in order is in order. -/
theorem Placed.stretch (h : Placed w') (hwithin : w <:+: w') : Placed w := by
  obtain ⟨u, v, rfl⟩ := hwithin
  exact h.left.right

/-- The span goes from the start of the first lexeme to the end of the last. -/
inductive Spans (w : List Lexeme) : Span → Prop where
  | mk {first last : Lexeme} (hfirst : w.head? = some first) (hlast : w.getLast? = some last) :
    Spans w ⟨first.token.span.start, last.token.span.stop⟩

namespace Spans

/-- One lexeme has its own span. -/
theorem single (l : Lexeme) : Spans [l] l.token.span :=
  .mk (w := [l]) rfl rfl

/-- Only lexemes have a span. -/
theorem ne_nil (h : Spans w span) : w ≠ [] := by
  obtain ⟨hfirst, -⟩ := h
  rintro rfl
  cases hfirst

/-- The ends of spans are in the order of the lexemes. -/
theorem start_le_stop (h : Spans w span) (hw : Placed w) : span.start ≤ span.stop := by
  obtain ⟨hfirst, hlast⟩ := h
  obtain ⟨init, rfl⟩ := List.getLast?_eq_some_iff.mp hlast
  cases init with
  | nil =>
      obtain rfl := Option.some.inj hfirst
      exact hw.forward _ List.mem_cons_self
  | cons first' init =>
      obtain rfl := Option.some.inj hfirst
      have hbetween := List.rel_of_pairwise_cons hw.apart
        (List.mem_append_right init (List.mem_singleton_self _))
      have hfirst := hw.forward _ List.mem_cons_self
      have hlast := hw.forward _ (List.mem_append_right _ (List.mem_singleton_self _))
      dsimp only
      omega

/-- Spans of lexemes in a row are in a row. -/
theorem stop_le_start (h : Spans w span) (h' : Spans w' span')
    (hw : ∀ l ∈ w, ∀ l' ∈ w', l.token.span.stop ≤ l'.token.span.start) :
    span.stop ≤ span'.start := by
  obtain ⟨-, hlast⟩ := h
  obtain ⟨hfirst, -⟩ := h'
  exact hw _ (List.mem_of_getLast? hlast) _ (List.mem_of_head? hfirst)

/-- Two spans and what stands between them. -/
theorem merge (h : Spans w span) (h' : Spans w' span') (hw : Placed (w ++ (m ++ w'))) :
    Spans (w ++ (m ++ w')) (span.merge span') := by
  obtain ⟨hleft, hright, hbetween⟩ := placed_append.mp hw
  have hle := h.stop_le_start h' fun l hl l' hl' => hbetween l hl l' (List.mem_append_right m hl')
  have hstart := h.start_le_stop hleft
  have hstop := h'.start_le_stop hright.right
  have hmerge : span.merge span' = ⟨span.start, span'.stop⟩ := by
    rw [Span.merge, Nat.min_eq_left (by omega), Nat.max_eq_right (by omega)]
  rw [hmerge]
  obtain ⟨hfirst, -⟩ := h
  obtain ⟨-, hlast⟩ := h'
  exact .mk (by simp [hfirst]) (by simp [hlast])

/-- The span from what was read first to the last of further lexemes. -/
theorem upTo (h : Spans w span) (hw : Placed (w ++ m)) {v : List Lexeme} {last : Lexeme}
    (hlast : (w ++ m).getLast? = some last) (hv : v.getLast? = some last) :
    Spans (w ++ m) (spanOver span v) := by
  obtain ⟨-, -, hbetween⟩ := placed_append.mp hw
  -- The span ends no later than the last lexeme: it ends with it, or in front of it.
  have hstop : span.stop ≤ last.token.span.stop := by
    cases m using List.reverseRecOn with
    | nil =>
        rw [List.append_nil] at hlast
        obtain ⟨-, hlast'⟩ := h
        rw [hlast] at hlast'
        obtain rfl := Option.some.inj hlast'
        exact Nat.le_refl _
    | append_singleton m l _ =>
        rw [← List.append_assoc, List.getLast?_concat] at hlast
        obtain rfl := Option.some.inj hlast
        have hle := h.stop_le_start (single l) fun l₁ h₁ l₂ h₂ =>
          hbetween l₁ h₁ l₂ (List.mem_append_right _ h₂)
        exact Nat.le_trans hle (hw.forward l (by simp))
  have hover : spanOver span v = ⟨span.start, last.token.span.stop⟩ := by
    rw [spanOver, lastStop, hv]
    exact congrArg _ (Nat.max_eq_left hstop)
  rw [hover]
  obtain ⟨hfirst, -⟩ := h
  exact .mk (by simp [hfirst]) hlast

end Spans

/-! ### Stretches one behind the other -/

/-- Items of stretches of the lexemes, one behind the other. -/
inductive Scattered (R : List Lexeme → α → Prop) : List Lexeme → List α → Prop where
  | nil {w : List Lexeme} : Scattered R w []
  | cons {u w w' : List Lexeme} {a : α} {as : List α} (h : R w a) (rest : Scattered R w' as) :
    Scattered R (u ++ (w ++ w')) (a :: as)

namespace Scattered

variable {R : List Lexeme → α → Prop} {a : α} {as bs : List α}

/-- One item of all the lexemes. -/
theorem one (h : R w a) : Scattered R w [a] := by
  simpa using Scattered.cons (u := []) h (.nil (w := []))

/-- Lexemes in front of the first item belong to none. -/
theorem skip (h : Scattered R w as) (u : List Lexeme) : Scattered R (u ++ w) as := by
  cases h with
  | nil => exact .nil
  | @cons u' w w' a as h rest =>
      rw [← List.append_assoc]
      exact .cons h rest

/-- Lexemes behind the last item belong to none. -/
theorem pad (h : Scattered R w as) (v : List Lexeme) : Scattered R (w ++ v) as := by
  induction h with
  | nil => exact .nil
  | cons h _ ih =>
      rw [List.append_assoc, List.append_assoc]
      exact .cons h ih

/-- Items of two stretches are items of both together, one behind the other. -/
theorem append (h : Scattered R w as) (h' : Scattered R w' bs) :
    Scattered R (w ++ w') (as ++ bs) := by
  induction h with
  | @nil w => exact h'.skip w
  | cons h _ ih =>
      rw [List.append_assoc, List.append_assoc]
      exact .cons h ih

/-- One lexeme in front belongs to none. -/
theorem cons_lexeme (h : Scattered R w as) (l : Lexeme) : Scattered R (l :: w) as :=
  h.skip [l]

/-- The first item and those behind it. -/
theorem one_cons (h : Scattered R w [a]) (h' : Scattered R w' as) :
    Scattered R (w ++ w') (a :: as) :=
  h.append h'

/-- The lexemes of the first items and those of the others. -/
theorem split (as : List α) (h : Scattered R w (as ++ bs)) :
    ∃ w₁ w₂, w = w₁ ++ w₂ ∧ Scattered R w₁ as ∧ Scattered R w₂ bs := by
  induction as generalizing w with
  | nil => exact ⟨[], w, rfl, .nil, h⟩
  | cons a as ih =>
      cases h with
      | @cons u w w' _ _ h rest =>
          obtain ⟨w₁, w₂, rfl, h₁, h₂⟩ := ih rest
          exact ⟨u ++ (w ++ w₁), w₂, by simp, .cons h h₁, h₂⟩

/-- Items may be taken for less than they are. -/
theorem imp {T : List Lexeme → α → Prop} (h : Scattered R w as) (himp : ∀ w a, R w a → T w a) :
    Scattered T w as := by
  induction h with
  | nil => exact .nil
  | cons h _ ih => exact .cons (himp _ _ h) ih

/-- Every item has its stretch. -/
theorem exists_of_mem (h : Scattered R w as) (ha : a ∈ as) : ∃ w', w' <:+: w ∧ R w' a := by
  induction h with
  | nil => cases ha
  | @cons u w w' a' as h _ ih =>
      rcases List.mem_cons.mp ha with rfl | ha
      · exact ⟨w, ⟨u, w', by simp⟩, h⟩
      · obtain ⟨w'', hwithin, hitem⟩ := ih ha
        exact ⟨w'', hwithin.trans ⟨u ++ w, [], by simp⟩, hitem⟩

end Scattered

/-- Items with separators between them are scattered. -/
theorem SepBy.scattered {kind : Token.Kind} {R : List Lexeme → α → Prop}
    {S : List Lexeme → β → Prop} {f : α → β} {as : List α} (h : SepBy kind R w as)
    (hw : Placed w) (hitem : ∀ {w a}, R w a → Placed w → Scattered S w [f a]) :
    Scattered S w (as.map f) := by
  induction h with
  | one h => exact hitem h hw
  | more h hkind _ ih => exact (hitem h hw.left).one_cons ((ih hw.right.tail).cons_lexeme _)

end Parser

/-! ### Nodes -/

open PipeQuery.Parser

/-- A constant is written as the text of its lexeme, with a second lexeme for a unit. -/
def Literal.Written (w : List Lexeme) : Literal → Prop
  | .integer raw value =>
    ∃ l, w = [l] ∧ raw = l.token.text ∧ value = Text.decimalValue raw.toList ∧ value < 2 ^ 64
  | .quantity raw value unit =>
    ∃ l l', w = [l, l'] ∧ raw = l.token.text ∧ unit = l'.token.text ∧
      value = Text.decimalValue raw.toList ∧ value < 2 ^ 64
  | .decimal raw _ | .string raw _ => ∃ l, w = [l] ∧ raw = l.token.text
  | _ => True

/-- A leaf is written as the text of its lexeme. -/
def Node.Written (w : List Lexeme) : Node → Prop
  | .identifier id => ∃ l, w = [l] ∧ IsIdentifier l id
  | .source s => ∃ l, w = [l] ∧ IsSource l s
  | .namePattern p => IsPatternPart w (.pattern p)
  | .expr (.literal constant _) => constant.Written w
  | _ => True

namespace Parser

/-- The lexemes make the node. A pipeline without commands has its place behind the bracket that it
should follow. -/
inductive Made : List Lexeme → Node → Prop where
  | mk {w : List Lexeme} {node : Node} {item : List Lexeme → Node → Prop}
    (hspan : Spans w node.span) (hwritten : node.Written w) (hstar : node.KeepsStar)
    (hshape : node.HasShape) (hchildren : Scattered item w node.children)
    (hitem : ∀ w node, item w node → Made w node) : Made w node
  | hollow {l : Lexeme} : Made [l] (.query [] (.point l.token.span.stop))

/-- The lexemes make the node, which is neither a star nor a pipeline without commands. -/
structure Plain (w : List Lexeme) (node : Node) : Prop where
  made : Made w node
  spans : Spans w node.span
  isStar : node.isStar = false

/-- The node has no text of its own and keeps the promises of its kind. -/
structure IsInner (node : Node) : Prop where
  written : ∀ w, node.Written w
  shape : node.HasShape
  isStar : node.isStar = false

section

variable {w w' m : List Lexeme} {node : Node}

/-- The children of a node that was made are made of stretches of its lexemes, one behind the other.
-/
theorem Made.scattered (h : Made w node) : Scattered Made w node.children := by
  cases h with
  | mk _ _ _ _ hchildren hitem => exact hchildren.imp hitem
  | hollow => exact .nil

/-- What is made of plain nodes holds no star. -/
theorem Made.of (hspan : Spans w node.span) (hwritten : node.Written w) (hshape : node.HasShape)
    (hchildren : Scattered Plain w node.children) : Made w node := by
  refine .mk hspan hwritten (Node.keepsStar_of_forall fun e he => ?_) hshape hchildren
    fun _ _ h => h.made
  obtain ⟨_, -, h⟩ := hchildren.exists_of_mem he
  exact h.isStar

/-- An inner node is made of its lexemes if its children are and its span is theirs. -/
theorem Plain.of (hinner : IsInner node) (hspan : Spans w node.span)
    (hchildren : Scattered Plain w node.children) : Plain w node :=
  ⟨.of hspan (hinner.written w) hinner.shape hchildren, hspan, hinner.isStar⟩

/-- A node without children is made of its lexemes if its text is and its span is theirs. -/
theorem Plain.leaf (hwritten : node.Written w) (hshape : node.HasShape)
    (hstar : node.isStar = false) (hspan : Spans w node.span) (hnil : node.children = []) :
    Plain w node :=
  ⟨.of hspan hwritten hshape (hnil ▸ .nil), hspan, hstar⟩

/-- Some lexemes in a row with this span hold the nodes. -/
inductive Stretch : List Lexeme → List Node → Span → Prop where
  | mk {u w v : List Lexeme} {nodes : List Node} {span : Span} (hspan : Spans w span)
    (hnodes : Scattered Plain w nodes) : Stretch (u ++ (w ++ v)) nodes span

namespace Stretch

variable {nodes nodes' : List Node} {span span' : Span}

/-- Some lexemes hold the nodes if their span is given and the nodes stand in them. -/
theorem of_spans (hspan : Spans w span) (hnodes : Scattered Plain w nodes) :
    Stretch w nodes span := by
  simpa using Stretch.mk (u := []) (v := []) hspan hnodes

/-- One lexeme holds no node and has its own span. -/
theorem lexeme (l : Lexeme) : Stretch [l] [] l.token.span :=
  of_spans (.single l) .nil

/-- The lexemes of a node hold it. -/
theorem of_plain (h : Plain w node) : Stretch w [node] node.span :=
  of_spans h.spans (.one h)

/-- The nodes stand in the lexemes one behind the other. -/
theorem scattered (h : Stretch w nodes span) : Scattered Plain w nodes := by
  obtain ⟨-, hnodes⟩ := h
  exact (hnodes.pad _).skip _

/-- Lexemes in front and behind change neither the nodes nor their span. -/
theorem inside (h : Stretch w nodes span) (u v : List Lexeme) :
    Stretch (u ++ (w ++ v)) nodes span := by
  obtain ⟨hspan, hnodes⟩ := h
  rw [List.append_assoc, List.append_assoc, ← List.append_assoc u]
  exact .mk hspan hnodes

/-- The node that is made of what the stretch holds. -/
theorem wrap (node : Node) (h : Stretch w node.children node.span) (hinner : IsInner node) :
    Stretch w [node] node.span := by
  generalize hnodes : node.children = nodes at h
  generalize hspan : node.span = span at h
  obtain ⟨h, hscattered⟩ := h
  exact .mk h (.one (.of hinner (hspan ▸ h) (hnodes ▸ hscattered)))

/-- From the start of one stretch to the end of a later one, with nodes between them. -/
theorem across {between : List Node} (h : Stretch w nodes span) (hm : Scattered Plain m between)
    (h' : Stretch w' nodes' span') (hw : Placed (w ++ (m ++ w'))) :
    Stretch (w ++ (m ++ w')) (nodes ++ (between ++ nodes')) (span.merge span') := by
  obtain @⟨u, x, v, _, _, hspan, hnodes⟩ := h
  obtain @⟨u', x', v', _, _, hspan', hnodes'⟩ := h'
  have heq : u ++ (x ++ v) ++ (m ++ (u' ++ (x' ++ v'))) =
      u ++ ((x ++ ((v ++ (m ++ u')) ++ x')) ++ v') := by simp only [List.append_assoc]
  have hinside : (v ++ (m ++ u')) ++ x' = v ++ (m ++ (u' ++ x')) := by
    simp only [List.append_assoc]
  rw [heq] at hw ⊢
  refine .mk (hspan.merge hspan' hw.right.left) (hnodes.append ?_)
  rw [hinside]
  exact (hm.append (hnodes'.skip u')).skip v

/-- From the start of one stretch to the end of a later one. -/
theorem merge (h : Stretch w nodes span) (h' : Stretch w' nodes' span')
    (hw : Placed (w ++ (m ++ w'))) :
    Stretch (w ++ (m ++ w')) (nodes ++ nodes') (span.merge span') :=
  h.across .nil h' hw

/-- From the start of a stretch to the last lexeme. -/
theorem upTo (h : Stretch w nodes span) (h' : Scattered Plain m nodes') (hw : Placed (w ++ m))
    {v : List Lexeme} (hlast : (w ++ m).getLast? = v.getLast?) :
    Stretch (w ++ m) (nodes ++ nodes') (spanOver span v) := by
  obtain @⟨u, x, v', _, _, hspan, hnodes⟩ := h
  have heq : u ++ (x ++ v') ++ m = u ++ ((x ++ (v' ++ m)) ++ []) := by simp
  have hne : x ++ (v' ++ m) ≠ [] := List.append_ne_nil_of_left_ne_nil hspan.ne_nil _
  obtain ⟨last, hsome⟩ := Option.ne_none_iff_exists'.mp (mt List.getLast?_eq_none_iff.mp hne)
  have hlast' : (u ++ ((x ++ (v' ++ m)) ++ [])).getLast? = some last := by
    rw [List.append_nil, List.getLast?_append, hsome, Option.some_or]
  rw [heq] at hw hlast ⊢
  exact .mk (hspan.upTo hw.right.left hsome (hlast.symm.trans hlast'))
    (hnodes.append (h'.skip _))

/-- From the start of a stretch to what closes it. -/
theorem closed (h : Stretch w nodes span) (h' : Scattered Plain m nodes') {closing : Lexeme}
    (hw : Placed (w ++ (m ++ [closing]))) :
    Stretch (w ++ (m ++ [closing])) (nodes ++ nodes') (spanOver span [closing]) :=
  h.upTo (h'.pad [closing]) hw (by rw [← List.append_assoc, List.getLast?_concat]; rfl)

end Stretch

/-- Nodes that are scattered have a stretch from the first of them to the last. -/
theorem Scattered.stretch {nodes : List Node} (h : Scattered Plain w (node :: nodes))
    (hw : Placed w) :
    Stretch w (node :: nodes) (node.span.merge (nodes.getLast?.getD node).span) := by
  cases nodes using List.reverseRecOn with
  | nil =>
      cases h with
      | cons h _ =>
          rw [List.getLast?_nil, Option.getD_none, Span.merge_self]
          exact (Stretch.of_plain h).inside _ _
  | append_singleton nodes last _ =>
      have hone : ∀ {w node}, Scattered Plain w [node] → Stretch w [node] node.span := by
        intro w node h
        cases h with
        | cons h _ => exact (Stretch.of_plain h).inside _ _
      obtain ⟨w₁, w₂, rfl, hfirst, h⟩ := h.split [node]
      obtain ⟨w₂, w₃, rfl, hnodes, hlast⟩ := h.split nodes
      rw [List.getLast?_concat, Option.getD_some]
      exact (hone hfirst).across hnodes (hone hlast) hw

end

end Parser

end PipeQuery
