import PipeQuery.Proofs.Query.Meets
import PipeQuery.Proofs.Query.Spans

/-!
# `PipeQuery.Proofs.Query.NodeSpans`: the nodes of a tree with other spans

To put other spans into a tree is to put them into each of its nodes (`Node.children_mapSpans`). So
what is asked of every node of a tree, whatever the spans, is met by two trees that differ in their
spans alone if it is met by one of them (`Node.forall_contains_of_mapSpans_eq`).
-/

set_option autoImplicit false

namespace PipeQuery

namespace Node

variable {f : Span → Span} {V : Verb → Prop} {E : Expr → Prop} {root root' node node' : Node}

/-- The node with `f span` in place of every span. -/
def mapSpans (f : Span → Span) : Node → Node
  | .query commands span => .query (commands.map (Command.mapSpans f)) (f span)
  | .command c => .command (c.mapSpans f)
  | .metadata m => .metadata (m.mapSpans f)
  | .assignment a => .assignment (a.mapSpans f)
  | .sortKey k => .sortKey (k.mapSpans f)
  | .renameClause c => .renameClause (c.mapSpans f)
  | .dissectOption o => .dissectOption (o.mapSpans f)
  | .setting s => .setting (s.mapSpans f)
  | .policy p => .policy (p.mapSpans f)
  | .enrichField e => .enrichField (e.mapSpans f)
  | .indexPattern p => .indexPattern (p.mapSpans f)
  | .source s => .source (s.mapSpans f)
  | .fieldName n => .fieldName (n.mapSpans f)
  | .fieldPattern p => .fieldPattern (p.mapSpans f)
  | .namePattern p => .namePattern (p.mapSpans f)
  | .identifier id => .identifier (id.mapSpans f)
  | .parameter param span => .parameter param (f span)
  | .expr e => .expr (e.mapSpans f)

/-- A part of a name is the same node whether the spans change before or behind. -/
theorem mapSpans_namePart (part : NamePart) :
    part.node.mapSpans f = (part.mapSpans f).node := by
  cases part <;> rfl

/-- A part of a pattern is the same node whether the spans change before or behind. -/
theorem mapSpans_patternPart (part : PatternPart) :
    part.node.mapSpans f = (part.mapSpans f).node := by
  cases part <;> rfl

/-- What an expression holds has the other spans too. -/
theorem children_mapSpans_expr (e : Expr) :
    (e.mapSpans f).children = e.children.map (mapSpans f) := by
  cases e with
  | call name args =>
      rw [Expr.mapSpans, Expr.children, Expr.children, List.map_cons, mapSpans_namePart,
        Expr.mapSpansAll_eq_map, List.map_map, List.map_map]
      rfl
  | _ => simp [Expr.mapSpans, Expr.children, mapSpans, Expr.mapSpansAll_eq_map, Function.comp_def]

/-- What a command holds has the other spans too. -/
theorem children_mapSpans_command (c : Command) :
    (c.mapSpans f).children = c.children.map (mapSpans f) := by
  cases c <;> simp [Command.mapSpans, Command.children, mapSpans, Command.mapSpansAll_eq_map,
    Option.toList_map, Function.comp_def]

/-- What a node holds has the other spans too. -/
theorem children_mapSpans (node : Node) :
    (node.mapSpans f).children = node.children.map (mapSpans f) := by
  cases node with
  | expr e => exact children_mapSpans_expr e
  | command c => exact children_mapSpans_command c
  | fieldName name =>
      show (name.parts.map (NamePart.mapSpans f)).map NamePart.node =
        (name.parts.map NamePart.node).map (mapSpans f)
      rw [List.map_map, List.map_map]
      exact List.map_congr_left fun part _ => (mapSpans_namePart part).symm
  | fieldPattern pattern =>
      show (pattern.parts.map (PatternPart.mapSpans f)).map PatternPart.node =
        (pattern.parts.map PatternPart.node).map (mapSpans f)
      rw [List.map_map, List.map_map]
      exact List.map_congr_left fun part _ => (mapSpans_patternPart part).symm
  | renameClause clause =>
      obtain ⟨oldName, newName, form, span⟩ := clause
      cases form <;> rfl
  | _ => simp [mapSpans, children, Metadata.mapSpans, Assignment.mapSpans, SortKey.mapSpans,
      DissectOption.mapSpans, EnrichField.mapSpans, IndexPattern.mapSpans, Option.toList_map,
      Function.comp_def]

/-- What a tree contains, it contains with other spans. -/
theorem Contains.mapSpans (h : root.Contains node) :
    (root.mapSpans f).Contains (node.mapSpans f) := by
  induction h with
  | root => exact .root
  | child _ hchild ih =>
      exact .child ih (children_mapSpans (f := f) _ ▸ List.mem_map_of_mem hchild)

/-- A tree with other spans contains nothing but its nodes with other spans. -/
theorem exists_of_contains_mapSpans (h : (root.mapSpans f).Contains node') :
    ∃ node, root.Contains node ∧ node.mapSpans f = node' := by
  induction h with
  | root => exact ⟨root, .root, rfl⟩
  | child _ hchild ih =>
      obtain ⟨parent, hparent, rfl⟩ := ih
      rw [children_mapSpans] at hchild
      obtain ⟨node, hnode, rfl⟩ := List.mem_map.mp hchild
      exact ⟨node, .child hparent hnode, rfl⟩

/-- What holds of the nodes of a tree, whatever their spans are, holds of the nodes of a tree that
differs from it in the spans alone. -/
theorem forall_contains_of_mapSpans_eq {P : Node → Prop}
    (hP : ∀ node, P (node.mapSpans f) ↔ P node) (h : root.mapSpans f = root'.mapSpans f)
    (hroot : ∀ node, root.Contains node → P node) : ∀ node, root'.Contains node → P node := by
  intro node' hnode'
  have hcontains := hnode'.mapSpans (f := f)
  rw [← h] at hcontains
  obtain ⟨node, hnode, heq⟩ := exists_of_contains_mapSpans hcontains
  rw [← hP, ← heq, hP]
  exact hroot node hnode

/-! ### What does not depend on spans -/

/-- What is asked of verbs and expressions is asked again with other spans. -/
theorem meets_mapSpans (hE : ∀ e : Expr, E (e.mapSpans f) ↔ E e) (node : Node) :
    (node.mapSpans f).Meets V E ↔ node.Meets V E := by
  cases node with
  | command c => cases c <;> rfl
  | expr e => exact hE e
  | _ => rfl

/-- A star stays one. -/
theorem isStar_mapSpans (e : Expr) : (e.mapSpans f).isStar = e.isStar := by
  cases e with
  | literal constant => cases constant <;> rfl
  | _ => rfl

/-- Stars stay in their place. -/
theorem KeepsStar.mapSpans (h : node.KeepsStar) : (node.mapSpans f).KeepsStar := by
  intro e he hstar
  rw [children_mapSpans] at he
  obtain ⟨child, hchild, heq⟩ := List.mem_map.mp he
  cases child with
  | expr e' =>
      obtain rfl : e'.mapSpans f = e := Node.expr.inj heq
      rw [isStar_mapSpans] at hstar
      obtain ⟨name, span, rfl⟩ := h e' hchild hstar
      exact ⟨_, _, rfl⟩
  | _ => cases heq

/-- Stars were in their place if they are with other spans. -/
theorem keepsStar_of_mapSpans (h : (node.mapSpans f).KeepsStar) : node.KeepsStar := by
  intro e he hstar
  have hmem : Node.expr (e.mapSpans f) ∈ (node.mapSpans f).children :=
    children_mapSpans (f := f) node ▸ List.mem_map_of_mem he
  obtain ⟨name, span, heq⟩ := h _ hmem (by rwa [isStar_mapSpans])
  cases node with
  | expr parent =>
      cases parent with
      | call name' args span' =>
          -- The call has one argument as before, and that is the star.
          obtain ⟨-, hargs, -⟩ := Expr.call.inj (Node.expr.inj heq)
          rw [Expr.mapSpansAll_eq_map] at hargs
          obtain ⟨arg, rfl, -⟩ := List.map_eq_singleton_iff.mp hargs
          rcases List.mem_cons.mp he with hname | harg
          · cases name' <;> cases hname
          · obtain rfl : e = arg := Node.expr.inj (List.mem_singleton.mp harg)
            exact ⟨_, _, rfl⟩
      | _ => cases heq
  | _ => cases heq

/-- Stars are in their place whatever the spans are. -/
theorem keepsStar_mapSpans (node : Node) : (node.mapSpans f).KeepsStar ↔ node.KeepsStar :=
  ⟨keepsStar_of_mapSpans, KeepsStar.mapSpans⟩

/-- Lists keep their length, strings stay strings, and names that were no parameter are none. -/
theorem hasShape_mapSpans (node : Node) : (node.mapSpans f).HasShape ↔ node.HasShape := by
  cases node with
  | expr e =>
      cases e with
      | list items delimiter =>
          cases delimiter with
          | paren => simp [mapSpans, Expr.mapSpans, HasShape, Expr.mapSpansAll_eq_map]
          | bracket => exact Iff.rfl
      | inList e items => simp [mapSpans, Expr.mapSpans, HasShape, Expr.mapSpansAll_eq_map]
      | like e pattern => simp [mapSpans, Expr.mapSpans, HasShape]
      | «match» e query => simp [mapSpans, Expr.mapSpans, HasShape]
      -- Of a name only the number of its parts is asked, and whether the only one is a parameter.
      | field name span =>
          obtain ⟨parts, span'⟩ := name
          match parts with
          | [] | _ :: _ :: _ => simp [mapSpans, Expr.mapSpans, HasShape, FieldName.mapSpans]
          | [part] =>
              cases part <;>
                simp [mapSpans, Expr.mapSpans, HasShape, FieldName.mapSpans, NamePart.mapSpans]
      | _ => exact Iff.rfl
  | command c =>
      cases c with
      | dissect | grok => simp [mapSpans, Command.mapSpans, HasShape]
      | _ => exact Iff.rfl
  | _ => exact Iff.rfl

end Node

end PipeQuery
