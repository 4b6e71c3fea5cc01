import PipeQuery.Proofs.Query.Node

/-!
# `PipeQuery.Proofs.Query.Meets`: what is asked of every verb and of every expression

`Node.AllMeet V E` asks `V` of the verb of every command that a node contains and `E` of every
expression. `allMeet_iff` takes it apart: it is so of a node and of its children. Where only things
are named there is neither a command nor an expression, and nothing is asked.
-/

set_option autoImplicit false

namespace PipeQuery

namespace Node

variable {V : Verb → Prop} {E : Expr → Prop} {root node : Node}

/-- A node contains itself, and what its children contain. -/
theorem contains_iff :
    root.Contains node ↔ node = root ∨ ∃ child ∈ root.children, child.Contains node := by
  constructor
  · intro h
    induction h with
    | root => exact .inl rfl
    | @child parent node _ hchild ih =>
        rcases ih with rfl | ⟨child, hmem, hcontains⟩
        · exact .inr ⟨node, hchild, .root⟩
        · exact .inr ⟨child, hmem, .child hcontains hchild⟩
  · rintro (rfl | ⟨child, hmem, hcontains⟩)
    · exact .root
    · induction hcontains with
      | root => exact .child .root hmem
      | child _ hchild ih => exact .child ih hchild

/-- What is asked of a node: `V` of the verb of a command, `E` of an expression. -/
def Meets (V : Verb → Prop) (E : Expr → Prop) : Node → Prop
  | .command c => V c.verb
  | .expr e => E e
  | _ => True

/-- It is met by all that the node contains. -/
def AllMeet (V : Verb → Prop) (E : Expr → Prop) (root : Node) : Prop :=
  ∀ node, root.Contains node → node.Meets V E

/-- All nodes meet a property if the root does and all nodes below its children do. -/
theorem allMeet_iff :
    root.AllMeet V E ↔ root.Meets V E ∧ ∀ child ∈ root.children, child.AllMeet V E := by
  constructor
  · intro h
    exact ⟨h _ .root, fun child hchild node hnode =>
      h _ (contains_iff.mpr (.inr ⟨child, hchild, hnode⟩))⟩
  · rintro ⟨hroot, hchildren⟩ node hnode
    rcases contains_iff.mp hnode with rfl | ⟨child, hchild, hnode⟩
    · exact hroot
    · exact hchildren child hchild node hnode

/-- The node names things of the data or of the cluster. -/
def isNaming : Node → Bool
  | .metadata _ | .renameClause _ | .setting _ | .policy _ | .enrichField _ | .indexPattern _ |
    .source _ | .fieldName _ | .fieldPattern _ | .namePattern _ | .identifier _ | .parameter .. =>
    true
  | _ => false

/-- A part of a name is about naming. -/
theorem isNaming_namePart (part : NamePart) : part.node.isNaming = true := by
  cases part <;> rfl

/-- So is a part of a pattern. -/
theorem isNaming_patternPart (part : PatternPart) : part.node.isNaming = true := by
  cases part <;> rfl

/-- Names are made of names. -/
theorem isNaming_of_mem_children (h : root.isNaming = true) (hnode : node ∈ root.children) :
    node.isNaming = true := by
  cases root with
  | fieldName name =>
      obtain ⟨part, -, rfl⟩ := List.mem_map.mp hnode
      exact isNaming_namePart part
  | fieldPattern pattern =>
      obtain ⟨part, -, rfl⟩ := List.mem_map.mp hnode
      exact isNaming_patternPart part
  | renameClause clause =>
      obtain ⟨oldName, newName, form, span⟩ := clause
      cases form <;> exact List.all_eq_true.mp (by rfl) node hnode
  | query | command | assignment | sortKey | dissectOption | expr => cases h
  | _ => exact List.all_eq_true.mp (by simp [children, isNaming]) node hnode

/-- Nothing is asked of names. -/
theorem allMeet_of_isNaming (h : root.isNaming = true) : root.AllMeet V E := by
  intro node hnode
  have hnaming : node.isNaming = true := by
    induction hnode with
    | root => exact h
    | child _ hchild ih => exact isNaming_of_mem_children ih hchild
  cases node with
  | command | expr => cases hnaming
  | _ => trivial

end Node

end PipeQuery
