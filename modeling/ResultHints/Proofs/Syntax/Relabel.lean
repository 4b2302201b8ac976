import Mathlib.Logic.Function.Defs
import ResultHints.Syntax.Kind

/-!
# Other labels

The nodes of a tree may get other places and other ids, and types other texts, and stand for
the same: no rule about kinds looks at the text of a type (`NodeKind.apply_eq`), and ids only
tell nodes apart (`Relabeling`).
-/

namespace ResultHints

namespace NodeKind

/-- The kind, without the text of a type. -/
def untyped : NodeKind → NodeKind
  | typeReference _ => typeReference ""
  | k => k

variable {k k' : NodeKind}

/-- What is the same but for the texts of types is the same, or both are types. -/
theorem eq_or_typeReference (h : k'.untyped = k.untyped) :
    k' = k ∨ ∃ s s', k = typeReference s ∧ k' = typeReference s' := by
  cases k with
  | typeReference s =>
    cases k' with
    | typeReference s' => exact .inr ⟨s, s', rfl, rfl⟩
    | _ => cases h
  | _ =>
    cases k' with
    | typeReference s' => cases h
    | _ => exact .inl h

/-- What does not look at the texts of types is the same of both. -/
theorem apply_eq {β : Type} {F : NodeKind → β}
    (hF : ∀ s s', F (typeReference s) = F (typeReference s')) (h : k'.untyped = k.untyped) :
    F k' = F k := by
  obtain rfl | ⟨s, s', rfl, rfl⟩ := eq_or_typeReference h
  · rfl
  · exact hF s' s

end NodeKind

/-- A way to give nodes other labels, by which they stand for the same: other places, other ids,
    none of them to two nodes, and other texts of types. -/
structure Relabeling where
  kind : Node → NodeKind
  place : Nat → Nat
  number : NodeId → NodeId
  untyped_kind : ∀ a, (kind a).untyped = a.kind.untyped
  number_injective : Function.Injective number

namespace Relabeling

variable (f : Relabeling)

/-- The node with its other label. -/
def node (a : Node) : Node :=
  ⟨⟨f.kind a, ⟨f.place a.span.start, f.place a.span.stop⟩⟩, f.number a.id⟩

theorem kind_node (a : Node) :
    (f.node a).kind = a.kind ∨
      ∃ s s', a.kind = .typeReference s ∧ (f.node a).kind = .typeReference s' :=
  NodeKind.eq_or_typeReference (f.untyped_kind a)

/-- What does not look at the texts of types is the same of the node with its other label. -/
theorem apply_kind {β : Type} {F : NodeKind → β}
    (hF : ∀ s s', F (.typeReference s) = F (.typeReference s')) (a : Node) :
    F (f.node a).kind = F a.kind :=
  NodeKind.apply_eq hF (f.untyped_kind a)

@[simp] theorem id_node (a : Node) : (f.node a).id = f.number a.id := rfl

@[simp] theorem isExpression_node (a : Node) :
    (f.node a).kind.isExpression = a.kind.isExpression := f.apply_kind (fun _ _ => rfl) a

@[simp] theorem isAnnotationEntry_node (a : Node) :
    (f.node a).kind.isAnnotationEntry = a.kind.isAnnotationEntry := f.apply_kind (fun _ _ => rfl) a

@[simp] theorem isWhenEntry_node (a : Node) :
    (f.node a).kind.isWhenEntry = a.kind.isWhenEntry := f.apply_kind (fun _ _ => rfl) a

end Relabeling

end ResultHints
