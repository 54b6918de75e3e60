import Hierarchy.Element

/-!
# Sources of elements

A source knows which entity stands behind an element (`id`) and how to list children.  Different
paths may lead to one entity; elements with equal ids are occurrences of the same entity.
-/

namespace Hierarchy

structure Source (K α ι : Type) where
  /-- The entity behind an element. -/
  id : Element K α → ι
  /-- The children in the source's order, placed one level below the element. -/
  children : Element K α → Except Failure (List (Element K α))
  /-- What follows an element in place of its children. -/
  marker : Element K α → Failure → Element K α
  /-- The element is one of its own ancestors. -/
  onCycle : Element K α → Bool
  /-- How many entities have children that can be listed, at most. -/
  bound : Nat

/-- The key among the keys of the ancestors: the test for a cycle where keys name entities. -/
def Element.repeatsKey {K α : Type} [BEq K] (e : Element K α) : Bool :=
  e.ancestors.contains e.key

namespace Source

variable {K α ι : Type} (s : Source K α ι)

/-- `s.Reaches root e`: a chain of listings leads from `root` to `e`. -/
inductive Reaches (root : Element K α) : Element K α → Prop where
  | root : Reaches root root
  | child {e c : Element K α} {cs : List (Element K α)} : Reaches root e → e.expandable = true →
      s.children e = .ok cs → c ∈ cs → Reaches root c

/-- The entities whose listing succeeds somewhere below `root` are finitely many, and `s.bound`
counts them all. -/
def Bounded (root : Element K α) : Prop :=
  ∃ ids : List ι, ids.length ≤ s.bound ∧
    ∀ e cs, s.Reaches root e → e.expandable = true → s.children e = .ok cs → s.id e ∈ ids

end Source

end Hierarchy
