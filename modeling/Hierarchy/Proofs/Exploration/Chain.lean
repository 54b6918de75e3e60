import Hierarchy.Exploration.Source
import Mathlib.Data.List.Perm.Basic

/-!
# Chains of listings

What lies below a root is reached by chains of listings (`Source.Chain`).  Ids are worth their name
if elements of one id can be expanded alike and list the same ids, in the same order
(`Source.Coherent`) or in any order (`Source.Consistent`).
-/

namespace Hierarchy

namespace Source

variable {K α ι : Type} (s : Source K α ι)

/-- `s.Chain root as e`: the listings of `as` lead from `root` to `e`, one after the other. -/
inductive Chain (root : Element K α) : List (Element K α) → Element K α → Prop where
  | root : Chain root [] root
  | child {as : List (Element K α)} {e c : Element K α} {cs : List (Element K α)} :
      Chain root as e → e.expandable = true → s.children e = .ok cs → c ∈ cs →
      Chain root (as ++ [e]) c

variable {s} in
theorem Chain.reaches {root e : Element K α} {as : List (Element K α)} (h : s.Chain root as e) :
    s.Reaches root e := by
  induction h with
  | root => exact .root
  | child _ hexpandable hcs hc ih => exact ih.child hexpandable hcs hc

theorem Reaches.chain {s : Source K α ι} {root e : Element K α} (h : s.Reaches root e) :
    ∃ as, s.Chain root as e := by
  induction h with
  | root => exact ⟨[], .root⟩
  | @child e _ _ _ hexpandable hcs hc ih =>
    obtain ⟨as, chain⟩ := ih
    exact ⟨as ++ [e], chain.child hexpandable hcs hc⟩

/-- What leads to an element is reached, and the element is reached from it. -/
theorem Chain.reaches_of_mem {s : Source K α ι} {root e a : Element K α} {as : List (Element K α)}
    (chain : s.Chain root as e) (ha : a ∈ as) : s.Reaches root a ∧ s.Reaches a e := by
  induction chain with
  | root => cases ha
  | @child as e c cs chain hexpandable hcs hc ih =>
    rcases List.mem_append.1 ha with ha | ha
    · obtain ⟨hroot, hbelow⟩ := ih ha
      exact ⟨hroot, hbelow.child hexpandable hcs hc⟩
    · rw [List.mem_singleton.1 ha]
      exact ⟨chain.reaches, Reaches.root.child hexpandable hcs hc⟩

/-- Chains hang on the children alone. -/
theorem Chain.congr {κ : Type} {s : Source K α ι} {s' : Source K α κ} {root e : Element K α}
    {as : List (Element K α)} (h : ∀ e, s'.children e = s.children e)
    (chain : s.Chain root as e) : s'.Chain root as e := by
  induction chain with
  | root => exact .root
  | child _ hexpandable hcs hc ih => exact ih.child hexpandable ((h _).trans hcs) hc

theorem reaches_congr {κ : Type} {s : Source K α ι} {s' : Source K α κ} {root e : Element K α}
    (h : ∀ e, s'.children e = s.children e) : s'.Reaches root e ↔ s.Reaches root e := by
  constructor
  · intro reaches
    obtain ⟨as, chain⟩ := reaches.chain
    exact (chain.congr fun e => (h e).symm).reaches
  · intro reaches
    obtain ⟨as, chain⟩ := reaches.chain
    exact (chain.congr h).reaches

/-- The ids of the children, unless they cannot be listed. -/
def childIds (e : Element K α) : Option (List ι) := (s.children e).toOption.map (·.map s.id)

/-- Elements below `root` with equal ids can be expanded alike and list the same ids, and what is
on a cycle has the id of an element that led to it. -/
structure Coherent (root : Element K α) : Prop where
  expandable : ∀ e e', s.Reaches root e → s.Reaches root e' → s.id e = s.id e' →
    e.expandable = e'.expandable
  childIds : ∀ e e', s.Reaches root e → s.Reaches root e' → s.id e = s.id e' →
    e.expandable = true → s.childIds e = s.childIds e'
  onCycle : ∀ as e, s.Chain root as e → s.onCycle e = true → ∃ a ∈ as, s.id a = s.id e

/-- Elements below `root` with equal ids can be expanded alike and list the same ids, each equally
often but in any order, or cannot be listed; and what is on a cycle has the id of an element that
led to it. -/
structure Consistent (root : Element K α) : Prop where
  expandable : ∀ e e', s.Reaches root e → s.Reaches root e' → s.id e = s.id e' →
    e.expandable = e'.expandable
  children : ∀ e e', s.Reaches root e → s.Reaches root e' → s.id e = s.id e' →
    e.expandable = true → ∀ cs, s.children e = .ok cs →
      ∃ cs', s.children e' = .ok cs' ∧ (cs.map s.id).Perm (cs'.map s.id)
  onCycle : ∀ as e, s.Chain root as e → s.onCycle e = true → ∃ a ∈ as, s.id a = s.id e

variable {s} {root : Element K α}

theorem Coherent.consistent (coherent : s.Coherent root) : s.Consistent root where
  expandable := coherent.expandable
  onCycle := coherent.onCycle
  children e e' he he' hid hexpandable cs hcs := by
    have hsame := coherent.childIds e e' he he' hid hexpandable
    unfold Source.childIds at hsame
    rw [hcs] at hsame
    cases hcs' : s.children e' with
    | error cause =>
      rw [hcs'] at hsame
      cases hsame
    | ok cs' =>
      rw [hcs'] at hsame
      have hids : cs.map s.id = cs'.map s.id := Option.some.inj hsame
      exact ⟨cs', rfl, .of_eq hids⟩

/-- Where one element lists a child, another with the same id lists one with the child's id. -/
theorem Consistent.child {e e' c : Element K α} {cs : List (Element K α)}
    (consistent : s.Consistent root) (he : s.Reaches root e) (he' : s.Reaches root e')
    (hid : s.id e = s.id e') (hexpandable : e.expandable = true) (hcs : s.children e = .ok cs)
    (hc : c ∈ cs) : ∃ cs', s.children e' = .ok cs' ∧ ∃ c' ∈ cs', s.id c' = s.id c := by
  obtain ⟨cs', hcs', hperm⟩ := consistent.children e e' he he' hid hexpandable cs hcs
  exact ⟨cs', hcs', List.mem_map.1 (hperm.mem_iff.1 (List.mem_map_of_mem hc))⟩

end Source

end Hierarchy
