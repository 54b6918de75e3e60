import Hierarchy.Proofs.Criteria
import Hierarchy.Proofs.Ranking.HierarchySort
import Mathlib.Data.List.Nodup

/-!
# Siblings in the order of the criteria

Sorted by criteria and then into hierarchy order, a complete list of elements at different paths
becomes a tree whose siblings follow the criteria (`sortHierarchy_sort_tree`).  The first sort need
not respect the hierarchy: it puts any two siblings in order, and leaves them as they were found if
they tie, and of its outcome the second sort only asks which of two siblings comes first.
-/

namespace Hierarchy

variable {K α : Type}

/-- Of elements that tie, the one that comes first was found first. -/
theorem ColumnOrder.Consistent.sublist_of_tie {β : Type} {o : ColumnOrder}
    (consistent : o.Consistent) {cells : β → List String} {xs : List β} {x y : β}
    (htie : o.compare (cells x) (cells y) = .eq) (h : [x, y].Sublist (o.sort cells xs)) :
    [x, y].Sublist xs := by
  have transCmp := consistent.transCmp_cells cells
  exact consistent.isStableSort_sort.sublist_of_tie htie h

/-- Where paths are distinct, each element has one place. -/
theorem LastListedBefore.sublist {l : List (Element K α)} (distinct : (l.map Element.path).Nodup)
    {x y : Element K α} (hx : x ∈ l) (hy : y ∈ l) (hne : x.path ≠ y.path)
    (h : LastListedBefore l x.path y.path) : [x, y].Sublist l := by
  obtain ⟨z, rest, ⟨before, rfl⟩, hpath, hrest⟩ := h
  obtain rfl : z = y := List.inj_on_of_nodup_map distinct (by simp) hy hpath
  have hbefore : x ∈ before := by
    rcases List.mem_append.1 hx with hx | hx
    · exact hx
    · rcases List.mem_cons.1 hx with rfl | hx
      · exact absurd rfl hne
      · exact absurd rfl (hrest x hx)
  have hfirst : [x].Sublist before := List.singleton_sublist.2 hbefore
  have hsecond : [z].Sublist (z :: rest) := List.singleton_sublist.2 List.mem_cons_self
  exact hfirst.append hsecond

variable [DecidableEq K]

/-- `sorted` is the tree of the elements found: each of them once, before its descendants, each
subtree one run; siblings in the order of the criteria, or as they were found if they tie. -/
structure IsSortedTree (o : ColumnOrder) (cells : Element K α → List String)
    (sorted found : List (Element K α)) : Prop extends InHierarchyOrder sorted where
  perm : sorted.Perm found
  closed : PrefixClosed sorted
  siblings : sorted.Pairwise fun x y => x.ancestors = y.ancestors →
    o.compare (cells x) (cells y) = .lt ∨
      o.compare (cells x) (cells y) = .eq ∧ [x, y].Sublist found

theorem sortHierarchy_sort_tree {o : ColumnOrder} (consistent : o.Consistent)
    {cells : Element K α → List String} {l : List (Element K α)} (closed : PrefixClosed l)
    (distinct : (l.map Element.path).Nodup) :
    IsSortedTree o cells (sortHierarchy (o.sort cells l)) l := by
  have hperm : (o.sort cells l).Perm l := ColumnOrder.sort_perm
  have hsorted := sortHierarchy_perm (o.sort cells l)
  have closed' : PrefixClosed (o.sort cells l) := closed.perm hperm.symm
  have distinct' : ((o.sort cells l).map Element.path).Nodup :=
    (hperm.map _).nodup_iff.2 distinct
  have distinct'' : (sortHierarchy (o.sort cells l)).Pairwise fun x y => x.path ≠ y.path :=
    List.pairwise_map.1 ((hsorted.map _).nodup_iff.2 distinct')
  refine ⟨sortHierarchy_order closed', hsorted.trans hperm, closed'.perm hsorted.symm, ?_⟩
  refine ((sortHierarchy_siblings closed').and distinct'').imp_of_mem ?_
  rintro x y hx hy ⟨hlisted, hne⟩ hancestors
  have hpair : [x, y].Sublist (o.sort cells l) := (hlisted hancestors hne).sublist distinct'
    (mem_sortHierarchy.1 hx) (mem_sortHierarchy.1 hy) hne
  have hle := List.pairwise_iff_forall_sublist.1 consistent.pairwise_sort hpair
  refine (Ordering.isLE_iff_eq_lt_or_eq_eq.1 hle).imp_right fun htie => ⟨htie, ?_⟩
  exact consistent.sublist_of_tie htie hpair

end Hierarchy
