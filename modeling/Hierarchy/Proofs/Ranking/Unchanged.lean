import Hierarchy.Proofs.Ranking.CompleteOrder

/-!
# Lists that sorting leaves as they are

A complete list is left as it is by `sortHierarchy` exactly if it is in hierarchy order
(`sortHierarchy_eq_self_iff`), whatever it lists twice.  For such a list is sorted already by the
ranks that it gives itself: where two paths part, all that lies below the one stands before all that
lies below the other, so the last places of the two sides stand in the same order
(`InHierarchyOrder.sides`).  Sorting again takes its ranks from the sorted list, where last places
have moved, and changes nothing all the same (`sortHierarchy_idem`).
-/

namespace Hierarchy

variable {K α : Type} {l : List (Element K α)}

/-! ## Two sides of a list -/

/-- If one element below a path stands before one below a sibling of it, then all do. -/
theorem InHierarchyOrder.sides (order : InHierarchyOrder l) {above : List K} {j k : K}
    (hne : j ≠ k) {a b a' b' : Nat} {ha : a < l.length} {hb : b < l.length} {ha' : a' < l.length}
    {hb' : b' < l.length} (hab : a < b) (hja : above ++ [j] <+: l[a].path)
    (hkb : above ++ [k] <+: l[b].path) (hja' : above ++ [j] <+: l[a'].path)
    (hkb' : above ++ [k] <+: l[b'].path) : a' < b' := by
  have hruns := List.triplewise_iff_getElem.1 order.contiguous
  -- no element lies below both paths
  have hparted : ∀ m, (hm : m < l.length) → above ++ [j] <+: l[m].path →
      ¬ above ++ [k] <+: l[m].path := fun m hm hj hk => hne (key_unique hj hk)
  by_contra hle
  have hba' : b' ≠ a' := by
    rintro rfl
    exact hparted b' hb' hja' hkb'
  have hlt : b' < a' := by omega
  rcases Nat.lt_trichotomy a' b with hcase | rfl | hcase
  · exact hparted a' ha' hja' (hruns b' a' b hlt hcase hb _ hkb' hkb)
  · exact hparted a' ha' hja' hkb
  · exact hparted b hb (hruns a b a' hab hcase ha' _ hja hja') hkb

variable [DecidableEq K]

theorem exists_last_place {p : List K} (hp : p ∈ l.map Element.path) :
    ∃ i, ∃ hi : i < l.length, l[i].path = p ∧ (Ranking.ofElements l).rankOf p = i := by
  obtain ⟨i, hi⟩ := Option.isSome_iff_exists.1 ((Ranking.ofElements l).isSome_rank?.2 hp)
  have hplace : (l.map Element.path)[i]? = some p := (lastIndex?_spec hi).1
  obtain ⟨hlength, hpath⟩ := List.getElem?_eq_some_iff.1 hplace
  rw [List.length_map] at hlength
  rw [List.getElem_map] at hpath
  refine ⟨i, hlength, hpath, ?_⟩
  rw [Ranking.rankOf, hi]
  rfl

/-! ## The ranks of a list in hierarchy order -/

/-- A complete list in hierarchy order is sorted by its own ranks. -/
theorem InHierarchyOrder.pairwise_trailLE (order : InHierarchyOrder l) (closed : PrefixClosed l) :
    l.Pairwise fun x y => (Ranking.ofElements l).trailLE x y := by
  rw [List.pairwise_iff_getElem]
  intro a b ha hb hab
  have covers := covers_of_closed closed (List.getElem_mem ha)
  have covers' := covers_of_closed closed (List.getElem_mem hb)
  unfold Ranking.trailLE
  rw [← Ranking.compare_eq_rankTrail covers covers']
  rcases Ranking.prefix_or_part l[a].path l[b].path with h | h | ⟨above, j, k, hne, hj, hk⟩
  · by_cases heq : l[a].path = l[b].path
    · rw [heq, Ranking.compare_self]
      rfl
    · rw [Ranking.compare_prefix_lt h heq]
      rfl
  · have hfirst := List.pairwise_iff_getElem.1 order.ancestorFirst a b ha hb hab h
    rw [hfirst, Ranking.compare_self]
    rfl
  · obtain ⟨a', ha', hja', hranka⟩ := exists_last_place (covers.mem_paths (by simp) hj)
    obtain ⟨b', hb', hkb', hrankb⟩ := exists_last_place (covers'.mem_paths (by simp) hk)
    have hlt : a' < b' := order.sides hne hab hj hk (by rw [hja']) (by rw [hkb'])
    rw [Ranking.compare_siblings hne hj hk, hranka, hrankb, Nat.compare_eq_lt.2 hlt]
    rfl

theorem sortHierarchy_eq_self (closed : PrefixClosed l) (order : InHierarchyOrder l) :
    sortHierarchy l = l := by
  rw [sortHierarchy_eq_mergeSort closed]
  exact List.mergeSort_of_pairwise (order.pairwise_trailLE closed)

theorem sortHierarchy_eq_self_iff (closed : PrefixClosed l) :
    sortHierarchy l = l ↔ InHierarchyOrder l := by
  constructor
  · intro h
    rw [← h]
    exact sortHierarchy_order closed
  · exact sortHierarchy_eq_self closed

/-! ## Sorting again -/

/-- Sorting a complete list again changes nothing, and sorting it once changes it unless it is in
hierarchy order. -/
theorem sortHierarchy_idem (closed : PrefixClosed l) :
    sortHierarchy (sortHierarchy l) = sortHierarchy l ∧
      (sortHierarchy l = l ↔ InHierarchyOrder l) := by
  have closed' : PrefixClosed (sortHierarchy l) := closed.perm (sortHierarchy_perm l).symm
  exact ⟨sortHierarchy_eq_self closed' (sortHierarchy_order closed),
    sortHierarchy_eq_self_iff closed⟩

/-- `mixedTrees` is not in order, and lists `a` twice. -/
theorem mixedTrees_sorted_again :
    PrefixClosed mixedTrees ∧ ¬ InHierarchyOrder mixedTrees ∧
      sortHierarchy (sortHierarchy mixedTrees) = sortHierarchy mixedTrees ∧
      sortHierarchy mixedTrees ≠ mixedTrees := by
  have closed : PrefixClosed mixedTrees := by decide
  have unordered : ¬ InHierarchyOrder mixedTrees := by decide
  obtain ⟨hagain, honce⟩ := sortHierarchy_idem closed
  exact ⟨closed, unordered, hagain, fun h => unordered (honce.1 h)⟩

end Hierarchy
