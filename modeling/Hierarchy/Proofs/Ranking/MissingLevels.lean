import Hierarchy.Proofs.Ranking.CompleteOrder

/-!
# Sorting lists that leave out levels

Sorting by a ranking has one outcome if the ranking compares the paths of the list consistently
(`Ranking.ConsistentOn.isStableSort_iff`), and only then is anything said about it here.

A level without an element of its own has no rank and counts as the first.  So nothing decides
between two such levels below the same ancestors, or between one of them and the level of the first
element (`Ranking.Ties`), and what lies below them stays as it is listed.  Therefore a list that is
compared consistently comes out in hierarchy order exactly if it does not mix tied levels
(`sortHierarchy_order_iff`).

Where nothing is left out no levels tie, so complete lists meet both conditions
(`PrefixClosed.consistentlyRanked`, `PrefixClosed.tiesApart`).
-/

namespace Hierarchy

variable {K α : Type} [DecidableEq K]

/-! ## Consistent comparison -/

namespace Ranking

variable {r : Ranking K} {l : List (Element K α)}

/-- The order of the members of a list by their paths. -/
def compareMembers (r : Ranking K) (l : List (Element K α)) (x y : {e // e ∈ l}) : Ordering :=
  r.compare x.1.path y.1.path

theorem map_sort_attach :
    (sortBy (r.compareMembers l) l.attach).map Subtype.val = r.sort l := by
  have hmap := map_sortBy (fun a b => r.compare a.path b.path) Subtype.val l.attach
  rwa [List.attach_map_subtype_val] at hmap

section Consistent

variable (consistent : r.ConsistentOn {path | path ∈ l.map Element.path})

include consistent

theorem ConsistentOn.transCmp : Std.TransCmp (r.compareMembers l) where
  eq_swap := r.compare_swap _ _
  isLE_trans {x y z} :=
    consistent _ (List.mem_map_of_mem x.2) _ (List.mem_map_of_mem y.2) _ (List.mem_map_of_mem z.2)

/-- Sorting is the one way to put the members of a list in order and keep the order of what
ties. -/
theorem ConsistentOn.isStableSort_iff {sorted : List {e // e ∈ l}} :
    IsStableSort (r.compareMembers l) sorted l.attach ↔ sorted.map Subtype.val = r.sort l := by
  have transCmp := consistent.transCmp
  rw [Hierarchy.isStableSort_iff, ← sortBy_eq_mergeSort, ← map_sort_attach,
    (List.map_injective_iff.2 Subtype.val_injective).eq_iff]

theorem ConsistentOn.exists_sorted :
    ∃ sorted : List {e // e ∈ l}, IsStableSort (r.compareMembers l) sorted l.attach ∧
      sorted.map Subtype.val = r.sort l :=
  ⟨_, consistent.isStableSort_iff.2 map_sort_attach, map_sort_attach⟩

theorem ConsistentOn.pairwise_sort :
    (r.sort l).Pairwise fun x y => (r.compare x.path y.path).isLE := by
  obtain ⟨sorted, h, hsort⟩ := consistent.exists_sorted
  rw [← hsort, List.pairwise_map]
  exact h.pairwise

/-- Elements that tie with one come out as they are listed. -/
theorem ConsistentOn.sublist_sort_iff {x : Element K α} (hx : x ∈ l) {c : List (Element K α)}
    (hties : ∀ y ∈ c, r.compare x.path y.path = .eq) : c.Sublist (r.sort l) ↔ c.Sublist l := by
  obtain ⟨sorted, h, hsort⟩ := consistent.exists_sorted
  have hmembers : c.Sublist (sorted.map Subtype.val) ↔ c.Sublist (l.attach.map Subtype.val) := by
    rw [List.sublist_map_iff, List.sublist_map_iff]
    refine exists_congr fun c' => and_congr_left ?_
    rintro rfl
    exact h.sublist_iff (x := ⟨x, hx⟩) fun y hy => hties y.1 (List.mem_map_of_mem hy)
  rwa [hsort, List.attach_map_subtype_val] at hmembers

end Consistent

end Ranking

/-- The ranking that a list gives compares the paths of the list consistently. -/
def ConsistentlyRanked (l : List (Element K α)) : Prop :=
  (Ranking.ofElements l).ConsistentOn {path | path ∈ l.map Element.path}

instance (l : List (Element K α)) : Decidable (ConsistentlyRanked l) :=
  inferInstanceAs (Decidable (∀ a ∈ l.map Element.path, ∀ b ∈ l.map Element.path,
    ∀ c ∈ l.map Element.path, ((Ranking.ofElements l).compare a b).isLE →
      ((Ranking.ofElements l).compare b c).isLE → ((Ranking.ofElements l).compare a c).isLE))

/-! ## Tied levels -/

/-- No element of a level stands between two elements of a level that ties with it. -/
def TiesApart (l : List (Element K α)) : Prop :=
  l.Triplewise fun x y z => ∀ above j k, (Ranking.ofElements l).Ties above j k →
    above ++ [j] <+: x.path → above ++ [k] <+: y.path → ¬ above ++ [j] <+: z.path

instance (l : List (Element K α)) : Decidable (TiesApart l) :=
  decidable_of_iff
    (l.Triplewise fun x y z => ∀ above ∈ x.path.inits, ∀ j ∈ x.path, ∀ k ∈ y.path,
      (Ranking.ofElements l).Ties above j k →
        above ++ [j] <+: x.path → above ++ [k] <+: y.path → ¬ above ++ [j] <+: z.path)
    ⟨fun h => h.imp fun hxyz above j k hties hj hk =>
        hxyz above ((List.mem_inits _ _).2 ((List.prefix_append _ _).trans hj))
          j (hj.subset (by simp)) k (hk.subset (by simp)) hties hj hk,
      fun h => h.imp fun hxyz above _ j _ k _ => hxyz above j k⟩

variable {l : List (Element K α)} {x y z : Element K α}

namespace PrefixClosed

variable (closed : PrefixClosed l)

include closed

theorem not_ties {above : List K} {j k : K} (hx : x ∈ l) (hy : y ∈ l)
    (hj : above ++ [j] <+: x.path) (hk : above ++ [k] <+: y.path) :
    ¬ (Ranking.ofElements l).Ties above j k :=
  (covers_of_closed closed hx).not_ties (covers_of_closed closed hy) hj hk

theorem consistentlyRanked : ConsistentlyRanked l := by
  intro a ha b hb c _ hab hbc
  rcases Ranking.isLE_trans_or_ties hab hbc with hac | ⟨above, j, k, hlevels, hj, hk, -⟩
  · exact hac
  · obtain ⟨x, hx, rfl⟩ := List.mem_map.1 ha
    obtain ⟨y, hy, rfl⟩ := List.mem_map.1 hb
    exact absurd hlevels (closed.not_ties hx hy hj hk)

theorem tiesApart : TiesApart l := by
  refine triplewise_iff_forall_sublist.2 fun {x y z} hxyz above j k hlevels hj hk _ => ?_
  have hx : x ∈ l := hxyz.subset (by simp)
  have hy : y ∈ l := hxyz.subset (by simp)
  exact closed.not_ties hx hy hj hk hlevels

end PrefixClosed

namespace Ranking

variable {r : Ranking K} {p : List K}

/-- A path is not behind what it leads to, unless they are the same. -/
theorem eq_of_prefix_of_compare {a b : List K} (h : a <+: b) (hle : (r.compare b a).isLE) :
    a = b := by
  by_contra hne
  rw [r.compare_swap, compare_prefix_lt h hne] at hle
  cases hle

/-- What the ranking puts between two elements below a path, and does not lie below it, lies below a
level that ties with one on the way to it. -/
theorem exists_ties_of_between (hx : p <+: x.path) (hz : p <+: z.path) (hy : ¬ p <+: y.path)
    (hxy : (r.compare x.path y.path).isLE) (hyz : (r.compare y.path z.path).isLE) :
    ∃ above j k, r.Ties above j k ∧ above ++ [j] <+: p ∧ above ++ [k] <+: y.path := by
  rcases prefix_or_part p y.path with h | h | ⟨above, j, k, hne, hj, hk⟩
  · exact absurd h hy
  · -- an element that leads to `x` comes before it
    have hsame := eq_of_prefix_of_compare (h.trans hx) hxy
    exact absurd (hsame ▸ hx) hy
  · refine ⟨above, j, k, ⟨hne, ?_⟩, hj, hk⟩
    rw [compare_siblings hne (hj.trans hx) hk, Nat.isLE_compare] at hxy
    rw [compare_siblings (Ne.symm hne) hk (hj.trans hz), Nat.isLE_compare] at hyz
    exact Nat.le_antisymm hxy hyz

end Ranking

section Consistent

variable (consistent : ConsistentlyRanked l)

include consistent

/-- Elements below two tied levels tie all with each other, so they come out as they are listed. -/
theorem sublist_sortHierarchy_iff {above : List K} {j k : K}
    (hlevels : (Ranking.ofElements l).Ties above j k) (hj : above ++ [j] <+: x.path)
    (hk : above ++ [k] <+: y.path) (hj' : above ++ [j] <+: z.path)
    (members : ∀ w ∈ [x, y, z], w ∈ l) :
    [x, y, z].Sublist (sortHierarchy l) ↔ [x, y, z].Sublist l := by
  have hpaths : ∀ w ∈ [x, y, z], w.path ∈ l.map Element.path :=
    fun w hw => List.mem_map_of_mem (members w hw)
  have hxz := consistent.compare_eq (hpaths x (by simp)) (hpaths y (by simp))
    (hpaths z (by simp)) ⟨above, j, k, hlevels, hj, hk, hj'⟩
  refine Ranking.ConsistentOn.sublist_sort_iff consistent (members x (by simp)) ?_
  simp [Ranking.compare_self, Ranking.compare_eq_of_ties hlevels hj hk, hxz]

theorem TiesApart.sorted_order (apart : TiesApart l) : InHierarchyOrder (sortHierarchy l) := by
  have hsorted := Ranking.ConsistentOn.pairwise_sort consistent
  constructor
  · refine triplewise_iff_forall_sublist.2 fun {x y z} hxyz p hpx hpz => ?_
    by_contra hpy
    have members : ∀ w ∈ [x, y, z], w ∈ l := fun w hw => mem_sortHierarchy.1 (hxyz.subset hw)
    obtain ⟨⟨hxy, -⟩, hyz⟩ := by simpa using hsorted.sublist hxyz
    obtain ⟨above, j, k, hlevels, hj, hk⟩ := Ranking.exists_ties_of_between hpx hpz hpy hxy hyz
    have hlisted := (sublist_sortHierarchy_iff consistent hlevels (hj.trans hpx) hk
      (hj.trans hpz) members).1 hxyz
    exact triplewise_iff_forall_sublist.1 apart hlisted above j k hlevels (hj.trans hpx) hk
      (hj.trans hpz)
  · exact hsorted.imp fun hxy hyx => Ranking.eq_of_prefix_of_compare hyx hxy

/-- A list that is compared consistently is sorted into hierarchy order exactly if it keeps tied
levels apart. -/
theorem sortHierarchy_order_iff : InHierarchyOrder (sortHierarchy l) ↔ TiesApart l := by
  constructor
  · intro order
    refine triplewise_iff_forall_sublist.2 fun {x y z} hxyz above j k hlevels hj hk hj' => ?_
    have hsorted := (sublist_sortHierarchy_iff consistent hlevels hj hk hj' hxyz.subset).2 hxyz
    have hjy := triplewise_iff_forall_sublist.1 order.contiguous hsorted _ hj hj'
    exact hlevels.1 (key_unique hjy hk)
  · exact TiesApart.sorted_order consistent

end Consistent

end Hierarchy
