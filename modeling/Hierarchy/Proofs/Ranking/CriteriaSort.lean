import Hierarchy.Proofs.Criteria
import Hierarchy.Proofs.Ranking.HierarchySort
import Mathlib.Data.List.Nodup

/-!
# Sorting by criteria, then into hierarchy order

The first sort keeps rows that tie as they come, so its outcome hangs on the order in which the
elements were found.  The second sort only looks at siblings: paths compare by the ranks of the
first prefixes in which they differ, and these are siblings (`Ranking.compare_congr`).  So two lists
of the same elements come out alike if they have their siblings in one order
(`sortHierarchy_eq_of_siblings`), and criteria that tell siblings apart leave nothing of the order
in which the elements were found (`sortHierarchy_sort_eq`).
-/

namespace Hierarchy

variable {K α : Type} [DecidableEq K]

/-! ## Only siblings count -/

/-- Where two paths part they go on to siblings. -/
theorem firstDivergence_siblings {a b : List K} {level : Nat}
    (h : firstDivergence a b = some level) :
    ∃ above j k, j ≠ k ∧ a.take (level + 1) = above ++ [j] ∧ b.take (level + 1) = above ++ [k] := by
  induction a generalizing b level with
  | nil => cases h
  | cons x a ih =>
    cases b with
    | nil => cases h
    | cons y b =>
      rw [firstDivergence] at h
      split at h
      · next hxy =>
        obtain ⟨level, hlevel, rfl⟩ := Option.map_eq_some_iff.1 h
        obtain ⟨above, j, k, hne, ha, hb⟩ := ih hlevel
        exact ⟨x :: above, j, k, hne, by simp [ha], by simp [hb, hxy]⟩
      · next hxy =>
        cases h
        exact ⟨[], x, y, hxy, rfl, rfl⟩

namespace Ranking

variable {r r' : Ranking K}

/-- Rankings that have siblings in the same order have all paths in the same order. -/
theorem compare_congr {a b : List K}
    (h : ∀ above j k, above ++ [j] <+: a → above ++ [k] <+: b →
      Ord.compare (r.rankOf (above ++ [j])) (r.rankOf (above ++ [k])) =
        Ord.compare (r'.rankOf (above ++ [j])) (r'.rankOf (above ++ [k]))) :
    r.compare a b = r'.compare a b := by
  unfold compare
  cases hdiverge : firstDivergence a b with
  | none => rfl
  | some level =>
    obtain ⟨above, j, k, -, ha, hb⟩ := firstDivergence_siblings hdiverge
    have hranks := h above j k (ha ▸ List.take_prefix _ _) (hb ▸ List.take_prefix _ _)
    rw [← ha, ← hb] at hranks
    exact hranks

/-- Without repetitions a rank is a place. -/
theorem rankOf_getElem (nodup : r.paths.Nodup) {i : Nat} (hi : i < r.paths.length) :
    r.rankOf r.paths[i] = i := by
  obtain ⟨m, hm⟩ := Option.isSome_iff_exists.1 (r.isSome_rank?.2 (List.getElem_mem hi))
  obtain ⟨hlength, hpath⟩ := List.getElem?_eq_some_iff.1 (lastIndex?_spec hm).1
  rw [rankOf, hm]
  exact nodup.getElem_inj_iff.1 hpath

/-- Elements that stand neither before nor behind each other stand at one path. -/
theorem path_eq_of_trailLE {x y : Element K α} (hx : r.Covers x.path) (hy : r.Covers y.path)
    (hxy : r.trailLE x y) (hyx : r.trailLE y x) : x.path = y.path := by
  have htrail : r.rankTrail [] x.path = r.rankTrail [] y.path :=
    Std.LawfulEqOrd.eq_of_compare (Std.OrientedCmp.isLE_antisymm hxy hyx)
  have hprefix : x.path <+: y.path := prefix_of_rankTrail_prefix hx hy (by rw [htrail])
  have hlength := congrArg List.length htrail
  rw [length_rankTrail, length_rankTrail] at hlength
  exact hprefix.eq_of_length hlength

/-- Where paths are distinct and covered, there is one way to sort them. -/
theorem eq_of_pairwise_trailLE {l l' : List (Element K α)} (covers : ∀ x ∈ l, r.Covers x.path)
    (distinct : (l.map Element.path).Nodup) (perm : l.Perm l')
    (sorted : l.Pairwise fun x y => r.trailLE x y)
    (sorted' : l'.Pairwise fun x y => r.trailLE x y) : l = l' := by
  refine perm.eq_of_pairwise ?_ sorted sorted'
  intro x y hx hy hxy hyx
  rw [← perm.mem_iff] at hy
  exact List.inj_on_of_nodup_map distinct hx hy
    (path_eq_of_trailLE (covers x hx) (covers y hy) hxy hyx)

end Ranking

/-- The ranks of siblings follow any order in which a list without repetitions has them. -/
theorem compare_rankOf_eq {l : List (Element K α)} {order : Element K α → Element K α → Ordering}
    [Std.OrientedCmp order] (nodup : (l.map Element.path).Nodup)
    (sorted : l.Pairwise fun x y => x.ancestors = y.ancestors → order x y = .lt)
    {x y : Element K α} (hx : x ∈ l) (hy : y ∈ l) (hancestors : x.ancestors = y.ancestors) :
    Ord.compare ((Ranking.ofElements l).rankOf x.path) ((Ranking.ofElements l).rankOf y.path) =
      order x y := by
  have hrank : ∀ i, (hi : i < l.length) → (Ranking.ofElements l).rankOf l[i].path = i := by
    intro i hi
    have hplace := Ranking.rankOf_getElem (r := Ranking.ofElements l) nodup (i := i)
      (by simpa [Ranking.ofElements] using hi)
    simpa [Ranking.ofElements] using hplace
  obtain ⟨i, hi, rfl⟩ := List.mem_iff_getElem.1 hx
  obtain ⟨j, hj, rfl⟩ := List.mem_iff_getElem.1 hy
  rw [hrank i hi, hrank j hj]
  rw [List.pairwise_iff_getElem] at sorted
  rcases Nat.lt_trichotomy i j with hij | rfl | hij
  · rw [sorted i j hi hj hij hancestors]
    exact Nat.compare_eq_lt.2 hij
  · have hself : order l[i] l[i] = .eq := Std.ReflCmp.compare_self
    rw [hself, Std.compare_self]
  · have hswap : order l[i] l[j] = (order l[j] l[i]).swap := Std.OrientedCmp.eq_swap
    rw [hswap, sorted j i hj hi hij hancestors.symm]
    exact Nat.compare_eq_gt.2 hij

variable {l l' : List (Element K α)}

/-- Lists of the same elements come out alike if they have their siblings in one order. -/
theorem sortHierarchy_eq_of_siblings {order : Element K α → Element K α → Ordering}
    [Std.OrientedCmp order] (perm : l.Perm l') (closed : PrefixClosed l)
    (nodup : (l.map Element.path).Nodup)
    (sorted : l.Pairwise fun x y => x.ancestors = y.ancestors → order x y = .lt)
    (sorted' : l'.Pairwise fun x y => x.ancestors = y.ancestors → order x y = .lt) :
    sortHierarchy l = sortHierarchy l' := by
  have nodup' : (l'.map Element.path).Nodup := (perm.map _).nodup_iff.1 nodup
  -- the rankings differ, but not for siblings
  have hcompare : ∀ x ∈ l, ∀ y ∈ l, (Ranking.ofElements l).compare x.path y.path =
      (Ranking.ofElements l').compare x.path y.path := by
    intro x hx y hy
    refine Ranking.compare_congr fun above j k hj hk => ?_
    obtain ⟨u, hu, hpathu⟩ := closed x hx (above ++ [j]) (by simp) hj
    obtain ⟨v, hv, hpathv⟩ := closed y hy (above ++ [k]) (by simp) hk
    have hancestors : u.ancestors = v.ancestors := by
      rw [u.path_eq] at hpathu
      rw [v.path_eq] at hpathv
      rw [(List.append_inj' hpathu rfl).1, (List.append_inj' hpathv rfl).1]
    rw [← hpathu, ← hpathv, compare_rankOf_eq nodup sorted hu hv hancestors,
      compare_rankOf_eq nodup' sorted' (perm.mem_iff.1 hu) (perm.mem_iff.1 hv) hancestors]
  have hsame : sortHierarchy l' = l'.mergeSort (Ranking.ofElements l).trailLE := by
    refine Ranking.sortBy_rankTrail fun x hx y hy => ?_
    rw [← perm.mem_iff] at hx hy
    rw [← hcompare x hx y hy,
      Ranking.compare_eq_rankTrail (covers_of_closed closed hx) (covers_of_closed closed hy)]
  have hsorted' : (sortHierarchy l').Pairwise fun x y => (Ranking.ofElements l).trailLE x y := by
    rw [hsame]
    exact List.pairwise_mergeSort (Ranking.trailLE_trans _) (Ranking.trailLE_total _) l'
  have hperm : (sortHierarchy l).Perm (sortHierarchy l') :=
    (sortHierarchy_perm l).trans (perm.trans (sortHierarchy_perm l').symm)
  exact Ranking.eq_of_pairwise_trailLE
    (fun x hx => covers_of_closed closed (mem_sortHierarchy.1 hx))
    (((sortHierarchy_perm l).map _).nodup_iff.2 nodup) hperm (sortHierarchy_pairwise closed) hsorted'

/-! ## Criteria -/

namespace ColumnOrder

variable {o : ColumnOrder} {cells : Element K α → List String}

/-- No two siblings of a list tie. -/
def SeparatesSiblings (o : ColumnOrder) (cells : Element K α → List String)
    (l : List (Element K α)) : Prop :=
  l.Pairwise fun x y => x.ancestors = y.ancestors → o.compare (cells x) (cells y) ≠ .eq

instance : Decidable (o.SeparatesSiblings cells l) :=
  inferInstanceAs (Decidable (l.Pairwise fun x y =>
    x.ancestors = y.ancestors → o.compare (cells x) (cells y) ≠ .eq))

omit [DecidableEq K] in
theorem SeparatesSiblings.perm (consistent : o.Consistent)
    (separates : o.SeparatesSiblings cells l) (perm : l.Perm l') :
    o.SeparatesSiblings cells l' := by
  have transCmp := consistent.transCmp
  refine perm.pairwise separates fun {x y} hxy hancestors htie => ?_
  exact hxy hancestors.symm (Std.OrientedCmp.eq_symm htie)

omit [DecidableEq K] in
/-- Sorted, siblings that do not tie are in strict order. -/
theorem SeparatesSiblings.pairwise_sort (consistent : o.Consistent)
    (separates : o.SeparatesSiblings cells l) :
    (o.sort cells l).Pairwise fun x y =>
      x.ancestors = y.ancestors → o.compare (cells x) (cells y) = .lt := by
  have hseparates : o.SeparatesSiblings cells (o.sort cells l) :=
    separates.perm consistent sort_perm.symm
  refine (consistent.pairwise_sort.and hseparates).imp ?_
  rintro x y ⟨hle, hne⟩ hancestors
  exact (Ordering.isLE_iff_eq_lt_or_eq_eq.1 hle).resolve_right (hne hancestors)

end ColumnOrder

/-- Sorted by criteria that tell siblings apart and then into the order of its hierarchy, a complete
list comes out alike however it was mixed.  Elements that are no siblings may tie. -/
theorem sortHierarchy_sort_eq (o : ColumnOrder) (cells : Element K α → List String)
    (orders : ∀ k ∈ o.keys, k.order = textOrder ∨ k.order = numberOrder)
    (l l' : List (Element K α)) (closed : PrefixClosed l) (nodup : (l.map Element.path).Nodup)
    (separates : o.SeparatesSiblings cells l) (perm : l.Perm l') :
    sortHierarchy (o.sort cells l) = sortHierarchy (o.sort cells l') := by
  have consistent : o.Consistent := ColumnOrder.consistent_of_orders orders
  have transCmp := consistent.transCmp
  have oriented : Std.OrientedCmp fun x y : Element K α => o.compare (cells x) (cells y) :=
    ⟨transCmp.eq_swap⟩
  have hsort : (o.sort cells l).Perm l := ColumnOrder.sort_perm
  have hsort' : (o.sort cells l').Perm l' := ColumnOrder.sort_perm
  exact sortHierarchy_eq_of_siblings (hsort.trans (perm.trans hsort'.symm))
    (closed.perm hsort.symm) ((hsort.map _).nodup_iff.2 nodup) (separates.pairwise_sort consistent)
    ((separates.perm consistent perm).pairwise_sort consistent)

/-- Two shelves; boxes on different shelves tie. -/
def shelves : List (Element String String) :=
  [.plain ⟨["a"], "x"⟩ .leaf "7", .plain ⟨[], "b"⟩ .branch "10", .plain ⟨["b"], "x"⟩ .leaf "07",
    .plain ⟨["a"], "y"⟩ .leaf "12", .plain ⟨[], "a"⟩ .branch "9"]

/-- The larger number first. -/
def largestFirst : ColumnOrder := ⟨[⟨1, true, numberOrder⟩]⟩

def shelfCells (e : Element String String) : List String := [e.key, e.item]

theorem shelves_sort_eq :
    largestFirst.SeparatesSiblings shelfCells shelves ∧
      largestFirst.compare ["x", "7"] ["x", "07"] = .eq ∧
      sortHierarchy (largestFirst.sort shelfCells shelves) =
        sortHierarchy (largestFirst.sort shelfCells shelves.reverse) := by
  have separates : largestFirst.SeparatesSiblings shelfCells shelves := by decide +kernel
  refine ⟨separates, by decide +kernel, ?_⟩
  exact sortHierarchy_sort_eq largestFirst shelfCells (by simp [largestFirst]) shelves
    shelves.reverse (by decide +kernel) (by decide +kernel) separates (List.reverse_perm _).symm

end Hierarchy
