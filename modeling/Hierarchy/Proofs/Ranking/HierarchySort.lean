import Hierarchy.Proofs.Ranking.RankTrail
import Hierarchy.Proofs.StableSort

/-!
# Sorting into hierarchy order

Sorted by a ranking that lists all their prefixes, elements come in the lexicographic order of
their rank trails (`sortHierarchy_eq_mergeSort`).  Sorted sequences keep together what shares a
prefix and put a prefix before what it begins, so a complete list comes out in hierarchy order;
siblings follow their last places in the list, and elements at one path keep their order
(`sortHierarchy_preorder`).
-/

namespace Hierarchy

/-! ## Sequences in lexicographic order -/

section Sequences

variable {s t u p : List Nat}

/-- What stands between two sequences with a common prefix has it too. -/
theorem prefix_of_between (hs : p <+: s) (hu : p <+: u) (hst : (compare s t).isLE)
    (htu : (compare t u).isLE) : p <+: t := by
  induction p generalizing s t u with
  | nil => exact List.nil_prefix
  | cons n p ih =>
    obtain ⟨s, rfl⟩ := hs
    obtain ⟨u, rfl⟩ := hu
    cases t with
    | nil => simp at hst
    | cons m t =>
      rw [List.cons_append, List.compare_cons_cons, Ordering.isLE_then_iff_and] at hst htu
      obtain rfl : n = m := by
        have h₁ := Nat.isLE_compare.1 hst.1
        have h₂ := Nat.isLE_compare.1 htu.1
        omega
      rw [Std.compare_self] at hst htu
      have hst' : (compare (p ++ s) t).isLE := by simpa using hst
      have htu' : (compare t (p ++ u)).isLE := by simpa using htu
      exact List.cons_prefix_cons.2
        ⟨rfl, ih (List.prefix_append _ _) (List.prefix_append _ _) hst' htu'⟩

/-- No sequence comes before its proper prefixes. -/
theorem eq_of_prefix_of_isLE (h : p <+: s) (hle : (compare s p).isLE) : p = s := by
  induction p generalizing s with
  | nil => simpa using hle.symm
  | cons n p ih =>
    obtain ⟨u, rfl⟩ := h
    rw [List.cons_append, List.compare_cons_cons, Std.compare_self, Ordering.eq_then] at hle
    rw [List.cons_append, ← ih (List.prefix_append _ _) hle]

theorem isLE_of_append (p : List Nat) {m n : Nat}
    (h : (compare (p ++ [m]) (p ++ [n])).isLE) : m ≤ n := by
  induction p with
  | nil => simpa [Nat.isLE_compare] using h
  | cons k p ih =>
    rw [List.cons_append, List.cons_append, List.compare_cons_cons, Std.compare_self,
      Ordering.eq_then] at h
    exact ih h

end Sequences

variable {K α : Type} [DecidableEq K]

/-! ## The sorted list -/

/-- The order of two elements by their rank trails. -/
def Ranking.trailLE (r : Ranking K) (x y : Element K α) : Bool :=
  (Ord.compare (r.rankTrail [] x.path) (r.rankTrail [] y.path)).isLE

theorem Ranking.trailLE_trans (r : Ranking K) (x y z : Element K α) (hxy : r.trailLE x y)
    (hyz : r.trailLE y z) : r.trailLE x z :=
  Std.TransOrd.isLE_trans hxy hyz

theorem Ranking.trailLE_total (r : Ranking K) (x y : Element K α) :
    r.trailLE x y || r.trailLE y x := by
  unfold trailLE
  rw [Std.OrientedOrd.eq_swap (a := r.rankTrail [] y.path)]
  cases Ord.compare (r.rankTrail [] x.path) (r.rankTrail [] y.path) <;> rfl

variable {l : List (Element K α)}

namespace Ranking

variable {r : Ranking K}

/-- Sorting by the comparison of rank trails has one outcome. -/
theorem sortBy_rankTrail {order : Element K α → Element K α → Ordering}
    (h : ∀ x ∈ l, ∀ y ∈ l,
      order x y = Ord.compare (r.rankTrail [] x.path) (r.rankTrail [] y.path)) :
    sortBy order l = l.mergeSort r.trailLE := by
  have transCmp : Std.TransCmp fun x y : Element K α =>
      Ord.compare (r.rankTrail [] x.path) (r.rankTrail [] y.path) :=
    { eq_swap := Std.OrientedOrd.eq_swap, isLE_trans := Std.TransOrd.isLE_trans }
  rw [sortBy_congr h, sortBy_eq_mergeSort]
  rfl

theorem sort_perm (l : List (Element K α)) : (r.sort l).Perm l := sortBy_perm l

variable (covers : ∀ x ∈ l, r.Covers x.path)

include covers

/-- A ranking that ranks every prefix sorts by rank trails. -/
theorem sort_eq_mergeSort : r.sort l = l.mergeSort r.trailLE :=
  sortBy_rankTrail fun x hx y hy => compare_eq_rankTrail (covers x hx) (covers y hy)

theorem sort_pairwise : (r.sort l).Pairwise fun x y => r.trailLE x y := by
  rw [sort_eq_mergeSort covers]
  exact List.pairwise_mergeSort r.trailLE_trans r.trailLE_total l

/-- Sorted by rank trails, what lies below a path stays together behind it. -/
theorem sort_order : InHierarchyOrder (r.sort l) := by
  have hsorted := List.pairwise_iff_getElem.1 (sort_pairwise covers)
  have hcovers : ∀ x ∈ r.sort l, r.Covers x.path :=
    fun x hx => covers x ((sort_perm l).mem_iff.1 hx)
  constructor
  · rw [List.triplewise_iff_getElem]
    intro i j m hij hjm hm p hpi hpm
    have hp := (hcovers _ (List.getElem_mem (by omega))).mono hpi
    refine prefix_of_rankTrail_prefix hp (hcovers _ (List.getElem_mem (by omega))) ?_
    refine prefix_of_between ?_ ?_ (hsorted i j (by omega) (by omega) hij)
      (hsorted j m (by omega) hm hjm)
    · exact rankTrail_prefix hpi
    · exact rankTrail_prefix hpm
  · apply (sort_pairwise covers).imp
    intro x y hxy hyx
    have hbegins : r.rankTrail [] y.path <+: r.rankTrail [] x.path := rankTrail_prefix hyx
    have htrail := congrArg List.length (eq_of_prefix_of_isLE hbegins hxy)
    rw [length_rankTrail, length_rankTrail] at htrail
    exact hyx.eq_of_length htrail

end Ranking

omit [DecidableEq K] in
theorem covers_of_closed (closed : PrefixClosed l) {x : Element K α} (hx : x ∈ l) :
    (Ranking.ofElements l).Covers x.path := by
  intro p hp hpx
  obtain ⟨y, hy, rfl⟩ := closed x hx p hp hpx
  exact List.mem_map_of_mem hy

/-- A complete list is sorted by rank trails. -/
theorem sortHierarchy_eq_mergeSort (closed : PrefixClosed l) :
    sortHierarchy l = l.mergeSort (Ranking.ofElements l).trailLE :=
  Ranking.sort_eq_mergeSort fun _ => covers_of_closed closed

theorem sortHierarchy_perm (l : List (Element K α)) : (sortHierarchy l).Perm l :=
  Ranking.sort_perm l

theorem sortHierarchy_pairwise (closed : PrefixClosed l) :
    (sortHierarchy l).Pairwise fun x y => (Ranking.ofElements l).trailLE x y :=
  Ranking.sort_pairwise fun _ => covers_of_closed closed

theorem mem_sortHierarchy {x : Element K α} : x ∈ sortHierarchy l ↔ x ∈ l :=
  (sortHierarchy_perm l).mem_iff

theorem sortHierarchy_order (closed : PrefixClosed l) : InHierarchyOrder (sortHierarchy l) :=
  Ranking.sort_order fun _ => covers_of_closed closed

/-- An element at `q` is listed behind the last one at `p`. -/
def LastListedBefore (l : List (Element K α)) (p q : List K) : Prop :=
  ∃ y rest, y :: rest <:+ l ∧ y.path = q ∧ ∀ z ∈ rest, z.path ≠ p

theorem lastListedBefore_of_rankOf_lt {p q : List K} (hp : p ∈ l.map Element.path)
    (hq : q ∈ l.map Element.path)
    (h : (Ranking.ofElements l).rankOf p < (Ranking.ofElements l).rankOf q) :
    LastListedBefore l p q := by
  obtain ⟨i, hi⟩ := Option.isSome_iff_exists.1 ((Ranking.ofElements l).isSome_rank?.2 hp)
  obtain ⟨j, hj⟩ := Option.isSome_iff_exists.1 ((Ranking.ofElements l).isSome_rank?.2 hq)
  rw [Ranking.rankOf, Ranking.rankOf, hi, hj] at h
  have hlt : i < j := h
  obtain ⟨hjq, -⟩ := lastIndex?_spec hj
  obtain ⟨-, hbehind⟩ := lastIndex?_spec hi
  simp only [Ranking.ofElements, List.getElem?_map] at hjq hbehind
  obtain ⟨y, hy, rfl⟩ := Option.map_eq_some_iff.1 hjq
  obtain ⟨hjl, rfl⟩ := List.getElem?_eq_some_iff.1 hy
  refine ⟨l[j], l.drop (j + 1), ?_, rfl, ?_⟩
  · rw [← List.drop_eq_getElem_cons hjl]
    exact List.drop_suffix j l
  · intro z hz hzp
    obtain ⟨m, hm, rfl⟩ := List.mem_iff_getElem.1 hz
    rw [List.getElem_drop] at hzp
    have hml : j + 1 + m < l.length := by
      rw [List.length_drop] at hm
      omega
    apply hbehind (j + 1 + m) (by omega)
    rw [List.getElem?_eq_getElem hml, Option.map_some, hzp]

/-- Siblings come in the order of their last places. -/
theorem sortHierarchy_siblings (closed : PrefixClosed l) :
    (sortHierarchy l).Pairwise fun x y =>
      x.ancestors = y.ancestors → x.path ≠ y.path → LastListedBefore l x.path y.path := by
  apply (sortHierarchy_pairwise closed).imp_of_mem
  intro x y hx hy hxy hancestors hne
  have hxl := List.mem_map_of_mem (f := Element.path) (mem_sortHierarchy.1 hx)
  have hyl := List.mem_map_of_mem (f := Element.path) (mem_sortHierarchy.1 hy)
  apply lastListedBefore_of_rankOf_lt hxl hyl
  have hle : (Ranking.ofElements l).rankOf x.path ≤ (Ranking.ofElements l).rankOf y.path := by
    have h := hxy
    unfold Ranking.trailLE at h
    rw [x.path_eq, y.path_eq, hancestors, Ranking.rankTrail_append, Ranking.rankTrail_append] at h
    have := isLE_of_append _ h
    rwa [List.nil_append, ← hancestors, ← x.path_eq, hancestors, ← y.path_eq] at this
  refine lt_of_le_of_ne hle fun heq => hne ?_
  exact (Ranking.ofElements l).rankOf_injective hxl hyl heq

omit [DecidableEq K] in
/-- Elements at one path stand next to each other. -/
theorem InHierarchyOrder.adjacent (order : InHierarchyOrder l) :
    l.Triplewise fun x y z => x.path = z.path → y.path = x.path := by
  rw [List.triplewise_iff_getElem]
  intro i j m hij hjm hm hxz
  have hbetween := List.triplewise_iff_getElem.1 order.contiguous i j m hij hjm hm
  have hfirst := List.pairwise_iff_getElem.1 order.ancestorFirst j m (by omega) hm hjm
  have hxy := hbetween l[i].path (List.prefix_refl _) (by rw [hxz])
  rw [hxz] at hxy ⊢
  exact (hfirst hxy).symm

/-- `sorted` is the pre-order of a list: nothing is lost or added, each element comes before its
descendants, each subtree is one run, siblings follow their last places in the list, and elements
at one path stand next to each other as they stood in the list. -/
structure IsPreorderOf (sorted l : List (Element K α)) : Prop extends InHierarchyOrder sorted where
  perm : sorted.Perm l
  siblings : sorted.Pairwise fun x y =>
    x.ancestors = y.ancestors → x.path ≠ y.path → LastListedBefore l x.path y.path
  adjacent : sorted.Triplewise fun x y z => x.path = z.path → y.path = x.path
  stable : ∀ path, sorted.filter (·.path = path) = l.filter (·.path = path)

/-- A complete list is sorted into its pre-order. -/
theorem sortHierarchy_preorder (l : List (Element K α)) (closed : PrefixClosed l) :
    IsPreorderOf (sortHierarchy l) l := by
  have order := sortHierarchy_order closed
  refine ⟨order, sortHierarchy_perm l, sortHierarchy_siblings closed, order.adjacent,
    fun path => ?_⟩
  rw [sortHierarchy_eq_mergeSort closed]
  refine filter_mergeSort (Ranking.trailLE_trans _) (Ranking.trailLE_total _) ?_ l
  intro x y hx hy
  rw [decide_eq_true_eq] at hx hy
  unfold Ranking.trailLE
  rw [hx, hy, Std.compare_self]
  rfl

/-- Two subtrees mixed with each other; `a` is listed twice. -/
def mixedTrees : List (Element Char Nat) :=
  [.plain ⟨['a'], 'x'⟩ .leaf 0, .plain ⟨[], 'a'⟩ .branch 1, .plain ⟨[], 'b'⟩ .branch 2,
    .plain ⟨['b'], 'x'⟩ .leaf 3, .plain ⟨[], 'a'⟩ .leaf 4]

theorem mixedTrees_sorted :
    PrefixClosed mixedTrees ∧ IsPreorderOf (sortHierarchy mixedTrees) mixedTrees ∧
      (sortHierarchy mixedTrees).map (·.item) = [2, 3, 1, 4, 0] := by
  have closed : PrefixClosed mixedTrees := by decide
  exact ⟨closed, sortHierarchy_preorder mixedTrees closed, by decide⟩

end Hierarchy
