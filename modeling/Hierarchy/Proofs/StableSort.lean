import Hierarchy.Sorting
import Mathlib.Data.List.Induction

/-!
# Stability

A stable sort keeps the order of what it does not tell apart: the elements of any class whose
members are all in order with each other come out as they went in (`filter_mergeSort`).

For a comparison that is consistent, nothing else is left open: there is one way to put a list in
order and keep the order of what ties (`isStableSort_iff`), and sorting by insertion is a way too
(`isStableSort_sortBy`).  So a stable sort after another sorts by both orders at once
(`IsStableSort.pass`).
-/

namespace Hierarchy

variable {β : Type} {le le' : β → β → Bool} {l : List β}

/-- Sorting only ever compares members of the list. -/
theorem mergeSort_congr (h : ∀ x ∈ l, ∀ y ∈ l, le x y = le' x y) :
    l.mergeSort le = l.mergeSort le' := by
  have hmap := List.map_mergeSort (f := id) h
  rwa [List.map_id, List.map_id] at hmap

theorem filter_mergeSort (trans : ∀ x y z, le x y → le y z → le x z)
    (total : ∀ x y, le x y || le y x) {p : β → Bool} (h : ∀ x y, p x → p y → le x y) (l : List β) :
    (l.mergeSort le).filter p = l.filter p := by
  have hsorted : (l.filter p).Pairwise fun x y => le x y :=
    List.pairwise_of_forall_mem_list fun x hx y hy =>
      h x y (List.mem_filter.1 hx).2 (List.mem_filter.1 hy).2
  have hsublist : (l.filter p).Sublist (l.mergeSort le) :=
    List.sublist_mergeSort trans total hsorted List.filter_sublist
  have hfilter := hsublist.filter p
  simp only [List.filter_filter, Bool.and_self] at hfilter
  have hlength : (l.filter p).length = ((l.mergeSort le).filter p).length :=
    ((List.mergeSort_perm l le).filter p).length_eq.symm
  exact (hfilter.eq_of_length hlength).symm

/-! ## One outcome -/

/-- `sorted` is `l` put in order, where elements that tie are left as they come. -/
structure IsStableSort (order : β → β → Ordering) (sorted l : List β) : Prop where
  perm : sorted.Perm l
  pairwise : sorted.Pairwise fun x y => (order x y).isLE
  stable : ∀ z, sorted.filter (order z · = .eq) = l.filter (order z · = .eq)

variable {order : β → β → Ordering} [Std.TransCmp order]

theorem mem_iff_of_classes {xs ys : List β}
    (classes : ∀ z, xs.filter (order z · = .eq) = ys.filter (order z · = .eq)) {z : β} :
    z ∈ xs ↔ z ∈ ys := by
  have hself : order z z = .eq := Std.ReflCmp.compare_self
  have hclass : z ∈ xs.filter (order z · = .eq) ↔ z ∈ ys.filter (order z · = .eq) := by
    rw [classes z]
  simpa [hself] using hclass

theorem filter_of_filter_cons {x : β} {xs ys : List β} {p : β → Bool}
    (h : (x :: xs).filter p = (x :: ys).filter p) : xs.filter p = ys.filter p := by
  rw [List.filter_cons, List.filter_cons] at h
  split at h
  · exact (List.cons_eq_cons.1 h).2
  · exact h

/-- No element of a list in order comes before the first. -/
theorem isLE_of_mem {x y : β} {xs : List β}
    (h : (x :: xs).Pairwise fun x y => (order x y).isLE) (hy : y ∈ x :: xs) :
    (order x y).isLE := by
  rcases List.mem_cons.1 hy with rfl | hy
  · have hself : order y y = .eq := Std.ReflCmp.compare_self
    rw [hself]
    rfl
  · exact (List.pairwise_cons.1 h).1 y hy

/-- A list in order is known by its classes of elements that tie. -/
theorem eq_of_classes {xs ys : List β} (hxs : xs.Pairwise fun x y => (order x y).isLE)
    (hys : ys.Pairwise fun x y => (order x y).isLE)
    (classes : ∀ z, xs.filter (order z · = .eq) = ys.filter (order z · = .eq)) : xs = ys := by
  induction xs generalizing ys with
  | nil =>
    cases ys with
    | nil => rfl
    | cons y ys => simpa using mem_iff_of_classes classes (z := y)
  | cons x xs ih =>
    cases ys with
    | nil => simpa using mem_iff_of_classes classes (z := x)
    | cons y ys =>
      -- each of the first elements is a member of the other list, so they tie
      have hxy := isLE_of_mem hxs ((mem_iff_of_classes classes).2 List.mem_cons_self)
      have hyx := isLE_of_mem hys ((mem_iff_of_classes classes).1 List.mem_cons_self)
      have htie : order x y = .eq := Std.OrientedCmp.isLE_antisymm hxy hyx
      have hself : order x x = .eq := Std.ReflCmp.compare_self
      have hfirst := classes x
      rw [List.filter_cons_of_pos (by simp [hself]), List.filter_cons_of_pos (by simp [htie])]
        at hfirst
      obtain ⟨rfl, -⟩ := List.cons_eq_cons.1 hfirst
      rw [ih (List.pairwise_cons.1 hxs).2 (List.pairwise_cons.1 hys).2 fun z =>
        filter_of_filter_cons (classes z)]

theorem isStableSort_mergeSort (l : List β) :
    IsStableSort order (l.mergeSort fun x y => (order x y).isLE) l := by
  have htotal : ∀ x y, (order x y).isLE || (order y x).isLE := by
    intro x y
    have hswap : order y x = (order x y).swap := Std.OrientedCmp.eq_swap
    rw [hswap]
    cases order x y <;> rfl
  have htrans : ∀ x y z, (order x y).isLE → (order y z).isLE → (order x z).isLE :=
    fun x y z => Std.TransCmp.isLE_trans
  refine ⟨List.mergeSort_perm _ _, List.pairwise_mergeSort htrans htotal l, fun z => ?_⟩
  refine filter_mergeSort htrans htotal ?_ l
  intro x y hx hy
  rw [decide_eq_true_eq] at hx hy
  rw [Std.TransCmp.eq_trans (Std.OrientedCmp.eq_symm hx) hy]
  rfl

/-- There is one way to put a list in order and keep the order of what ties. -/
theorem isStableSort_iff {sorted l : List β} :
    IsStableSort order sorted l ↔ sorted = l.mergeSort fun x y => (order x y).isLE := by
  have hmerge : IsStableSort order (l.mergeSort fun x y => (order x y).isLE) l :=
    isStableSort_mergeSort l
  constructor
  · intro h
    exact eq_of_classes h.pairwise hmerge.pairwise fun z => by rw [h.stable, hmerge.stable]
  · rintro rfl
    exact hmerge

omit [Std.TransCmp order] in
/-- Elements that tie come out as they went in. -/
theorem IsStableSort.sublist_iff {sorted l c : List β} {x : β} (h : IsStableSort order sorted l)
    (hties : ∀ y ∈ c, order x y = .eq) : c.Sublist sorted ↔ c.Sublist l := by
  have hself : c.filter (order x · = .eq) = c := List.filter_eq_self.2 (by simpa using hties)
  have hclass : ∀ l : List β, c.Sublist l ↔ c.Sublist (l.filter (order x · = .eq)) := by
    intro l
    constructor
    · intro hsub
      have hfilter := hsub.filter (order x · = .eq)
      rwa [hself] at hfilter
    · exact fun hsub => hsub.trans List.filter_sublist
  rw [hclass, h.stable x, ← hclass]

/-! ## Sorting by insertion -/

section Insertion

omit [Std.TransCmp order]

theorem insertFromEnd_perm (x : β) (l : List β) : (insertFromEnd order x l).Perm (x :: l) := by
  induction l with
  | nil => exact .refl _
  | cons y l ih =>
    rw [insertFromEnd]
    split
    · exact (ih.cons y).trans (.swap x y l)
    · exact .refl _

theorem perm_concat {sorted : List β} (h : sorted.Perm l) (x : β) :
    (insertFromEnd order x sorted.reverse).reverse.Perm (l ++ [x]) := by
  have hinsert : (insertFromEnd order x sorted.reverse).Perm (x :: sorted.reverse) :=
    insertFromEnd_perm x sorted.reverse
  have hcons : (x :: sorted.reverse).Perm (x :: l) := (sorted.reverse_perm.trans h).cons x
  exact (List.reverse_perm _).trans
    (hinsert.trans (hcons.trans (List.perm_append_singleton x l).symm))

theorem sortBy_concat (l : List β) (x : β) :
    sortBy order (l ++ [x]) = (insertFromEnd order x (sortBy order l).reverse).reverse := by
  simp [sortBy]

theorem sortBy_perm (l : List β) : (sortBy order l).Perm l := by
  induction l using List.reverseRecOn with
  | nil => exact .refl _
  | append_singleton l x ih =>
    rw [sortBy_concat]
    exact perm_concat ih x

theorem map_insertFromEnd {γ : Type} (f : γ → β) (x : γ) (l : List γ) :
    (insertFromEnd (fun x y => order (f x) (f y)) x l).map f =
      insertFromEnd order (f x) (l.map f) := by
  induction l with
  | nil => rfl
  | cons y l ih =>
    rw [insertFromEnd, List.map_cons, insertFromEnd]
    split
    · rw [List.map_cons, ih]
    · rfl

variable (order) in
theorem map_sortBy {γ : Type} (f : γ → β) (l : List γ) :
    (sortBy (fun x y => order (f x) (f y)) l).map f = sortBy order (l.map f) := by
  induction l using List.reverseRecOn with
  | nil => rfl
  | append_singleton l x ih =>
    rw [List.map_append, List.map_singleton, sortBy_concat, sortBy_concat, List.map_reverse,
      map_insertFromEnd, List.map_reverse, ih]

theorem sortBy_congr {order' : β → β → Ordering} (h : ∀ x ∈ l, ∀ y ∈ l, order x y = order' x y) :
    sortBy order l = sortBy order' l := by
  have hmembers : (fun x y : {x // x ∈ l} => order x.1 y.1) = fun x y => order' x.1 y.1 := by
    funext x y
    exact h x.1 x.2 y.1 y.2
  rw [← List.attach_map_subtype_val l, ← map_sortBy order, ← map_sortBy order', hmembers]

end Insertion

theorem pairwise_insertFromEnd {x : β} {l : List β}
    (hl : l.Pairwise fun x y => (order y x).isLE) :
    (insertFromEnd order x l).Pairwise fun x y => (order y x).isLE := by
  induction l with
  | nil => exact List.pairwise_singleton _ _
  | cons y l ih =>
    obtain ⟨hy, hl'⟩ := List.pairwise_cons.1 hl
    rw [insertFromEnd]
    split
    · next hxy =>
      refine List.pairwise_cons.2 ⟨fun z hz => ?_, ih hl'⟩
      rcases List.mem_cons.1 ((insertFromEnd_perm x l).mem_iff.1 hz) with rfl | hz
      · rw [hxy]
        rfl
      · exact hy z hz
    · next hxy =>
      have hyx : (order y x).isLE := by
        have hswap : order y x = (order x y).swap := Std.OrientedCmp.eq_swap
        rwa [hswap, Ordering.isLE_swap, Ordering.isGE_iff_ne_lt]
      refine List.pairwise_cons.2 ⟨fun z hz => ?_, hl⟩
      rcases List.mem_cons.1 hz with rfl | hz
      · exact hyx
      · exact Std.TransCmp.isLE_trans (hy z hz) hyx

/-- Among the elements that tie with `z`, one that is inserted comes last. -/
theorem filter_insertFromEnd (x z : β) (l : List β) :
    (insertFromEnd order x l).filter (order z · = .eq) = (x :: l).filter (order z · = .eq) := by
  induction l with
  | nil => rfl
  | cons y l ih =>
    rw [insertFromEnd]
    split
    · next hxy =>
      have hparted : ¬ (order z x = .eq ∧ order z y = .eq) := by
        rintro ⟨hzx, hzy⟩
        rw [Std.TransCmp.eq_trans (Std.OrientedCmp.eq_symm hzx) hzy] at hxy
        cases hxy
      rw [List.filter_cons, ih]
      by_cases hzx : order z x = .eq <;> by_cases hzy : order z y = .eq <;> simp_all
    · rfl

/-- An element that is put among sorted ones from their end on comes behind those it ties with. -/
theorem IsStableSort.concat {sorted l : List β} (h : IsStableSort order sorted l) (x : β) :
    IsStableSort order (insertFromEnd order x sorted.reverse).reverse (l ++ [x]) where
  perm := perm_concat h.perm x
  pairwise := by
    rw [List.pairwise_reverse]
    exact pairwise_insertFromEnd (List.pairwise_reverse.2 h.pairwise)
  stable z := by
    rw [List.filter_reverse, filter_insertFromEnd, ← List.filter_reverse, List.reverse_cons,
      List.reverse_reverse, List.filter_append, h.stable z, List.filter_append]

theorem isStableSort_sortBy (l : List β) : IsStableSort order (sortBy order l) l := by
  induction l using List.reverseRecOn with
  | nil => exact ⟨.refl _, .nil, fun _ => rfl⟩
  | append_singleton l x ih =>
    rw [sortBy_concat]
    exact ih.concat x

/-- Where the comparison is consistent, all ways of sorting agree. -/
theorem sortBy_eq_mergeSort (l : List β) :
    sortBy order l = l.mergeSort fun x y => (order x y).isLE :=
  isStableSort_iff.1 (isStableSort_sortBy l)

/-! ## One sort after another -/

/-- Of elements that tie, the one that comes first came first before. -/
theorem IsStableSort.sublist_of_tie {sorted l : List β} {x y : β}
    (h : IsStableSort order sorted l) (htie : order x y = .eq) (hpair : [x, y].Sublist sorted) :
    [x, y].Sublist l := by
  have hself : order x x = .eq := Std.ReflCmp.compare_self
  exact (h.sublist_iff (x := x) (by simp [hself, htie])).1 hpair

/-- What was sorted by one order and is then sorted by another is sorted by the latter, and where
this does not decide, by the former. -/
theorem IsStableSort.pass {minor : β → β → Ordering} {xs ys zs : List β}
    (before : IsStableSort minor ys xs) (h : IsStableSort order zs ys) :
    IsStableSort (compareLex order minor) zs xs where
  perm := h.perm.trans before.perm
  pairwise := by
    rw [List.pairwise_iff_forall_sublist]
    intro x y hpair
    have hle := List.pairwise_iff_forall_sublist.1 h.pairwise hpair
    show ((order x y).then (minor x y)).isLE
    rw [Ordering.isLE_then_iff_or]
    refine (Ordering.isLE_iff_eq_lt_or_eq_eq.1 hle).imp_right fun htie => ⟨htie, ?_⟩
    have hbefore := h.sublist_of_tie htie hpair
    exact List.pairwise_iff_forall_sublist.1 before.pairwise hbefore
  stable z := by
    have hclass : ∀ l : List β, l.filter (compareLex order minor z · = .eq) =
        (l.filter (order z · = .eq)).filter (minor z · = .eq) := by
      intro l
      rw [List.filter_filter]
      refine List.filter_congr fun x _ => ?_
      rw [Bool.and_comm, ← Bool.decide_and]
      exact decide_eq_decide.2 Ordering.then_eq_eq
    have hswap : ∀ l : List β, (l.filter (order z · = .eq)).filter (minor z · = .eq) =
        (l.filter (minor z · = .eq)).filter (order z · = .eq) := by
      intro l
      simp only [List.filter_filter, Bool.and_comm]
    rw [hclass, h.stable z, hswap, before.stable z, ← hswap, ← hclass]

end Hierarchy
