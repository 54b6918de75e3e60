import Hierarchy.Criteria
import Hierarchy.Proofs.StableSort
import Mathlib.Data.List.Basic

/-!
# Rows in order

The orders of cells are consistent: turned around they answer the reverse, and they are transitive.
Orders of columns and of rows are made of them and inherit this (`ColumnOrder.Consistent.transCmp`).
So sorting by criteria has one outcome (`ColumnOrder.Consistent.isStableSort_iff`), in which each
row stands before all that are greater.  Columns of text and of numbers may be mixed and turned
around at will (`ColumnOrder.ordersRows_and_sort`).  Criteria that are resolved give a consistent
order, if the registered orders are consistent (`consistent_of_resolve`).
-/

namespace Hierarchy

/-! ## Orders of cells -/

instance : Std.TransCmp textOrder := inferInstanceAs (Std.TransOrd String)

instance : Std.OrientedCmp numberOrder where
  eq_swap {a b} := by
    unfold numberOrder
    cases Text.readInt64? (Text.trim a.toList) <;> cases Text.readInt64? (Text.trim b.toList)
    case some.some => exact Std.OrientedOrd.eq_swap
    case none.none => exact Std.OrientedOrd.eq_swap
    all_goals rfl

-- where an integer meets a text the answer is fixed, so only two integers or two texts remain
instance : Std.TransCmp numberOrder where
  isLE_trans {a b c} hab hbc := by
    unfold numberOrder at *
    cases ha : Text.readInt64? (Text.trim a.toList) <;>
      cases hb : Text.readInt64? (Text.trim b.toList) <;>
      cases hc : Text.readInt64? (Text.trim c.toList) <;>
      simp only [ha, hb, hc] at hab hbc ⊢
    case some.some.some => exact Std.TransOrd.isLE_trans hab hbc
    case none.none.none => exact Std.TransOrd.isLE_trans hab hbc
    all_goals first | contradiction | rfl

/-! ## Orders of columns and of rows -/

namespace ColumnKey

variable (k : ColumnKey) [Std.TransCmp k.order]

instance : Std.TransCmp k.compare where
  eq_swap {a b} := by
    have hswap : k.order (k.cell a) (k.cell b) = (k.order (k.cell b) (k.cell a)).swap :=
      Std.OrientedCmp.eq_swap
    unfold compare
    cases k.descending <;> simp [hswap]
  isLE_trans {a b c} hab hbc := by
    unfold compare at *
    cases hdescending : k.descending
    · simp only [hdescending, Bool.false_eq_true, if_false] at hab hbc ⊢
      exact Std.TransCmp.isLE_trans hab hbc
    · simp only [hdescending, if_true, Ordering.isLE_swap] at hab hbc ⊢
      exact Std.TransCmp.isGE_trans hab hbc

end ColumnKey

namespace ColumnOrder

variable {o : ColumnOrder}

/-- Every column is sorted by a consistent order. -/
def Consistent (o : ColumnOrder) : Prop := ∀ k ∈ o.keys, Std.TransCmp k.order

theorem consistent_of_orders
    (orders : ∀ k ∈ o.keys, k.order = textOrder ∨ k.order = numberOrder) : o.Consistent := by
  intro k hk
  rcases orders k hk with horder | horder <;> rw [horder] <;> infer_instance

theorem compare_cons {k : ColumnKey} {keys : List ColumnKey} :
    compare ⟨k :: keys⟩ = compareLex k.compare (compare ⟨keys⟩) := rfl

theorem Consistent.transCmp (consistent : o.Consistent) : Std.TransCmp o.compare := by
  obtain ⟨keys⟩ := o
  induction keys with
  | nil => exact { eq_swap := rfl, isLE_trans := fun _ _ => rfl }
  | cons k keys ih =>
    have : Std.TransCmp k.order := consistent k List.mem_cons_self
    have : Std.TransCmp (compare ⟨keys⟩) := ih fun j hj => consistent j (List.mem_cons_of_mem _ hj)
    rw [compare_cons]
    infer_instance

/-! ## Sorting -/

section Sorting

variable {β : Type} {cells : β → List String} {xs : List β}

theorem sort_eq_mergeSort :
    o.sort cells xs = xs.mergeSort fun x y => (o.compare (cells x) (cells y)).isLE := by
  unfold sort
  split
  · next hempty =>
    have hle : xs.Pairwise fun x y => (o.compare (cells x) (cells y)).isLE := by
      simp only [compare, List.isEmpty_iff.1 hempty]
      exact List.pairwise_of_forall fun _ _ => rfl
    exact (List.mergeSort_of_pairwise hle).symm
  · have hmap := List.map_mergeSort (f := fun x => (cells x, x)) (l := xs)
      (r := fun x y => (o.compare (cells x) (cells y)).isLE)
      (s := fun x y => (o.compare x.1 y.1).isLE) fun _ _ _ _ => rfl
    rw [← hmap, List.map_map]
    exact List.map_id _

theorem sort_perm : (o.sort cells xs).Perm xs := by
  rw [sort_eq_mergeSort]
  exact List.mergeSort_perm xs _

theorem Consistent.transCmp_cells (consistent : o.Consistent) (cells : β → List String) :
    Std.TransCmp fun x y => o.compare (cells x) (cells y) where
  eq_swap := consistent.transCmp.eq_swap
  isLE_trans := consistent.transCmp.isLE_trans

/-- Sorting by criteria is the one way to put rows in order and keep the order of what ties. -/
theorem Consistent.isStableSort_iff (consistent : o.Consistent) {sorted : List β} :
    IsStableSort (fun x y => o.compare (cells x) (cells y)) sorted xs ↔
      sorted = o.sort cells xs := by
  have transCmp := consistent.transCmp_cells cells
  rw [Hierarchy.isStableSort_iff, sort_eq_mergeSort]

theorem Consistent.isStableSort_sort (consistent : o.Consistent) :
    IsStableSort (fun x y => o.compare (cells x) (cells y)) (o.sort cells xs) xs :=
  consistent.isStableSort_iff.2 rfl

theorem Consistent.pairwise_sort (consistent : o.Consistent) :
    (o.sort cells xs).Pairwise fun x y => (o.compare (cells x) (cells y)).isLE :=
  consistent.isStableSort_sort.pairwise

end Sorting

/-! ## Rows in one order -/

/-- The comparison ranks rows, where some may tie: any two compare, the other way round the answer
is the reverse, it is transitive, and rows that tie compare alike to every other. -/
structure OrdersRows (o : ColumnOrder) : Prop where
  swap : ∀ a b, o.compare b a = (o.compare a b).swap
  trans : ∀ a b c, o.compare a b ≠ .gt → o.compare b c ≠ .gt → o.compare a c ≠ .gt
  strict : ∀ a b c, o.compare a b = .lt → o.compare b c = .lt → o.compare a c = .lt
  ties : ∀ a b c, o.compare a b = .eq → o.compare a c = o.compare b c

theorem Consistent.ordersRows (consistent : o.Consistent) : o.OrdersRows where
  swap a b := consistent.transCmp.eq_swap
  trans a b c hab hbc := by
    have transCmp := consistent.transCmp
    have hab := Ordering.ne_gt_iff_isLE.1 hab
    have hbc := Ordering.ne_gt_iff_isLE.1 hbc
    exact Ordering.ne_gt_iff_isLE.2 (Std.TransCmp.isLE_trans hab hbc)
  strict a b c hab hbc := by
    have transCmp := consistent.transCmp
    exact Std.TransCmp.lt_trans hab hbc
  ties a b c hab := by
    have transCmp := consistent.transCmp
    exact Std.TransCmp.congr_left hab

/-- Whatever columns of text and of numbers rows are compared by, in whatever directions, the
comparison ranks all rows, short and long ones, and sorting by it has one outcome. -/
theorem ordersRows_and_sort (o : ColumnOrder)
    (orders : ∀ k ∈ o.keys, k.order = textOrder ∨ k.order = numberOrder) :
    o.OrdersRows ∧ ∀ {β : Type} (cells : β → List String) (sorted xs : List β),
      IsStableSort (fun x y => o.compare (cells x) (cells y)) sorted xs ↔
        sorted = o.sort cells xs := by
  have consistent := consistent_of_orders orders
  exact ⟨consistent.ordersRows, fun _ _ _ => consistent.isStableSort_iff⟩

/-- By the numbers in the second column, turned around, and then by the first column. -/
def greatestFirst : ColumnOrder := ⟨[⟨1, true, numberOrder⟩, ⟨0, false, textOrder⟩]⟩

/-- One number is written in two ways, one row has no number and another no cells at all. -/
def scores : List (List String) := [["c", "12"], ["b", " 012 "], ["d", "?"], ["a", "-3"], []]

theorem scores_ranked :
    (∀ k ∈ greatestFirst.keys, k.order = textOrder ∨ k.order = numberOrder) ∧
      greatestFirst.OrdersRows ∧
      greatestFirst.compare ["b", " 012 "] ["c", "12"] = .lt ∧
      greatestFirst.compare ["d", "?"] ["b", " 012 "] = .lt ∧
      greatestFirst.compare ["d", "?"] ["c", "12"] = .lt ∧
      (∀ sorted, IsStableSort greatestFirst.compare sorted scores ↔
        sorted = greatestFirst.sort id scores) := by
  have orders : ∀ k ∈ greatestFirst.keys, k.order = textOrder ∨ k.order = numberOrder := by
    simp [greatestFirst]
  obtain ⟨ranked, sorts⟩ := ordersRows_and_sort greatestFirst orders
  have hbc : greatestFirst.compare ["b", " 012 "] ["c", "12"] = .lt := by decide +kernel
  have hdb : greatestFirst.compare ["d", "?"] ["b", " 012 "] = .lt := by decide +kernel
  exact ⟨orders, ranked, hbc, hdb, ranked.strict _ _ _ hdb hbc, fun sorted => sorts id sorted scores⟩

end ColumnOrder

/-! ## Resolved criteria -/

section Resolved

variable {orders : List (String × CellOrder)} (registered : ∀ r ∈ orders, Std.TransCmp r.2)

include registered

theorem orderFor_transCmp (name : String) : Std.TransCmp (orderFor orders name) := by
  unfold orderFor
  cases hfind : orders.reverse.find? fun o => Text.lowerCase o.1 == name with
  | none => exact inferInstanceAs (Std.TransCmp textOrder)
  | some r => exact registered r (List.mem_reverse.1 (List.mem_of_find?_eq_some hfind))

/-- Criteria are resolved to columns that are sorted as text or by a registered order. -/
theorem consistent_of_resolve {criteria : List Criterion} {headers : List String}
    {o : ColumnOrder} (h : resolveCriteria criteria orders headers = .ok o) : o.Consistent := by
  unfold resolveCriteria at h
  dsimp only at h
  split at h
  · obtain rfl := Except.ok.inj h
    intro k hk
    obtain ⟨c, -, rfl⟩ := List.mem_map.1 hk
    exact orderFor_transCmp registered c.name
  · cases h

end Resolved

end Hierarchy
