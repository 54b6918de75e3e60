import Hierarchy.Proofs.Criteria

/-!
# Criteria one by one

Sorting by several criteria is sorting by each of them alone, the last one first: a stable sort
leaves what it does not tell apart as the sorts before it have put it (`SortedInTurn`).  One step is
`IsStableSort.pass`; over all columns it gives `Consistent.sortedInTurn_iff`.  So the first
criterion decides, the later ones break ties, and rows that tie in all of them stay as they were
(`ColumnOrder.sort_in_turn`).

Criteria also resolve one by one, each to the column that it has among the others
(`resolveCriteria_singly`).
-/

namespace Hierarchy

namespace ColumnOrder

variable {β : Type} {cells : β → List String} {xs ys zs : List β} {o : ColumnOrder}
  {k : ColumnKey} {keys : List ColumnKey}

/-! ## One column after the other -/

/-- `SortedInTurn cells keys sorted xs`: stable sorts of `xs` by one column each, the last column of
`keys` first, come to `sorted`. -/
inductive SortedInTurn (cells : β → List String) : List ColumnKey → List β → List β → Prop where
  | done (xs : List β) : SortedInTurn cells [] xs xs
  | pass {k : ColumnKey} {keys : List ColumnKey} {xs ys zs : List β}
      (before : SortedInTurn cells keys ys xs)
      (h : IsStableSort (fun x y => k.compare (cells x) (cells y)) zs ys) :
      SortedInTurn cells (k :: keys) zs xs

/-- Sorts by each column alone, the last one first. -/
def sortInTurn (o : ColumnOrder) (cells : β → List String) (xs : List β) : List β :=
  o.keys.foldr (fun k sorted => sort ⟨[k]⟩ cells sorted) xs

/-- Rows that no column tells apart. -/
def ties (o : ColumnOrder) (a b : List String) : Bool :=
  o.keys.all fun k => k.order (k.cell a) (k.cell b) == .eq

theorem compare_singleton (a b : List String) : compare ⟨[k]⟩ a b = k.compare a b := by
  show (k.compare a b).then .eq = k.compare a b
  cases k.compare a b <;> rfl

theorem compare_eq_iff_ties {a b : List String} : o.compare a b = .eq ↔ o.ties a b := by
  obtain ⟨keys⟩ := o
  induction keys with
  | nil => exact iff_of_true rfl rfl
  | cons k keys ih =>
    have hkey : k.compare a b = .eq ↔ k.order (k.cell a) (k.cell b) = .eq := by
      unfold ColumnKey.compare
      cases k.descending <;> simp
    show (k.compare a b).then (compare ⟨keys⟩ a b) = .eq ↔ _
    rw [Ordering.then_eq_eq, hkey, ih]
    simp [ties]

theorem Consistent.tail (consistent : Consistent ⟨k :: keys⟩) : Consistent ⟨keys⟩ :=
  fun j hj => consistent j (List.mem_cons_of_mem _ hj)

theorem Consistent.head (consistent : Consistent ⟨k :: keys⟩) : Consistent ⟨[k]⟩ :=
  fun j hj => consistent j (List.mem_singleton.1 hj ▸ List.mem_cons_self)

/-- The sort by one column alone is a stable sort. -/
theorem Consistent.isStableSort_singleton (consistent : Consistent ⟨[k]⟩) :
    IsStableSort (fun x y => k.compare (cells x) (cells y)) (sort ⟨[k]⟩ cells xs) xs := by
  have sorted : IsStableSort (fun x y => compare ⟨[k]⟩ (cells x) (cells y))
      (sort ⟨[k]⟩ cells xs) xs := consistent.isStableSort_sort
  simpa only [compare_singleton] using sorted

/-- Stable sorts by one column after the other are one stable sort by all of them. -/
theorem SortedInTurn.isStableSort (h : SortedInTurn cells keys zs xs)
    (consistent : Consistent ⟨keys⟩) :
    IsStableSort (fun x y => compare ⟨keys⟩ (cells x) (cells y)) zs xs := by
  induction h with
  | done xs => exact ⟨.refl _, List.pairwise_of_forall fun _ _ => rfl, fun _ => rfl⟩
  | pass _ h ih =>
    have transCmp := consistent.head.transCmp_cells cells
    simp only [compare_singleton] at transCmp
    exact (ih consistent.tail).pass h

theorem Consistent.sortInTurn_sortedInTurn (consistent : o.Consistent) :
    SortedInTurn cells o.keys (o.sortInTurn cells xs) xs := by
  obtain ⟨keys⟩ := o
  induction keys with
  | nil => exact .done xs
  | cons k keys ih => exact .pass (ih consistent.tail) consistent.head.isStableSort_singleton

/-- Whichever stable sorts are used, in turn they come to the sort by all columns. -/
theorem Consistent.sortedInTurn_iff (consistent : o.Consistent) :
    SortedInTurn cells o.keys zs xs ↔ zs = o.sort cells xs := by
  have hunique : ∀ {zs}, SortedInTurn cells o.keys zs xs → zs = o.sort cells xs :=
    fun h => consistent.isStableSort_iff.1 (h.isStableSort consistent)
  refine ⟨hunique, ?_⟩
  rintro rfl
  have sorted : SortedInTurn cells o.keys (o.sortInTurn cells xs) xs :=
    consistent.sortInTurn_sortedInTurn
  rwa [hunique sorted] at sorted

theorem Consistent.sort_eq_sortInTurn (consistent : o.Consistent) :
    o.sort cells xs = o.sortInTurn cells xs :=
  (consistent.sortedInTurn_iff.1 consistent.sortInTurn_sortedInTurn).symm

theorem Consistent.filter_ties_sort (consistent : o.Consistent) (z : β) :
    (o.sort cells xs).filter (fun x => o.ties (cells z) (cells x)) =
      xs.filter fun x => o.ties (cells z) (cells x) := by
  have sorted : IsStableSort (fun x y => o.compare (cells x) (cells y)) (o.sort cells xs) xs :=
    consistent.isStableSort_sort
  have stable := sorted.stable z
  simpa only [compare_eq_iff_ties, Bool.decide_eq_true] using stable

end ColumnOrder

/-! ## One criterion after the other -/

section Resolved

variable {criteria : List Criterion} {orders : List (String × CellOrder)} {headers : List String}
  {o : ColumnOrder}

/-- The column of a criterion among those with the given headers. -/
def columnFor (orders : List (String × CellOrder)) (headers : List String) (c : Criterion) :
    ColumnKey :=
  ⟨(headers.map columnName).idxOf c.name, c.descending, orderFor orders c.name⟩

/-- Criteria are resolved if all of them name a column, each to the first column of its name. -/
theorem resolveCriteria_eq_ok :
    resolveCriteria criteria orders headers = .ok o ↔
      (∀ c ∈ criteria, c.name ∈ headers.map columnName) ∧
        o = ⟨criteria.map (columnFor orders headers)⟩ := by
  have hknown : (((criteria.filter fun c => !(headers.map columnName).contains c.name).map
      (·.name)).isEmpty = true) ↔ ∀ c ∈ criteria, c.name ∈ headers.map columnName := by
    rw [List.isEmpty_iff, List.map_eq_nil_iff, List.filter_eq_nil_iff]
    simp
  unfold resolveCriteria
  dsimp only
  by_cases hall : ∀ c ∈ criteria, c.name ∈ headers.map columnName
  · rw [if_pos (hknown.2 hall), Except.ok.injEq, and_iff_right hall]
    exact eq_comm
  · rw [if_neg (mt hknown.1 hall)]
    exact iff_of_false (fun h => by cases h) fun h => hall h.1

/-- A criterion means the same column alone and among others. -/
theorem resolveCriteria_singly (h : resolveCriteria criteria orders headers = .ok o) :
    criteria.mapM (fun c => resolveCriteria [c] orders headers) =
      .ok (o.keys.map fun k => ⟨[k]⟩) := by
  obtain ⟨hall, rfl⟩ := resolveCriteria_eq_ok.1 h
  clear h
  induction criteria with
  | nil => rfl
  | cons c criteria ih =>
    obtain ⟨hc, hall⟩ := List.forall_mem_cons.1 hall
    have hfirst : resolveCriteria [c] orders headers = .ok ⟨[columnFor orders headers c]⟩ :=
      resolveCriteria_eq_ok.2 ⟨List.forall_mem_singleton.2 hc, rfl⟩
    rw [List.mapM_cons, hfirst, ih hall]
    rfl

end Resolved

/-- Sorting by columns of text and of numbers, in whatever directions, is sorting stably by each
column alone, the last one first, with whichever stable sort; rows that tie in all columns stay as
they were.  For criteria this means to sort by one criterion after the other. -/
theorem ColumnOrder.sort_in_turn (o : ColumnOrder)
    (orders : ∀ k ∈ o.keys, k.order = textOrder ∨ k.order = numberOrder) {β : Type}
    (cells : β → List String) (xs : List β) :
    o.sort cells xs = o.sortInTurn cells xs ∧
      (∀ sorted, SortedInTurn cells o.keys sorted xs ↔ sorted = o.sort cells xs) ∧
      (o.sort cells xs).Perm xs ∧
      (∀ z, (o.sort cells xs).filter (fun x => o.ties (cells z) (cells x)) =
        xs.filter fun x => o.ties (cells z) (cells x)) ∧
      ∀ criteria registered headers, resolveCriteria criteria registered headers = .ok o →
        ∃ singles, criteria.mapM (fun c => resolveCriteria [c] registered headers) = .ok singles ∧
          o.sort cells xs = singles.foldr (fun single sorted => single.sort cells sorted) xs := by
  have consistent := consistent_of_orders orders
  have hturn : o.sort cells xs = o.sortInTurn cells xs := consistent.sort_eq_sortInTurn
  refine ⟨hturn, fun sorted => consistent.sortedInTurn_iff, sort_perm,
    consistent.filter_ties_sort, ?_⟩
  intro criteria registered headers hresolve
  refine ⟨_, resolveCriteria_singly hresolve, ?_⟩
  rw [hturn, sortInTurn, List.foldr_map]

/-- The criteria of `greatestFirst`. -/
def scoreCriteria : List Criterion := [⟨"score", true⟩, ⟨"name", false⟩]

/-- The rows of `scores`, sorted; two of them tie in the first criterion. -/
def rankedScores : List (List String) := [["d", "?"], [], ["b", " 012 "], ["c", "12"], ["a", "-3"]]

theorem ColumnOrder.scores_in_turn :
    (∀ k ∈ greatestFirst.keys, k.order = textOrder ∨ k.order = numberOrder) ∧
      resolveCriteria scoreCriteria [("score", numberOrder)] ["NAME", "-SCORE"] =
        .ok greatestFirst ∧
      SortedInTurn id greatestFirst.keys rankedScores scores ∧
      ∃ singles, scoreCriteria.mapM (fun c =>
          resolveCriteria [c] [("score", numberOrder)] ["NAME", "-SCORE"]) = .ok singles ∧
        singles.foldr (fun single sorted => single.sort id sorted) scores = rankedScores := by
  have orders : ∀ k ∈ greatestFirst.keys, k.order = textOrder ∨ k.order = numberOrder := by
    simp [greatestFirst]
  have resolves : resolveCriteria scoreCriteria [("score", numberOrder)] ["NAME", "-SCORE"] =
      .ok greatestFirst := by rfl
  have hranked : greatestFirst.sort id scores = rankedScores := by
    have hplace : ∀ x ∈ scores, ∀ y ∈ scores, (greatestFirst.compare (id x) (id y)).isLE =
        decide (rankedScores.idxOf x ≤ rankedScores.idxOf y) := by decide +kernel
    rw [sort_eq_mergeSort, mergeSort_congr hplace]
    simp [scores, rankedScores, List.mergeSort]
  obtain ⟨-, hturn, -, -, hsingly⟩ := sort_in_turn greatestFirst orders id scores
  obtain ⟨singles, hsingles, hsort⟩ := hsingly _ _ _ resolves
  exact ⟨orders, resolves, (hturn _).2 hranked.symm, singles, hsingles, hsort.symm.trans hranked⟩

end Hierarchy
