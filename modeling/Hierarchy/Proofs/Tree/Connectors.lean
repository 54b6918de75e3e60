import Hierarchy.Proofs.Tree.Level

/-!
# The connectors draw the tree

A complete list in hierarchy order is a tree (`IsTree`).  The walk decides about connectors by
looking ahead from where it stands, once in front of a row and again when it opens the level below.
For a tree both say whether the element has a later sibling anywhere in the list
(`IsTree.continues_eq`), so that the rows are known without the walk (`IsTree.rows_eq`): one for
each element, its connectors read off the list (`treeGraph`).
-/

namespace Hierarchy

variable {K α : Type}

/-- A list that contains whole trees, drawn from their roots: each element is listed once, behind
the elements that it lies below, and what has others below it is a branch. -/
structure IsTree (l : List (Element K α)) : Prop where
  order : InHierarchyOrder l
  closed : PrefixClosed l
  distinct : (l.map Element.path).Nodup
  branches : ∀ x ∈ l, ∀ y ∈ l, x.path <+: y.path → x.path ≠ y.path → x.kind = .branch

variable [DecidableEq K]

instance (l : List (Element K α)) : Decidable (IsTree l) :=
  decidable_of_iff
    (InHierarchyOrder l ∧ PrefixClosed l ∧ (l.map Element.path).Nodup ∧
      ∀ x ∈ l, ∀ y ∈ l, x.path <+: y.path → x.path ≠ y.path → x.kind = .branch)
    ⟨fun ⟨h₁, h₂, h₃, h₄⟩ => ⟨h₁, h₂, h₃, h₄⟩, fun ⟨h₁, h₂, h₃, h₄⟩ => ⟨h₁, h₂, h₃, h₄⟩⟩

/-! ## The connectors of an element, read off the list -/

/-- Behind the element at `path` stands another one with the same ancestors. -/
def hasLaterSibling (path : List K) : List (Element K α) → Bool
  | [] => false
  | x :: rest =>
    x.path == path && rest.any (·.ancestors == x.ancestors) || hasLaterSibling path rest

/-- What stands left of a connector: for each proper ancestor, root first, whether its level goes
on. -/
def bars (l : List (Element K α)) (ancestors : List K) : String :=
  String.join (ancestors.inits.tail.map fun path =>
    if hasLaterSibling path l then verticalGlyph else spaceGlyph)

/-- The graph of an element of the tree `l`, before which of the list `next` comes after it. -/
def treeGraph (symbol : String) (l : List (Element K α)) (e : Element K α)
    (next : Option (Element K α)) : String :=
  bars l e.ancestors ++
  (if hasLaterSibling e.path l then forkGlyph else cornerGlyph) ++
  (if e.kind = .branch ∧ ∃ x ∈ next, e.path <+: x.path ∧ e.path ≠ x.path then symbol else "") ++
  (match e.label with
  | some label => if label = "" then "" else " " ++ label
  | none => "")

theorem bars_nil (l : List (Element K α)) : bars l [] = "" := rfl

theorem bars_concat (l : List (Element K α)) (above : List K) (k : K) :
    bars l (above ++ [k]) =
      bars l above ++ if hasLaterSibling (above ++ [k]) l then verticalGlyph else spaceGlyph := by
  have hinits : (above ++ [k]).inits.tail = above.inits.tail ++ [above ++ [k]] := by
    rw [List.inits_append, List.tail_append_of_ne_nil (by cases above <;> simp)]
    rfl
  unfold bars
  rw [hinits, List.map_append, List.map_singleton, String.join, List.foldl_append]
  rfl

theorem hasLaterSibling_eq_false {path : List K} {l : List (Element K α)}
    (h : ∀ x ∈ l, x.path ≠ path) : hasLaterSibling path l = false := by
  induction l with
  | nil => rfl
  | cons x rest ih =>
    rw [hasLaterSibling, ih fun y hy => h y (List.mem_cons_of_mem _ hy),
      beq_false_of_ne (h x List.mem_cons_self)]
    rfl

/-- Where paths are distinct, what stands behind the element decides. -/
theorem hasLaterSibling_split {before rest : List (Element K α)} {y : Element K α}
    (hbefore : ∀ x ∈ before, x.path ≠ y.path) (hrest : ∀ x ∈ rest, x.path ≠ y.path) :
    hasLaterSibling y.path (before ++ y :: rest) = rest.any (·.ancestors == y.ancestors) := by
  induction before with
  | nil => simp [hasLaterSibling, hasLaterSibling_eq_false hrest]
  | cons x before ih =>
    rw [List.cons_append, hasLaterSibling, ih fun z hz => hbefore z (List.mem_cons_of_mem _ hz),
      beq_false_of_ne (hbefore x List.mem_cons_self)]
    rfl

/-! ## Looking ahead in a tree -/

namespace IsTree

variable {l before rest mid tail : List (Element K α)} {y f : Element K α}

omit [DecidableEq K] in
theorem path_ne (tree : IsTree (before ++ y :: rest)) :
    (∀ x ∈ before, x.path ≠ y.path) ∧ ∀ x ∈ rest, x.path ≠ y.path := by
  have h := tree.distinct
  rw [List.map_append, List.map_cons, List.nodup_append] at h
  obtain ⟨-, hnodup, hdisjoint⟩ := h
  refine ⟨fun x hx => hdisjoint _ (List.mem_map_of_mem hx) _ List.mem_cons_self, fun x hx hxy => ?_⟩
  exact (List.nodup_cons.1 hnodup).1 (hxy ▸ List.mem_map_of_mem hx)

omit [DecidableEq K] in
/-- Behind the subtree of an element no deeper level begins. -/
theorem flat_behind (tree : IsTree (before ++ y :: (mid ++ f :: tail)))
    (hmid : ∀ x ∈ mid, y.path <+: x.ancestors) (hf : ¬ y.path <+: f.ancestors) (k : K) :
    ¬ y.ancestors ++ [k] <+: f.ancestors := by
  intro hk
  have hsplit : before ++ y :: (mid ++ f :: tail) = (before ++ y :: mid) ++ f :: tail := by simp
  rw [hsplit] at tree
  obtain ⟨before', x, hx, hkx⟩ := tree.order.prefix_of_previous tree.closed (by simp) hk
  have hyx : y.path <+: x.path := by
    rcases List.mem_cons.1 (mem_of_append_eq_concat (List.cons_ne_nil y mid) hx) with rfl | hmem
    · exact List.prefix_refl _
    · exact (hmid x hmem).trans x.ancestors_prefix_path
  obtain rfl := key_unique hkx hyx
  exact hf hk

/-- Looking ahead behind the subtree of an element finds its later siblings. -/
theorem continues_eq (tree : IsTree (before ++ y :: (mid ++ tail)))
    (hmid : ∀ x ∈ mid, y.path <+: x.ancestors)
    (htail : ∀ f ∈ tail.head?, ¬ y.path <+: f.ancestors) :
    Synthesizer.continues y.ancestors tail =
      hasLaterSibling y.path (before ++ y :: (mid ++ tail)) := by
  obtain ⟨hbefore, hrest⟩ := tree.path_ne
  rw [hasLaterSibling_split hbefore hrest]
  have hnone : mid.any (·.ancestors == y.ancestors) = false := by
    rw [List.any_eq_false]
    intro x hx hxy
    have hyx := hmid x hx
    rw [Element.path_eq, ← beq_iff_eq.1 hxy] at hyx
    exact concat_not_prefix_self _ _ hyx
  rw [List.any_append, hnone, Bool.false_or]
  cases tail with
  | nil => rfl
  | cons f tail =>
    have hflat := tree.flat_behind hmid (htail f rfl)
    rw [Bool.eq_iff_iff, List.any_eq_true]
    show y.ancestors.isPrefixOf f.ancestors = true ↔ _
    rw [List.isPrefixOf_iff_prefix]
    constructor
    · rintro ⟨deeper, hdeeper⟩
      refine ⟨f, List.mem_cons_self, ?_⟩
      cases deeper with
      | nil => simpa using hdeeper.symm
      | cons k deeper => exact absurd ⟨deeper, by simpa using hdeeper⟩ (hflat k)
    · rintro ⟨z, hz, hzy⟩
      rw [beq_iff_eq] at hzy
      rcases List.mem_cons.1 hz with rfl | hz
      · exact hzy ▸ List.prefix_refl _
      · -- `f` stands between two elements directly in the level, so it is not above them
        have horder := tree.order
        rw [← List.cons_append, ← List.append_assoc] at horder
        have hpf : y.ancestors <+: f.path :=
          horder.between (x := y) (by simp) hz y.ancestors_prefix_path
            (hzy ▸ z.ancestors_prefix_path)
        rcases Element.prefix_path_iff.1 hpf with hpf | hpf
        · exact hpf
        · have hfy : f.path <+: y.path := hpf ▸ y.ancestors_prefix_path
          have := horder.not_ancestor (x := y) (by simp) hfy
          exact absurd (hpf.trans this) (Element.ne_path_of_prefix_ancestors (List.prefix_refl _))

end IsTree

/-! ## The walk over a tree -/

/-- Each element of a list with the one listed next. -/
def withNext {β : Type} : List β → List (β × Option β)
  | [] => []
  | x :: rest => (x, rest.head?) :: withNext rest

theorem map_withNext {β γ : Type} (f : β × Option β → γ) (l : List β) :
    (withNext l).map f = l.mapIdx fun i x => f (x, l[i + 1]?) := by
  induction l with
  | nil => rfl
  | cons x rest ih => simp [withNext, ih, List.mapIdx_cons, List.head?_eq_getElem?]

theorem map_fst_withNext {β : Type} (l : List β) : (withNext l).map Prod.fst = l := by
  induction l with
  | nil => rfl
  | cons x rest ih => rw [withNext, List.map_cons, ih]

theorem withNext_dropWhile {β : Type} (p : β → Bool) (l : List β) :
    withNext (l.dropWhile p) = (withNext l).dropWhile (p ·.1) := by
  induction l with
  | nil => rfl
  | cons x rest ih =>
    by_cases hx : p x
    · simp [withNext, hx, ih]
    · simp [withNext, hx]

/-- The row of an element of the tree `l`. -/
def treeRow (symbol : String) (l : List (Element K α)) (p : Element K α × Option (Element K α)) :
    Row K α :=
  ⟨treeGraph symbol l p.1 p.2, .element p.1⟩

namespace Synthesizer

variable {l before rest : List (Element K α)} {above : List K} {drawn : Option K} {k : K}
  {e : Element K α}

/-- The walk stands between `before` and `rest`, at the level below `above`: if it opens a deeper
level next, it has just drawn the row of that level's own element. -/
def Ready (l : List (Element K α)) (above : List K) (drawn : Option K)
    (before rest : List (Element K α)) : Prop :=
  before ++ rest = l ∧ ∀ e rest' k, rest = e :: rest' → above ++ [k] <+: e.ancestors →
    drawn = some k ∧ ∃ before' y, before = before' ++ [y] ∧ y.path = above ++ [k]

omit [DecidableEq K] in
theorem ready_start (tree : IsTree l) : Ready l [] none [] l := by
  refine ⟨rfl, ?_⟩
  rintro e rest k rfl he
  have order : InHierarchyOrder ([] ++ e :: rest) := tree.order
  obtain ⟨before', x, hnil, -⟩ := order.prefix_of_previous tree.closed (by simp) he
  simp at hnil

omit [DecidableEq K] in
theorem Ready.own (tree : IsTree l) (h : Ready l e.ancestors drawn before (e :: rest)) :
    Ready l e.ancestors e.branchKey? (before ++ [e]) rest := by
  have hl : (before ++ [e]) ++ rest = l := by rw [← h.1]; simp
  refine ⟨hl, ?_⟩
  rintro f rest k rfl hf
  obtain ⟨before', x, hx, hkx⟩ :=
    InHierarchyOrder.prefix_of_previous (hl ▸ tree.order) (hl ▸ tree.closed) (by simp) hf
  obtain ⟨-, rfl⟩ : before = before' ∧ e = x := by simpa using hx
  obtain rfl : k = e.key := key_unique hkx (List.prefix_refl _)
  have hkind : e.kind = .branch :=
    tree.branches e (hl ▸ by simp) f (hl ▸ by simp) (hf.trans f.ancestors_prefix_path)
      (Element.ne_path_of_prefix_ancestors hf)
  exact ⟨Element.branchKey?_eq_some_iff.2 ⟨hkind, rfl⟩, before, e, rfl, rfl⟩

omit [DecidableEq K] in
theorem Ready.deeper (tree : IsTree l) (h : Ready l above drawn before (e :: rest))
    (he : above ++ [k] <+: e.ancestors) : Ready l (above ++ [k]) none before (e :: rest) := by
  refine ⟨h.1, ?_⟩
  rintro f rest' j hf hj
  obtain ⟨rfl, rfl⟩ := List.cons_eq_cons.1 hf
  obtain ⟨-, before', y, rfl, hy⟩ := h.2 e rest k rfl he
  obtain ⟨b, x, hx, hjx⟩ :=
    InHierarchyOrder.prefix_of_previous (h.1 ▸ tree.order) (h.1 ▸ tree.closed) (by simp) hj
  obtain ⟨-, rfl⟩ : before' = b ∧ y = x := by simpa using hx
  exact absurd (hy ▸ hjx) (concat_not_prefix_self _ _)

theorem mark_eq (t : Synthesizer K α) (e : Element K α) (rest : List (Element K α)) :
    t.mark e rest =
      if e.kind = .branch ∧ ∃ x ∈ rest.head?, e.path <+: x.path ∧ e.path ≠ x.path then t.symbol
      else "" := by
  unfold mark
  cases rest with
  | nil => cases e.branchKey? <;> simp
  | cons x rest =>
    cases hkey : e.branchKey? with
    | none =>
      have hkind : e.kind ≠ .branch := fun hkind => by
        rw [Element.branchKey?_eq_some_iff.2 ⟨hkind, rfl⟩] at hkey
        cases hkey
      simp [hkind]
    | some key =>
      obtain ⟨hkind, rfl⟩ := Element.branchKey?_eq_some_iff.1 hkey
      simp only [List.head?_cons, Option.mem_some_iff, exists_eq_left', hkind, true_and,
        Element.strict_prefix_path_iff, List.isPrefixOf_iff_prefix]
      rfl

omit [DecidableEq K] in
theorem labelText_eq (e : Element K α) :
    labelText e = match e.label with
      | some label => if label = "" then "" else " " ++ label
      | none => "" := by
  unfold labelText
  cases e.label with
  | none => rfl
  | some label => simp

/-- In front of a row the walk finds out whether the element has a later sibling. -/
theorem continues_own (tree : IsTree (before ++ e :: rest)) :
    continues e.ancestors (rest.dropWhile (belongs e.ancestors e)) =
      hasLaterSibling e.path (before ++ e :: rest) := by
  have hsplit : rest.takeWhile (belongs e.ancestors e) ++ rest.dropWhile (belongs e.ancestors e) =
      rest := List.takeWhile_append_dropWhile
  rw [← hsplit] at tree
  rw [tree.continues_eq, hsplit]
  · intro x hx
    exact (belongs_own_iff.1 (List.mem_takeWhile_imp hx)).2
  · intro f hf hef
    obtain ⟨tail, htail⟩ := List.head?_eq_some_iff.1 hf
    refine not_of_dropWhile_eq_cons htail (belongs_own_iff.2 ⟨?_, hef⟩)
    exact tree.branches e (by simp) f (by simp [htail]) (hef.trans f.ancestors_prefix_path)
      (Element.ne_path_of_prefix_ancestors hef)

section Opening

variable {y : Element K α} (tree : IsTree (before ++ y :: e :: rest))

include tree

/-- Behind a subtree that the walk has gone through, it does not open a deeper level. -/
theorem flat_behind_run : ∀ f ∈ ((e :: rest).dropWhile (below y.path)).head?,
    ¬ y.path <+: f.ancestors ∧ ∀ k, ¬ y.ancestors ++ [k] <+: f.ancestors := by
  intro f hf
  obtain ⟨tail, htail⟩ := List.head?_eq_some_iff.1 hf
  have hyf : ¬ y.path <+: f.ancestors := by simpa using not_of_dropWhile_eq_cons htail
  have hsplit : (e :: rest).takeWhile (below y.path) ++ f :: tail = e :: rest := by
    rw [← htail, List.takeWhile_append_dropWhile]
  rw [← hsplit] at tree
  refine ⟨hyf, fun k => tree.flat_behind (fun x hx => ?_) hyf k⟩
  exact below_iff.1 (List.mem_takeWhile_imp hx)

theorem ready_behind :
    Ready (before ++ y :: e :: rest) y.ancestors none
      (before ++ y :: (e :: rest).takeWhile (below y.path))
      ((e :: rest).dropWhile (below y.path)) := by
  refine ⟨?_, ?_⟩
  · rw [List.append_assoc, List.cons_append, List.takeWhile_append_dropWhile]
  · rintro f rest' k htail hk
    exact absurd hk ((flat_behind_run tree f (by rw [htail]; rfl)).2 k)

variable (he : y.path <+: e.ancestors)

include he

/-- In a tree nothing else belongs to an entry than its subtree. -/
theorem skip_eq : rest.dropWhile (belongs y.ancestors e) =
    (e :: rest).dropWhile (below y.path) := by
  have hrun : ((e :: rest).dropWhile (below y.path)).dropWhile (belongs y.ancestors e) =
      rest.dropWhile (belongs y.ancestors e) := dropWhile_belongs he rest
  rw [← hrun]
  cases htail : (e :: rest).dropWhile (below y.path) with
  | nil => rfl
  | cons f tail =>
    apply List.dropWhile_cons_of_neg
    intro hf
    obtain ⟨k, hk, -⟩ := belongs_iff.1 hf
    exact (flat_behind_run tree f (by rw [htail]; rfl)).2 k hk

/-- When it opens the level below, the walk finds out the same. -/
theorem continues_opening :
    continues y.ancestors (rest.dropWhile (belongs y.ancestors e)) =
      hasLaterSibling y.path (before ++ y :: e :: rest) := by
  have hflat := flat_behind_run tree
  have hsplit : (e :: rest).takeWhile (below y.path) ++ (e :: rest).dropWhile (below y.path) =
      e :: rest := List.takeWhile_append_dropWhile
  rw [skip_eq tree he]
  rw [← hsplit] at tree
  rw [tree.continues_eq (fun x hx => below_iff.1 (List.mem_takeWhile_imp hx))
    fun f hf => (hflat f hf).1, hsplit]

end Opening

/-- One level of a tree: the rows of its run, with the connectors of the whole list. -/
theorem level_eq_of_tree (t : Synthesizer K α) (tree : IsTree l) (shown : ∀ e ∈ l, e.shown = true)
    (above : List K) (elements : List (Element K α)) :
    ∀ drawn index before, Ready l above drawn before elements →
      t.level (bars l above) above drawn index elements =
        ((withNext elements).takeWhile (below above ·.1)).map (treeRow t.symbol l) := by
  induction above, elements using walk_induction with
  | nil above => simp [withNext]
  | outside above e rest he =>
    intro drawn index before _
    rw [level_outside _ _ _ _ _ he, withNext, List.takeWhile_cons_of_neg (by rwa [below_iff])]
    rfl
  | own e rest ih =>
    intro drawn index before h
    have hl : before ++ e :: rest = l := h.1
    have hcontinues := continues_own (hl ▸ tree)
    rw [hl] at hcontinues
    rw [level_own, ih _ _ _ (h.own tree), withNext, List.takeWhile_cons_of_pos (by simp),
      List.map_cons, if_pos (shown e (hl ▸ by simp)), hcontinues, mark_eq, labelText_eq]
    cases hlater : hasLaterSibling e.path l <;> simp [treeRow, treeGraph, connector, hlater]
  | deeper above k e rest he ih₁ ih₂ =>
    intro drawn index before h
    obtain ⟨rfl, before', y, rfl, hy⟩ := h.2 e rest k rfl he
    obtain ⟨rfl, rfl⟩ : y.ancestors = above ∧ y.key = k := by
      simpa [Element.path_eq] using hy
    have hl : before' ++ y :: e :: rest = l := by rw [← h.1]; simp
    have htree := hl ▸ tree
    have hbehind := ready_behind htree
    have hrest := skip_eq htree he
    have hcontinues := continues_opening htree he
    rw [hl] at hbehind hcontinues
    rw [hrest] at hcontinues ih₂
    have hbar : bars l y.ancestors ++ (connector (continues y.ancestors
        ((e :: rest).dropWhile (below y.path)))).2 = bars l (y.ancestors ++ [y.key]) := by
      rw [bars_concat, hcontinues]
      show _ ++ (connector (hasLaterSibling y.path l)).2 =
        _ ++ if hasLaterSibling y.path l then verticalGlyph else spaceGlyph
      cases hasLaterSibling y.path l <;> rfl
    have himp : ∀ p : Element K α × Option (Element K α),
        below (y.ancestors ++ [y.key]) p.1 → below y.ancestors p.1 := by
      intro p hp
      exact below_iff.2 ((List.prefix_append _ _).trans (below_iff.1 hp))
    rw [level_deeper _ _ _ _ _ he, if_pos rfl, List.nil_append, hrest, hbar,
      ih₁ _ _ _ (h.deeper tree he), ih₂ _ _ _ hbehind,
      takeWhile_eq_append himp (withNext (e :: rest)), List.map_append, withNext_dropWhile]
    rfl

/-- A tree is drawn element by element, without rows of other levels. -/
theorem rows_content_of_tree (t : Synthesizer K α) (tree : IsTree l)
    (shown : ∀ e ∈ l, e.shown = true) : (t.rows l).map Row.content = l.map .element := by
  have hrows := level_eq_of_tree t tree shown [] l none 0 [] (ready_start tree)
  rw [bars_nil, List.takeWhile_eq_self_iff.2 (by simp)] at hrows
  have hcontent : Row.content ∘ treeRow t.symbol l = RowContent.element ∘ Prod.fst := rfl
  rw [rows, hrows, List.map_map, hcontent, ← List.map_map, map_fst_withNext]

end Synthesizer

/-- The rows of a tree: one for each element, in the order of the list, with the connectors that
the list gives it, and none beside them. -/
theorem IsTree.rows_eq {l : List (Element K α)} (tree : IsTree l)
    (shown : ∀ e ∈ l, e.shown = true) (t : Synthesizer K α) :
    t.rows l = l.mapIdx fun i e => ⟨treeGraph t.symbol l e l[i + 1]?, .element e⟩ := by
  have hall : (withNext l).takeWhile (Synthesizer.below [] ·.1) = withNext l :=
    List.takeWhile_eq_self_iff.2 (by simp)
  rw [Synthesizer.rows, ← bars_nil l,
    Synthesizer.level_eq_of_tree t tree shown [] l none 0 [] (Synthesizer.ready_start tree), hall,
    map_withNext]
  rfl

/-- Two levels below `a`, and a root behind it. -/
def smallTree : List (Element Char Unit) :=
  [.plain ⟨[], 'a'⟩ .branch (), .plain ⟨['a'], 'b'⟩ .branch (), .plain ⟨['a', 'b'], 'a'⟩ .leaf (),
    .plain ⟨['a'], 'd'⟩ .leaf (), .plain ⟨[], 'b'⟩ .leaf ()]

theorem smallTree_graphs :
    IsTree smallTree ∧ (∀ e ∈ smallTree, e.shown = true) ∧
      ((Synthesizer.withSymbol "*").rows smallTree).map Row.graph =
        ["├─ *", "│  ├─ *", "│  │  └─", "│  └─", "└─"] := by
  have tree : IsTree smallTree := by decide
  have shown : ∀ e ∈ smallTree, e.shown = true := by decide
  refine ⟨tree, shown, ?_⟩
  rw [tree.rows_eq shown]
  decide +kernel

end Hierarchy
