import Hierarchy.Proofs.Ranking.MissingLevels
import Hierarchy.Proofs.Tree.RowOrder

/-!
# Each level is drawn once

A level without an element of its own gets a row where the walk first needs it.  In hierarchy order
everything below it follows at once, so the walk does not come back to it and no two rows of a
drawing show the same path (`rows_paths_nodup`).

Where the ranking compares the paths of a list consistently (`ConsistentlyRanked`), sorting brings
the elements of a missing level together exactly if nothing that ties with it stands in between
(`TiesApart`).  Then each level of the sorted list is drawn once (`sorted_rows_nodup`); otherwise
the walk comes back to a level that it has left, unless it overlooks what lies there.  Without
consistency nothing is said about the sorted list, and a level may be drawn twice as well
(`crossed_drawn_twice`).
-/

namespace Hierarchy

namespace Synthesizer

variable {K α : Type} [DecidableEq K] {t : Synthesizer K α} {header graph : String}
  {above : List K} {drawn : Option K} {index : Nat} {k : K} {e : Element K α}
  {l before rest : List (Element K α)}

/-- A level that the walk needs and has not just drawn is drawn. -/
theorem mem_paths_of_deeper (placed : t.Placed) (he : above ++ [k] <+: e.ancestors) :
    above ++ [k] ∈ (t.level header above none index (e :: rest)).map Row.path := by
  rw [level_deeper _ _ _ _ _ he]
  simp [placed.path_filler]

/-- What is drawn of a level that the walk opens lies at or below it. -/
theorem prefix_of_mem_opening (placed : t.Placed) {row : Row K α}
    (h : row ∈ (if drawn = some k then [] else [t.filler graph above k index]) ++
      t.level header (above ++ [k]) none index l) : above ++ [k] <+: row.path := by
  rcases List.mem_append.1 h with h | h
  · rw [path_of_mem_filler placed h]
  · obtain ⟨⟨j, hj⟩, -⟩ := path_of_mem_level placed h
    exact (List.prefix_append _ _).trans hj

/-- The walk does not come back to a level that it has gone through. -/
theorem not_prefix_of_mem_behind (order : InHierarchyOrder (before ++ e :: rest))
    (he : above ++ [k] <+: e.ancestors) :
    ∀ x ∈ rest.dropWhile (belongs above e), ¬ above ++ [k] <+: x.path := by
  intro x hx hk
  have hrun : x ∈ (e :: rest).dropWhile (below (above ++ [k])) := by
    rw [← dropWhile_belongs he rest] at hx
    exact (List.dropWhile_sublist _).subset hx
  rcases Element.prefix_path_iff.1 hk with hk | hk
  · exact not_below_of_mem_dropWhile order he x hrun hk
  · have hprefix : x.path <+: e.path := hk ▸ he.trans e.ancestors_prefix_path
    have hsame := order.not_ancestor' ((List.dropWhile_sublist _).subset hx) hprefix
    exact Element.ne_path_of_prefix_ancestors he (hk.trans hsame)

section Tree

variable (placed : t.Placed) (order : InHierarchyOrder l) (distinct : (l.map Element.path).Nodup)
  (branches : ∀ x ∈ l, ∀ y ∈ l, x.path <+: y.path → x.path ≠ y.path → x.kind = .branch)

include placed order distinct branches

/-- Behind the row of an element its path is not drawn again: if the list goes on below it, the
level opened next is its own. -/
theorem path_ne_of_mem_own (hl : before ++ e :: rest = l) {row : Row K α}
    (h : row ∈ t.level header e.ancestors e.branchKey? index rest) : row.path ≠ e.path := by
  intro hrow
  obtain ⟨-, x, hx, hprefix⟩ := path_of_mem_level placed h
  cases rest with
  | nil => cases hx
  | cons f rest =>
    have hne : ∀ y ∈ f :: rest, e.path ≠ y.path := by
      intro y hy heq
      have hnodup := distinct
      rw [← hl, List.map_append, List.nodup_append] at hnodup
      exact (List.nodup_cons.1 hnodup.2.1).1 (heq ▸ List.mem_map_of_mem hy)
    have hfirst : e.path <+: f.ancestors := by
      refine Element.strict_prefix_path_iff.1 ⟨?_, hne f List.mem_cons_self⟩
      rw [hrow] at hprefix
      rcases List.mem_cons.1 hx with rfl | hx
      · exact hprefix
      · rw [← hl, ← List.singleton_append, ← List.append_assoc] at order
        exact order.between (x := e) (by simp) hx (List.prefix_refl _) hprefix
    have hbranch : e.branchKey? = some e.key := by
      refine Element.branchKey?_eq_some_iff.2 ⟨?_, rfl⟩
      exact branches e (hl ▸ by simp) f (hl ▸ by simp) (hfirst.trans f.ancestors_prefix_path)
        (hne f List.mem_cons_self)
    have hf : e.ancestors ++ [e.key] <+: f.ancestors := hfirst
    rw [hbranch, level_deeper _ _ _ _ _ hf, if_pos rfl, List.nil_append, List.mem_append] at h
    rcases h with h | h
    · obtain ⟨⟨j, hj⟩, -⟩ := path_of_mem_level placed h
      rw [hrow] at hj
      exact concat_not_prefix_self e.path j hj
    · obtain ⟨-, y, hy, hprefix⟩ := path_of_mem_level placed h
      rw [hrow] at hprefix
      rw [← hl, ← List.singleton_append, ← List.append_assoc] at order
      exact not_prefix_of_mem_behind order hf y hy hprefix

/-- One level: no two rows show the same path. -/
theorem level_paths_nodup (above : List K) (elements : List (Element K α)) :
    ∀ header drawn index before, before ++ elements = l →
      ((t.level header above drawn index elements).map Row.path).Nodup := by
  induction above, elements using walk_induction with
  | nil above => simp
  | outside above e rest he =>
    intro header drawn index before _
    rw [level_outside _ _ _ _ _ he]
    exact List.nodup_nil
  | own e rest ih =>
    intro header drawn index before hl
    rw [level_own, List.map_append]
    refine List.nodup_append.2 ⟨by split <;> simp, ih _ _ _ (before ++ [e]) (by simpa using hl), ?_⟩
    intro p hp q hq
    obtain ⟨own, hown, rfl⟩ := List.mem_map.1 hp
    obtain ⟨row, hrow, rfl⟩ := List.mem_map.1 hq
    split at hown
    · rw [List.mem_singleton.1 hown]
      exact (path_ne_of_mem_own placed order distinct branches hl hrow).symm
    · cases hown
  | deeper above k e rest he ih₁ ih₂ =>
    intro header drawn index before hl
    have hsplit : before ++ (e :: rest.takeWhile (belongs above e)) ++
        rest.dropWhile (belongs above e) = l := by simpa using hl
    rw [level_deeper _ _ _ _ _ he, List.map_append]
    refine List.nodup_append.2 ⟨?_, ih₂ _ _ _ _ hsplit, ?_⟩
    · -- the rows of the level opened here lie strictly below its own path
      rw [List.map_append]
      refine List.nodup_append.2 ⟨by split <;> simp, ih₁ _ _ _ before hl, ?_⟩
      intro p hp q hq heq
      obtain ⟨own, hown, rfl⟩ := List.mem_map.1 hp
      obtain ⟨row, hrow, rfl⟩ := List.mem_map.1 hq
      obtain ⟨⟨j, hj⟩, -⟩ := path_of_mem_level placed hrow
      rw [← heq, path_of_mem_filler placed hown] at hj
      exact concat_not_prefix_self _ j hj
    · -- and what comes behind does not lie at or below it any more
      intro p hp q hq heq
      obtain ⟨own, hown, rfl⟩ := List.mem_map.1 hp
      obtain ⟨row, hrow, rfl⟩ := List.mem_map.1 hq
      obtain ⟨-, x, hx, hprefix⟩ := path_of_mem_level placed hrow
      have hlevel := heq ▸ prefix_of_mem_opening placed hown
      exact not_prefix_of_mem_behind (hl ▸ order) he x hx (hlevel.trans hprefix)

/-- No two rows of a list in hierarchy order show the same path, whatever it leaves out. -/
theorem rows_paths_nodup : ((t.rows l).map Row.path).Nodup :=
  level_paths_nodup placed order distinct branches [] l "" none 0 [] rfl

end Tree

/-- A list that is compared consistently shows each path once when it is sorted, if it keeps tied
levels apart.  If it does not, a path is shown twice or some element has no row. -/
theorem sorted_rows_nodup (placed : t.Placed) (distinct : (l.map Element.path).Nodup)
    (branches : ∀ x ∈ l, ∀ y ∈ l, x.path <+: y.path → x.path ≠ y.path → x.kind = .branch)
    (consistent : ConsistentlyRanked l) :
    (TiesApart l → ((t.rows (sortHierarchy l)).map Row.path).Nodup) ∧
      ((t.rows (sortHierarchy l)).filterMap Row.listed? = sortHierarchy l →
        ((t.rows (sortHierarchy l)).map Row.path).Nodup → TiesApart l) := by
  have perm := sortHierarchy_perm l
  constructor
  · intro apart
    refine rows_paths_nodup placed (apart.sorted_order consistent)
      ((perm.map Element.path).nodup_iff.2 distinct) fun x hx y hy => ?_
    exact branches x (perm.mem_iff.1 hx) y (perm.mem_iff.1 hy)
  · intro listed hrows
    exact (sortHierarchy_order_iff consistent).1 (order_of_rows_nodup placed listed hrows)

end Synthesizer

/-- Elements below the missing levels `b`, `b/x`, `b/u`, `a` and `c/v`, mixed with the branch
`c`. -/
def gappy : List (Element Char Unit) :=
  [.plain ⟨['c'], 'y'⟩ .leaf (), .plain ⟨['b', 'x'], 'p'⟩ .leaf (), .plain ⟨[], 'c'⟩ .branch (),
    .plain ⟨['b', 'u'], 's'⟩ .leaf (), .plain ⟨['a'], 'w'⟩ .leaf (), .plain ⟨['c', 'v'], 'q'⟩ .leaf ()]

theorem gappy_rows_nodup :
    (gappy.map Element.path).Nodup ∧
      (∀ x ∈ gappy, ∀ y ∈ gappy, x.path <+: y.path → x.path ≠ y.path → x.kind = .branch) ∧
      ConsistentlyRanked gappy ∧ TiesApart gappy ∧
      (((Synthesizer.withSymbol defaultSymbol).rows (sortHierarchy gappy)).map Row.path).Nodup := by
  have distinct : (gappy.map Element.path).Nodup := by decide
  have branches : ∀ x ∈ gappy, ∀ y ∈ gappy,
      x.path <+: y.path → x.path ≠ y.path → x.kind = .branch := by decide
  have consistent : ConsistentlyRanked gappy := by decide
  have apart : TiesApart gappy := by decide
  exact ⟨distinct, branches, consistent, apart, (Synthesizer.sorted_rows_nodup
    (Synthesizer.withSymbol_placed _) distinct branches consistent).1 apart⟩

/-- Elements below two missing levels in turn. -/
def crossed : List (Element Char Unit) :=
  [.plain ⟨['a'], 'x'⟩ .leaf (), .plain ⟨['b'], 'y'⟩ .leaf (), .plain ⟨['a'], 'z'⟩ .leaf ()]

/-- Both levels have no rank, so that the sort leaves the list as it is, and the first of them is
drawn again behind the second. -/
theorem crossed_drawn_twice :
    (∀ e ∈ crossed, e.shown = true) ∧ (crossed.map Element.path).Nodup ∧
      (∀ x ∈ crossed, ∀ y ∈ crossed, x.path <+: y.path → x.path ≠ y.path → x.kind = .branch) ∧
      ¬ (((Synthesizer.withSymbol defaultSymbol).rows (sortHierarchy crossed)).map
        Row.path).Nodup := by
  refine ⟨by decide, by decide, by decide, ?_⟩
  have hsort : sortHierarchy crossed = crossed := by decide
  rw [hsort]
  unfold Synthesizer.rows crossed
  intro distinct
  -- behind `a/x` the walk goes on with the whole rest, and behind `b/y` too
  have hrest : [Element.plain ⟨['b'], 'y'⟩ .leaf (), .plain ⟨['a'], 'z'⟩ .leaf ()].dropWhile
      (Synthesizer.belongs [] (Element.plain ⟨['a'], 'x'⟩ .leaf ())) =
        [.plain ⟨['b'], 'y'⟩ .leaf (), .plain ⟨['a'], 'z'⟩ .leaf ()] := by decide
  have hrest' : [Element.plain ⟨['a'], 'z'⟩ .leaf ()].dropWhile
      (Synthesizer.belongs [] (Element.plain ⟨['b'], 'y'⟩ .leaf ())) =
        [.plain ⟨['a'], 'z'⟩ .leaf ()] := by decide
  have ha : ([] : List Char) ++ ['a'] <+: ['a'] := List.prefix_refl _
  have hb : ([] : List Char) ++ ['b'] <+: ['b'] := List.prefix_refl _
  have placed := Synthesizer.withSymbol_placed (K := Char) (α := Unit) defaultSymbol
  rw [Synthesizer.level_deeper _ _ _ _ _ ha, hrest, List.map_append, List.nodup_append] at distinct
  refine distinct.2.2 ['a'] ?_ ['a'] ?_ rfl
  · simp [placed.path_filler]
  · rw [Synthesizer.level_deeper _ _ _ _ _ hb, hrest', List.map_append]
    exact List.mem_append_right _ (Synthesizer.mem_paths_of_deeper placed ha)

end Hierarchy
