import Hierarchy.Proofs.InPreorder
import Hierarchy.Proofs.Tree.HiddenLevels

/-!
# Drawings are in pre-order

Each row of a drawing stands at the top, or behind the row of its parent with only rows below the
parent in between, whatever is drawn and in whatever order (`rows_inPreorder`): a level is opened
behind the row of its branch or of what was made for it, and until it is left all rows lie below it.

So a drawing that shows no path twice is in hierarchy order, and with it the elements that it shows
(`order_of_rows_nodup`).
-/

namespace Hierarchy

variable {K α : Type}

/-- The path that a row shows: that of its element, or of the level it was made for. -/
def Row.path (row : Row K α) : List K := row.position.path

/-- An element where the row stands; nothing else of it counts. -/
def Row.outline (row : Row K α) : Element K Unit := .plain row.position .leaf ()

namespace Synthesizer

/-- What is made for a missing level stands there. -/
def Placed (t : Synthesizer K α) : Prop :=
  ∀ above k e, t.creator above k = some e → e.path = above ++ [k]

theorem withSymbol_placed (symbol : String) : (withSymbol symbol : Synthesizer K α).Placed := by
  intro above k e h
  cases h

variable {t : Synthesizer K α} {header graph : String} {above : List K} {drawn : Option K}
  {index : Nat} {k : K} {e : Element K α} {l before rest elements : List (Element K α)}

theorem Placed.path_filler (placed : t.Placed) :
    (t.filler graph above k index).path = above ++ [k] := by
  unfold filler
  split
  · next e he => exact placed above k e he
  · rfl

variable [DecidableEq K]

theorem path_of_mem_filler (placed : t.Placed) {row : Row K α}
    (h : row ∈ (if drawn = some k then [] else [t.filler graph above k index])) :
    row.path = above ++ [k] := by
  split at h
  · cases h
  · rw [List.mem_singleton.1 h, placed.path_filler]

/-- A row of a level lies below it and leads to one of the elements. -/
theorem path_of_mem_level (placed : t.Placed) {row : Row K α}
    (h : row ∈ t.level header above drawn index elements) :
    (∃ k, above ++ [k] <+: row.path) ∧ ∃ x ∈ elements, row.path <+: x.path := by
  induction above, elements using walk_induction generalizing header drawn index with
  | nil above => simp at h
  | outside above e rest he =>
    rw [level_outside _ _ _ _ _ he] at h
    cases h
  | own e rest ih =>
    rw [level_own, List.mem_append] at h
    rcases h with h | h
    · split at h
      · rw [List.mem_singleton.1 h]
        exact ⟨⟨e.key, List.prefix_refl _⟩, e, List.mem_cons_self, List.prefix_refl _⟩
      · cases h
    · obtain ⟨hk, x, hx, hrow⟩ := ih h
      exact ⟨hk, x, List.mem_cons_of_mem _ hx, hrow⟩
  | deeper above k e rest he ih₁ ih₂ =>
    rw [level_deeper _ _ _ _ _ he, List.mem_append, List.mem_append] at h
    rcases h with (h | h) | h
    · rw [path_of_mem_filler placed h]
      exact ⟨⟨k, List.prefix_refl _⟩, e, List.mem_cons_self, he.trans e.ancestors_prefix_path⟩
    · obtain ⟨⟨j, hj⟩, x, hx, hrow⟩ := ih₁ h
      exact ⟨⟨k, (List.prefix_append _ _).trans hj⟩, x, hx, hrow⟩
    · obtain ⟨hk, x, hx, hrow⟩ := ih₂ h
      exact ⟨hk, x, List.mem_cons_of_mem _ ((List.dropWhile_sublist _).subset hx), hrow⟩

omit [DecidableEq K] in
theorem ancestors_eq_of_path {path : List K} {row : Row K α} (h : row.path = path ++ [k]) :
    row.position.ancestors = path :=
  (List.append_inj' h rfl).1

theorem ancestors_of_mem_level (placed : t.Placed) {row : Row K α}
    (h : row ∈ t.level header above drawn index elements) : above <+: row.position.ancestors := by
  obtain ⟨⟨j, hj⟩, -⟩ := path_of_mem_level placed h
  rcases List.prefix_concat_iff.1 hj with heq | hprefix
  · rw [ancestors_eq_of_path heq.symm]
  · exact (List.prefix_append _ _).trans hprefix

/-! ## Pre-order -/

/-- A level is opened behind its branch, or behind what is made for it. -/
theorem opening_inPreorder (placed : t.Placed) {before : List (Element K Unit)}
    (preorder : InPreorder before) (admits : Admits before above)
    (opened : drawn = some k → Admits before (above ++ [k])) :
    let opening := (if drawn = some k then [] else [t.filler graph above k index]).map Row.outline
    InPreorder (before ++ opening) ∧ Admits (before ++ opening) (above ++ [k]) := by
  dsimp only
  split
  · next hdrawn => simpa using ⟨preorder, opened hdrawn⟩
  · have hpath : (t.filler graph above k index).path = above ++ [k] := placed.path_filler
    refine ⟨preorder.concat (admits _ (ancestors_eq_of_path hpath)), ?_⟩
    rw [← hpath]
    exact admits_own

/-- Where a path is open, a level of elements that are all shown goes on in pre-order. -/
theorem level_inPreorder (placed : t.Placed) (above : List K) (elements : List (Element K α)) :
    ∀ header drawn index before, (∀ x ∈ elements, x.shown = true) → InPreorder before →
      Admits before above → (∀ k, drawn = some k → Admits before (above ++ [k])) →
      InPreorder (before ++ (t.level header above drawn index elements).map Row.outline) := by
  induction above, elements using walk_induction with
  | nil above =>
    intro header drawn index before _ preorder _ _
    simpa using preorder
  | outside above e rest he =>
    intro header drawn index before _ preorder _ _
    rw [level_outside _ _ _ _ _ he]
    simpa using preorder
  | own e rest ih =>
    intro header drawn index before shown preorder admits _
    obtain ⟨hshown, shown⟩ := List.forall_mem_cons.1 shown
    rw [level_own, hshown, if_pos rfl, List.map_append, ← List.append_assoc]
    refine ih _ _ _ _ shown (preorder.concat (admits _ rfl)) (admits.append ?_) ?_
    · exact List.forall_mem_singleton.2 (List.prefix_refl _)
    · intro k hk
      obtain ⟨-, rfl⟩ := Element.branchKey?_eq_some_iff.1 hk
      exact admits_own
  | deeper above k e rest he ih₁ ih₂ =>
    intro header drawn index before shown preorder admits opened
    rw [level_deeper _ _ _ _ _ he, List.map_append, List.map_append, ← List.append_assoc,
      ← List.append_assoc]
    have hbehind : ∀ x ∈ rest.dropWhile (belongs above e), x.shown = true := fun x hx =>
      shown x (List.mem_cons_of_mem _ ((List.dropWhile_sublist _).subset hx))
    obtain ⟨preorder', admits'⟩ := opening_inPreorder placed preorder admits (opened k)
    refine ih₂ _ _ _ _ hbehind (ih₁ _ _ _ _ shown preorder' admits' (by simp)) ?_ (by simp)
    -- what the level below has drawn lies below this one
    rw [List.append_assoc, ← List.map_append]
    refine admits.append fun y hy => ?_
    obtain ⟨row, hrow, rfl⟩ := List.mem_map.1 hy
    rcases List.mem_append.1 hrow with hrow | hrow
    · exact (ancestors_eq_of_path (path_of_mem_filler placed hrow)).symm ▸ List.prefix_refl _
    · exact (List.prefix_append _ _).trans (ancestors_of_mem_level placed hrow)

/-- All rows of a list whose elements are shown are in pre-order. -/
theorem rows_inPreorder (placed : t.Placed) (shown : ∀ x ∈ l, x.shown = true) :
    InPreorder ((t.rows l).map Row.outline) := by
  have hempty : InPreorder ([] : List (Element K Unit)) := fun before x after h => by simp at h
  exact level_inPreorder placed [] l "" none 0 [] shown hempty admits_top (by simp)

/-! ## Hierarchy order -/

theorem shown_of_listed {row : Row K α} (h : row ∈ t.level header above drawn index elements)
    (he : row.listed? = some e) : e.shown = true := by
  induction above, elements using walk_induction generalizing header drawn index with
  | nil above => simp at h
  | outside above x rest hx =>
    rw [level_outside _ _ _ _ _ hx] at h
    cases h
  | own x rest ih =>
    rw [level_own, List.mem_append] at h
    rcases h with h | h
    · split at h
      · next hshown =>
        rw [List.mem_singleton.1 h] at he
        cases he
        exact hshown
      · cases h
    · exact ih h
  | deeper above k x rest hx ih₁ ih₂ =>
    rw [level_deeper _ _ _ _ _ hx, List.mem_append, List.mem_append] at h
    rcases h with (h | h) | h
    · split at h
      · cases h
      · rw [List.mem_singleton.1 h, listed?_filler] at he
        cases he
    · exact ih₁ h
    · exact ih₂ h

omit [DecidableEq K] in
theorem outline_listed_sublist (rows : List (Row K α)) :
    ((rows.filterMap Row.listed?).map fun e => Element.plain e.position Kind.leaf ()).Sublist
      (rows.map Row.outline) := by
  induction rows with
  | nil => exact .slnil
  | cons row rows ih =>
    cases hlisted : row.listed? with
    | none =>
      rw [List.filterMap_cons_none hlisted]
      exact ih.cons _
    | some e =>
      have hposition : e.position = row.position := by
        obtain ⟨graph, e | e | p⟩ := row <;> cases hlisted
        rfl
      rw [List.filterMap_cons_some hlisted, List.map_cons, hposition]
      exact ih.cons_cons _

/-- If each element has its row, in the order of the list, and no path is shown twice, the list is
in hierarchy order. -/
theorem order_of_rows_nodup (placed : t.Placed) (listed : (t.rows l).filterMap Row.listed? = l)
    (distinct : ((t.rows l).map Row.path).Nodup) : InHierarchyOrder l := by
  have shown : ∀ x ∈ l, x.shown = true := by
    intro x hx
    rw [← listed] at hx
    obtain ⟨row, hrow, hx⟩ := List.mem_filterMap.1 hx
    exact shown_of_listed hrow hx
  have distinct' : (((t.rows l).map Row.outline).map Element.path).Nodup := by
    rw [List.map_map]
    exact distinct
  have hsublist := outline_listed_sublist (t.rows l)
  rw [listed] at hsublist
  have order := ((rows_inPreorder placed shown).order distinct').sublist hsublist
  exact ⟨List.triplewise_map.1 order.contiguous, List.pairwise_map.1 order.ancestorFirst⟩

end Synthesizer

end Hierarchy
