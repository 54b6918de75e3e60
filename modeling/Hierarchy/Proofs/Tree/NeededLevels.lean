import Hierarchy.Proofs.HierarchyOrder

/-!
# The levels that a list needs

A drawing needs every level on the way to a listed element, also those without an element of their
own.  `neededLevels` lists them in the order in which they are first needed.  If the list is in
hierarchy order and lists no path twice, this is the pre-order of the whole tree
(`neededLevels_isPreorder`).

A walk goes through this list piece by piece: of the levels below `above` comes first the one of the
next key, then those further down, then the rest (`neededBelow_run`).
-/

namespace Hierarchy

variable {K α : Type}

/-! ## The positions along a path -/

namespace Position

/-- The positions along a path, root first. -/
def along (path : List K) : List (Position K) := path.inits.filterMap ofPath?

theorem ofPath?_eq_some_iff {path : List K} {p : Position K} :
    ofPath? path = some p ↔ p.path = path := by
  constructor
  · intro h
    obtain ⟨k, hk, rfl⟩ := Option.map_eq_some_iff.1 h
    exact List.dropLast_append_getLast? k hk
  · rintro rfl
    exact ofPath?_path p

@[simp] theorem mem_along {path : List K} {p : Position K} : p ∈ along path ↔ p.path <+: path := by
  simp [along, ofPath?_eq_some_iff]

theorem along_concat (path : List K) (k : K) : along (path ++ [k]) = along path ++ [⟨path, k⟩] := by
  have hlast : ofPath? (path ++ [k]) = some ⟨path, k⟩ := ofPath?_eq_some_iff.2 rfl
  unfold along
  rw [List.inits_append, List.filterMap_append]
  simp [hlast]

/-- Further along a path lies what is further down. -/
theorem along_pairwise (path : List K) :
    (along path).Pairwise fun p q => p.path <+: q.ancestors := by
  induction path using List.reverseRecOn with
  | nil => exact List.Pairwise.nil
  | append_singleton path k ih =>
    rw [along_concat]
    refine List.pairwise_append.2 ⟨ih, List.pairwise_singleton _ _, fun p hp q hq => ?_⟩
    rw [List.mem_singleton.1 hq]
    exact mem_along.1 hp

theorem not_path_prefix_ancestors (p : Position K) : ¬ p.path <+: p.ancestors :=
  concat_not_prefix_self p.ancestors p.key

theorem ancestors_prefix_path (p : Position K) : p.ancestors <+: p.path := List.prefix_append _ _

end Position

variable [DecidableEq K]

/-- The position lies below `above`. -/
def Position.below (above : List K) (p : Position K) : Bool := above.isPrefixOf p.ancestors

@[simp] theorem Position.below_iff {above : List K} {p : Position K} :
    p.below above = true ↔ above <+: p.ancestors :=
  List.isPrefixOf_iff_prefix

/-- Nothing along a path lies below the whole of it. -/
theorem along_filter_self (path : List K) : (Position.along path).filter (·.below path) = [] := by
  rw [List.filter_eq_nil_iff]
  intro p hp hbelow
  exact p.not_path_prefix_ancestors ((Position.mem_along.1 hp).trans (Position.below_iff.1 hbelow))

/-- Along a path that goes on with `k` below `above`, the level of `k` comes first there. -/
theorem along_filter {above path : List K} {k : K} (h : above ++ [k] <+: path) :
    (Position.along path).filter (·.below above) =
      ⟨above, k⟩ :: (Position.along path).filter (·.below (above ++ [k])) := by
  obtain ⟨tail, rfl⟩ := h
  induction tail using List.reverseRecOn with
  | nil =>
    rw [List.append_nil, along_filter_self, Position.along_concat, List.filter_append,
      along_filter_self]
    simp
  | append_singleton tail j ih =>
    rw [← List.append_assoc, Position.along_concat, List.filter_append, List.filter_append, ih]
    simp

/-! ## The levels of a list -/

/-- The levels on the ways to the elements of a list: each element adds those of its own way, and
what comes later only those that do not lie on it. -/
def neededLevels : List (Element K α) → List (Position K)
  | [] => []
  | e :: rest =>
    Position.along e.path ++ (neededLevels rest).filter fun p => ¬ p.path <+: e.path

theorem mem_neededLevels {l : List (Element K α)} {p : Position K} :
    p ∈ neededLevels l ↔ ∃ e ∈ l, p.path <+: e.path := by
  induction l with
  | nil => simp [neededLevels]
  | cons e rest ih =>
    rw [neededLevels, List.mem_append, List.mem_filter, ih, Position.mem_along,
      List.exists_mem_cons_iff]
    by_cases h : p.path <+: e.path <;> simp [h]

/-- `ps` are the levels on the ways to the elements of `l`, in pre-order. -/
structure IsPreorder (l : List (Element K α)) (ps : List (Position K)) : Prop where
  complete : ∀ p, p ∈ ps ↔ ∃ e ∈ l, p.path <+: e.path
  once : ps.Nodup
  /-- No level stands behind one that it leads to. -/
  ancestorFirst : ps.Pairwise fun p q => ¬ q.path <+: p.path
  /-- What lies at or below a level is one run. -/
  contiguous : ps.Triplewise fun p q r =>
    ∀ path, path <+: p.path → path <+: r.path → path <+: q.path
  /-- The elements come in the order of the list. -/
  listed : (l.map Element.position).Sublist ps

/-- What holds for any two in their order holds for the first two of any three. -/
theorem triplewise_of_pairwise {β : Type} {r : β → β → Prop} {l : List β} (h : l.Pairwise r) :
    l.Triplewise fun x y _ => r x y := by
  induction h with
  | nil => exact List.Triplewise.nil
  | cons h _ ih =>
    refine List.triplewise_cons.2 ⟨?_, ih⟩
    exact List.pairwise_of_forall_mem_list fun y hy _ _ => h y hy

theorem neededLevels_ancestorFirst (l : List (Element K α)) :
    (neededLevels l).Pairwise fun p q => ¬ q.path <+: p.path := by
  induction l with
  | nil => exact List.Pairwise.nil
  | cons e rest ih =>
    rw [neededLevels]
    refine List.pairwise_append.2 ⟨?_, ih.filter _, fun p hp q hq hqp => ?_⟩
    · refine (Position.along_pairwise e.path).imp fun {p q} h hqp => ?_
      exact q.not_path_prefix_ancestors (hqp.trans h)
    · exact of_decide_eq_true (List.mem_filter.1 hq).2 (hqp.trans (Position.mem_along.1 hp))

/-- Where a path leads to `e` and to a later element, the levels in between that are not on the way
to `e` lie below this path too. -/
theorem neededLevels_between {e : Element K α} {rest : List (Element K α)}
    (order : InHierarchyOrder (e :: rest)) :
    (neededLevels rest).Pairwise fun q r =>
      ¬ q.path <+: e.path → ∀ path, path <+: e.path → path <+: r.path → path <+: q.path := by
  -- a level off the way to `e` does not end within `path`
  have hlonger : ∀ {q : Position K} {path long : List K}, ¬ q.path <+: e.path → q.path <+: long →
      path <+: e.path → path <+: long → path <+: q.path := fun hq hqlong he hlong =>
    (List.prefix_or_prefix_of_prefix hlong hqlong).resolve_right fun h => hq (h.trans he)
  induction rest with
  | nil => exact List.Pairwise.nil
  | cons f rest ih =>
    rw [neededLevels]
    refine List.pairwise_append.2 ⟨?_, (ih (order.sublist (by simp))).filter _, ?_⟩
    · refine (Position.along_pairwise f.path).imp fun {q r} hqr hqe path he hr => ?_
      exact hlonger hqe (hqr.trans r.ancestors_prefix_path) he hr
    · intro q hq r hr hqe path he hpr
      obtain ⟨z, hz, hrz⟩ := mem_neededLevels.1 (List.mem_filter.1 hr).1
      have order' : InHierarchyOrder ([e] ++ f :: rest) := order
      have hf : path <+: f.path := order'.between List.mem_cons_self hz he (hpr.trans hrz)
      exact hlonger hqe (Position.mem_along.1 hq) he hf

theorem neededLevels_contiguous {l : List (Element K α)} (order : InHierarchyOrder l) :
    (neededLevels l).Triplewise fun p q r =>
      ∀ path, path <+: p.path → path <+: r.path → path <+: q.path := by
  induction l with
  | nil => exact List.Triplewise.nil
  | cons e rest ih =>
    have halong := (Position.along_pairwise e.path).imp fun {p q} h =>
      h.trans q.ancestors_prefix_path
    rw [neededLevels]
    refine List.triplewise_append.2 ⟨?_, ?_, ?_, ?_⟩
    · exact (triplewise_of_pairwise halong).imp fun h path hp _ => hp.trans h
    · exact triplewise_of_sublist List.filter_sublist (ih (order.sublist (by simp)))
    · intro p hp
      rw [List.pairwise_filter]
      exact (neededLevels_between order).imp fun {q r} h hq _ path hpath =>
        h (of_decide_eq_true hq) path (hpath.trans (Position.mem_along.1 hp))
    · exact fun _ _ => halong.imp fun h path hp _ => hp.trans h

/-- A list in hierarchy order needs its levels in pre-order. -/
theorem neededLevels_isPreorder {l : List (Element K α)} (order : InHierarchyOrder l)
    (distinct : (l.map Element.path).Nodup) : IsPreorder l (neededLevels l) where
  complete _ := mem_neededLevels
  once := (neededLevels_ancestorFirst l).imp fun {p q} h (heq : p = q) =>
    h (heq ▸ List.prefix_refl _)
  ancestorFirst := neededLevels_ancestorFirst l
  contiguous := neededLevels_contiguous order
  listed := by
    induction l with
    | nil => exact List.Sublist.slnil
    | cons e rest ih =>
      have halong : [e.position].Sublist (Position.along e.path) :=
        List.singleton_sublist.2 (Position.mem_along.2 (List.prefix_refl _))
      have hrest := (ih (order.sublist (by simp)) (List.nodup_cons.1 distinct).2).filter
        fun p => ¬ p.path <+: e.path
      -- no later element lies on the way to `e`
      have hkept : (rest.map Element.position).filter (fun p => ¬ p.path <+: e.path) =
          rest.map Element.position := by
        rw [List.filter_eq_self]
        intro p hp
        obtain ⟨x, hx, rfl⟩ := List.mem_map.1 hp
        refine decide_eq_true fun hprefix => ?_
        have order' : InHierarchyOrder ([] ++ e :: rest) := order
        have hpath := order'.not_ancestor' hx hprefix
        exact (List.nodup_cons.1 distinct).1 (hpath ▸ List.mem_map_of_mem hx)
      rw [hkept] at hrest
      exact halong.append hrest

/-! ## The levels below a path -/

/-- The levels that a list needs below `above`. -/
def neededBelow (above : List K) (l : List (Element K α)) : List (Position K) :=
  (neededLevels l).filter (·.below above)

theorem neededBelow_nil (l : List (Element K α)) : neededBelow [] l = neededLevels l :=
  List.filter_eq_self.2 (by simp)

theorem neededLevels_append (l m : List (Element K α)) :
    neededLevels (l ++ m) =
      neededLevels l ++ (neededLevels m).filter fun p => ∀ x ∈ l, ¬ p.path <+: x.path := by
  induction l with
  | nil => exact (List.filter_eq_self.2 (by simp)).symm
  | cons e l ih => simp [neededLevels, ih, List.filter_filter]

variable {above : List K} {k : K} {e : Element K α} {run tail : List (Element K α)}

/-- Where all elements lie below the same key, its level comes first. -/
theorem neededBelow_cons (hrun : ∀ x ∈ e :: run, above ++ [k] <+: x.path) :
    neededBelow above (e :: run) = ⟨above, k⟩ :: neededBelow (above ++ [k]) (e :: run) := by
  have he := hrun e List.mem_cons_self
  unfold neededBelow
  rw [neededLevels, List.filter_append, List.filter_append, along_filter he, List.cons_append]
  congr 2
  refine List.filter_congr fun p hp => ?_
  obtain ⟨hp, hpe⟩ := List.mem_filter.1 hp
  obtain ⟨x, hx, hpx⟩ := mem_neededLevels.1 hp
  have hoff : ¬ p.path <+: e.path := of_decide_eq_true hpe
  -- what does not lie on the way to `e` lies below the level of `k`, as all of the run does
  have hlonger : above ++ [k] <+: p.path :=
    (List.prefix_or_prefix_of_prefix hpx (hrun x (List.mem_cons_of_mem _ hx))).resolve_left
      fun h => hoff (h.trans he)
  have hbelow : above ++ [k] <+: p.ancestors :=
    (List.prefix_concat_iff.1 hlonger).resolve_left fun (h : _ = p.path) => hoff (h ▸ he)
  rw [Position.below_iff.2 hbelow, Position.below_iff.2 ((List.prefix_append _ _).trans hbelow)]

omit [DecidableEq K] in
theorem exists_key {p : Position K} (h : above <+: p.ancestors) : ∃ j, above ++ [j] <+: p.path := by
  obtain ⟨_ | ⟨j, deeper⟩, hp⟩ := h
  · exact ⟨p.key, [], by rw [← List.append_nil above, hp, List.append_nil]; rfl⟩
  · exact ⟨j, deeper ++ [p.key], by simp [Position.path, Trail.add, ← hp]⟩

theorem neededBelow_append (hrun : ∀ x ∈ run, above ++ [k] <+: x.path)
    (htail : ∀ x ∈ tail, ¬ above ++ [k] <+: x.path) :
    neededBelow above (run ++ tail) = neededBelow above run ++ neededBelow above tail := by
  unfold neededBelow
  rw [neededLevels_append, List.filter_append, List.filter_filter]
  congr 1
  refine List.filter_congr fun p hp => ?_
  obtain ⟨z, hz, hpz⟩ := mem_neededLevels.1 hp
  rw [Bool.and_eq_left_iff_imp]
  intro hbelow
  refine decide_eq_true fun x hx hpx => ?_
  obtain ⟨j, hj⟩ := exists_key (Position.below_iff.1 hbelow)
  obtain rfl : j = k := key_unique (hj.trans hpx) (hrun x hx)
  exact htail z hz (hj.trans hpz)

/-- The levels below `above`, from a run below one key on: that of the key, those further down, and
those of the rest. -/
theorem neededBelow_run (hrun : ∀ x ∈ e :: run, above ++ [k] <+: x.path)
    (htail : ∀ x ∈ tail, ¬ above ++ [k] <+: x.path) :
    neededBelow above (e :: run ++ tail) =
      ⟨above, k⟩ :: neededBelow (above ++ [k]) (e :: run) ++ neededBelow above tail := by
  rw [neededBelow_append hrun htail, neededBelow_cons hrun]

/-- Nothing else is needed for an element directly below `above`. -/
theorem neededBelow_own (htail : ∀ x ∈ tail, ¬ e.path <+: x.path) :
    neededBelow e.ancestors (e :: tail) = e.position :: neededBelow e.ancestors tail := by
  have hrun : ∀ x ∈ [e], e.ancestors ++ [e.key] <+: x.path := by
    intro x hx
    rw [List.mem_singleton.1 hx]
    exact List.prefix_refl _
  have hbelow : neededBelow (e.ancestors ++ [e.key]) [e] = [] := by
    rw [neededBelow, neededLevels, neededLevels, List.filter_nil, List.append_nil]
    exact along_filter_self e.path
  have h := neededBelow_run hrun htail
  rw [hbelow] at h
  exact h

end Hierarchy
