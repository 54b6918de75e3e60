import Hierarchy.Proofs.Tree.Connectors
import Hierarchy.Proofs.Tree.HiddenLevels
import Hierarchy.Proofs.Tree.NeededLevels

/-!
# Leaves alone are drawn as a complete tree

Where no listed path leads to another one, no level but the last on each way has an element of its
own (`IsLeafList`).  The walk makes up all the others, several for one element if its neighbour
left the tree higher up, and it does so once each and in their places: the rows are the levels that
the list needs, in pre-order, with connectors, fillers and causes read off the list
(`leaf_rows`, `levelRow`).
-/

namespace Hierarchy

variable {K α : Type}

/-- Elements to be shown, none a branch and none at or above another one, listed so that those with
a common prefix are one run. -/
structure IsLeafList (l : List (Element K α)) : Prop where
  contiguous : l.Triplewise fun x y z => ∀ p, p <+: x.path → p <+: z.path → p <+: y.path
  apart : l.Pairwise fun x y => ¬ x.path <+: y.path ∧ ¬ y.path <+: x.path
  leaves : ∀ x ∈ l, x.kind ≠ .branch
  shown : ∀ x ∈ l, x.shown = true

namespace IsLeafList

variable {l before rest : List (Element K α)} {e x y : Element K α} {p : List K}

theorem eq_of_prefix (leaves : IsLeafList l) (hx : x ∈ l) (hy : y ∈ l) (h : x.path <+: y.path) :
    x = y := by
  refine List.Pairwise.forall_of_forall_of_flip (R := fun x y => x.path <+: y.path → x = y)
    (fun _ _ _ => rfl) ?_ ?_ hx hy h
  · exact leaves.apart.imp fun h hprefix => absurd hprefix h.1
  · exact leaves.apart.imp fun h hprefix => absurd hprefix h.2

theorem order (leaves : IsLeafList l) : InHierarchyOrder l :=
  ⟨leaves.contiguous, leaves.apart.imp fun h hprefix => absurd hprefix h.2⟩

theorem distinct (leaves : IsLeafList l) : (l.map Element.path).Nodup :=
  List.pairwise_map.2 (leaves.apart.imp fun {x y} h (heq : x.path = y.path) =>
    h.1 (heq ▸ List.prefix_refl _))

/-- What leads to the ancestors of one element is not the path of any other. -/
theorem prefix_ancestors (leaves : IsLeafList l) (he : e ∈ l) (hx : x ∈ l) (hpe : p <+: e.ancestors)
    (hpx : p <+: x.path) : p <+: x.ancestors := by
  refine Element.strict_prefix_path_iff.1 ⟨hpx, fun heq => ?_⟩
  have hxe : x = e := leaves.eq_of_prefix hx he (heq ▸ hpe.trans e.ancestors_prefix_path)
  exact Element.ne_path_of_prefix_ancestors hpe (hxe ▸ heq)

theorem not_prefix (leaves : IsLeafList (before ++ e :: rest)) :
    (∀ x ∈ before, ¬ e.path <+: x.path) ∧ ∀ x ∈ rest, ¬ e.path <+: x.path := by
  obtain ⟨-, hrest, hbefore⟩ := List.pairwise_append.1 leaves.apart
  exact ⟨fun x hx => (hbefore x hx e List.mem_cons_self).2,
    fun x hx => ((List.pairwise_cons.1 hrest).1 x hx).1⟩

theorem branchKey?_eq_none (leaves : IsLeafList l) (he : e ∈ l) : e.branchKey? = none := by
  by_contra hkey
  obtain ⟨k, hkey⟩ := Option.ne_none_iff_exists'.1 hkey
  exact leaves.leaves e he (Element.branchKey?_eq_some_iff.1 hkey).1

end IsLeafList

variable [DecidableEq K]

instance (l : List (Element K α)) : Decidable (IsLeafList l) :=
  decidable_of_iff
    (InHierarchyOrder l ∧ l.Pairwise (fun x y => ¬ x.path <+: y.path ∧ ¬ y.path <+: x.path) ∧
      (∀ x ∈ l, x.kind ≠ .branch) ∧ ∀ x ∈ l, x.shown = true)
    ⟨fun ⟨h₁, h₂, h₃, h₄⟩ => ⟨h₁.contiguous, h₂, h₃, h₄⟩,
      fun h => ⟨h.order, h.apart, h.leaves, h.shown⟩⟩

/-! ## The row of a level, read off the list -/

/-- Behind the first path at or below `p` one is listed that leads strictly below the ancestors of
`p`, but not to `p`. -/
def goesOn (l : List (Element K α)) (p : Position K) : Bool :=
  (l.dropWhile fun x => ¬ p.path <+: x.path).any fun z =>
    p.ancestors <+: z.path ∧ p.ancestors ≠ z.path ∧ ¬ p.path <+: z.path

/-- What stands left of a connector: for each level above, root first, whether it goes on. -/
def levelBars (l : List (Element K α)) (ancestors : List K) : String :=
  String.join ((Position.along ancestors).map fun p =>
    if goesOn l p then verticalGlyph else spaceGlyph)

/-- The connectors of a level. -/
def levelGraph (l : List (Element K α)) (p : Position K) : String :=
  levelBars l p.ancestors ++ if goesOn l p then forkGlyph else cornerGlyph

/-- The row of a level: its element, if the list has one; else what the creator makes for it; else
a placeholder that names the first element at or below it. -/
def levelRow (t : Synthesizer K α) (l : List (Element K α)) (p : Position K) : Row K α :=
  match l.find? (·.position = p) with
  | some e =>
    ⟨levelGraph l p ++ (match e.label with
      | some label => if label = "" then "" else " " ++ label
      | none => ""), .element e⟩
  | none =>
    match t.creator p.ancestors p.key with
    | some e => ⟨levelGraph l p, .created e⟩
    | none => ⟨levelGraph l p, .placeholder ⟨p, l.findIdx fun x => p.path <+: x.path⟩⟩

theorem levelBars_concat (l : List (Element K α)) (above : List K) (k : K) :
    levelBars l (above ++ [k]) =
      levelBars l above ++ if goesOn l ⟨above, k⟩ then verticalGlyph else spaceGlyph := by
  unfold levelBars
  rw [Position.along_concat, List.map_append, List.map_singleton, String.join, List.foldl_append]
  rfl

namespace Synthesizer

variable {t : Synthesizer K α} {l before rest run tail : List (Element K α)} {above : List K}
  {k : K} {e : Element K α} {p : Position K}

/-! ## The run of a level -/

/-- `run` is all of the list that lies at or below the level `p`. -/
structure IsRun (l : List (Element K α)) (p : Position K) (before run tail : List (Element K α)) :
    Prop where
  split : before ++ run ++ tail = l
  before : ∀ x ∈ before, ¬ p.path <+: x.path
  run : ∀ x ∈ run, p.path <+: x.path
  tail : ∀ x ∈ tail, ¬ p.path <+: x.path

theorem IsRun.dropWhile_eq (isRun : IsRun l p before (e :: run) tail) :
    l.dropWhile (fun x => ¬ p.path <+: x.path) = e :: run ++ tail := by
  have hskip : ∀ x ∈ before, decide (¬ p.path <+: x.path) = true :=
    fun x hx => decide_eq_true (isRun.before x hx)
  have hstop : ¬ decide (¬ p.path <+: e.path) = true := by
    simpa using isRun.run e List.mem_cons_self
  rw [← isRun.split, List.append_assoc, List.dropWhile_append_of_pos hskip, List.cons_append,
    List.dropWhile_cons, if_neg hstop]

theorem IsRun.findIdx_eq (isRun : IsRun l p before (e :: run) tail) :
    l.findIdx (fun x => p.path <+: x.path) = before.length := by
  have hnone : before.findIdx (fun x => p.path <+: x.path) = before.length := by
    rw [List.findIdx_eq_length]
    exact fun x hx => decide_eq_false (isRun.before x hx)
  rw [← isRun.split, List.append_assoc, List.findIdx_append, hnone, if_neg (Nat.lt_irrefl _),
    List.cons_append, List.findIdx_cons, decide_eq_true (isRun.run e List.mem_cons_self),
    cond_true, Nat.zero_add]

/-- A level goes on if anything behind its run lies below its ancestors. -/
theorem IsRun.goesOn_iff (isRun : IsRun l p before (e :: run) tail) :
    goesOn l p = true ↔ ∃ z ∈ tail, p.ancestors <+: z.ancestors := by
  rw [goesOn, isRun.dropWhile_eq, List.any_eq_true]
  constructor
  · rintro ⟨z, hz, hzp⟩
    obtain ⟨habove, hne, hoff⟩ := of_decide_eq_true hzp
    rcases List.mem_append.1 hz with hz | hz
    · exact absurd (isRun.run z hz) hoff
    · exact ⟨z, hz, Element.strict_prefix_path_iff.1 ⟨habove, hne⟩⟩
  · rintro ⟨z, hz, habove⟩
    obtain ⟨habove, hne⟩ := Element.strict_prefix_path_iff.2 habove
    exact ⟨z, List.mem_append_right _ hz, decide_eq_true ⟨habove, hne, isRun.tail z hz⟩⟩

/-- Looking ahead from behind the run of a level finds whether the level goes on. -/
theorem IsRun.continues_eq (leaves : IsLeafList l) (isRun : IsRun l p before (e :: run) tail) :
    continues p.ancestors tail = goesOn l p := by
  have he : p.ancestors <+: e.path :=
    p.ancestors_prefix_path.trans (isRun.run e List.mem_cons_self)
  rw [Bool.eq_iff_iff, isRun.goesOn_iff]
  cases tail with
  | nil => simp [continues]
  | cons f tail =>
    show p.ancestors.isPrefixOf f.ancestors = true ↔ _
    rw [List.isPrefixOf_iff_prefix]
    constructor
    · intro hf
      exact ⟨f, List.mem_cons_self, hf⟩
    · rintro ⟨z, hz, hzabove⟩
      rcases List.mem_cons.1 hz with rfl | hz
      · exact hzabove
      · -- `f` stands between `e` and `z`, and not at `p.ancestors`, which leads to `z`
        have order := leaves.order
        rw [← isRun.split] at order
        have hf : p.ancestors <+: f.path :=
          order.between (x := e) (by simp) hz he (hzabove.trans z.ancestors_prefix_path)
        have hzl : z ∈ l := isRun.split ▸ by simp [hz]
        exact leaves.prefix_ancestors hzl (isRun.split ▸ by simp) hzabove hf

/-! ## The rows of a walk -/

theorem levelRow_missing (h : l.find? (fun x => decide (x.position = p)) = none) :
    levelRow t l p = t.filler (levelGraph l p) p.ancestors p.key
      (l.findIdx fun x => p.path <+: x.path) := by
  unfold levelRow filler
  cases t.creator p.ancestors p.key <;> simp only [h]

/-- A level on the way to an element has none of its own. -/
theorem IsRun.filler_eq (leaves : IsLeafList l) (isRun : IsRun l p before (e :: run) tail)
    (he : p.path <+: e.ancestors) :
    t.filler (levelGraph l p) p.ancestors p.key before.length = levelRow t l p := by
  have hmem : e ∈ l := isRun.split ▸ by simp
  have hnone : l.find? (fun x => decide (x.position = p)) = none := by
    rw [List.find?_eq_none]
    intro x hx
    rw [decide_eq_true_eq]
    rintro rfl
    exact Element.ne_path_of_prefix_ancestors
      (leaves.prefix_ancestors hmem hx he (List.prefix_refl _)) rfl
  rw [levelRow_missing hnone, isRun.findIdx_eq]

theorem own_eq_levelRow (leaves : IsLeafList l) (he : e ∈ l) :
    (⟨levelGraph l e.position ++ t.mark e rest ++ labelText e, .element e⟩ : Row K α) =
      levelRow t l e.position := by
  have hself : l.find? (fun x => decide (x.position = e.position)) = some e := by
    have hsome : (l.find? fun x => decide (x.position = e.position)).isSome :=
      List.find?_isSome.2 ⟨e, he, by simp⟩
    obtain ⟨x, hx⟩ := Option.isSome_iff_exists.1 hsome
    have hposition : x.position = e.position := by simpa using List.find?_some hx
    have hpath : x.path = e.path := congrArg Position.path hposition
    rw [hx, leaves.eq_of_prefix (List.mem_of_find?_eq_some hx) he (hpath ▸ List.prefix_refl _)]
  have hmark : t.mark e rest = "" := by
    rw [mark_eq, if_neg fun h => leaves.leaves e he h.1]
  have hlabel : labelText e = match e.label with
      | some label => if label = "" then "" else " " ++ label
      | none => "" := labelText_eq e
  unfold levelRow
  rw [hself, hmark, hlabel, String.append_empty]

theorem levelGraph_eq (l : List (Element K α)) (p : Position K) :
    levelBars l p.ancestors ++ (connector (goesOn l p)).1 = levelGraph l p := by
  unfold levelGraph connector
  cases goesOn l p <;> rfl

theorem levelBars_eq (l : List (Element K α)) (p : Position K) :
    levelBars l p.ancestors ++ (connector (goesOn l p)).2 = levelBars l p.path := by
  rw [Position.path, Trail.add, levelBars_concat, connector]
  cases goesOn l p <;> rfl

/-! ## The walk over a list of leaves -/

/-- An element directly in the level is a run of its own. -/
theorem Opens.isRun_own (leaves : IsLeafList l) (h : Opens l above before (e :: rest)) :
    IsRun l e.position before [e] rest := by
  obtain rfl := h.1
  obtain ⟨hbefore, hrest⟩ := leaves.not_prefix
  refine ⟨by simp, hbefore, fun x hx => ?_, hrest⟩
  rw [List.mem_singleton.1 hx]
  exact List.prefix_refl _

/-- Where the walk opens a level, its whole run comes next. -/
theorem Opens.isRun (leaves : IsLeafList l) (h : Opens l above before (e :: rest))
    (he : above ++ [k] <+: e.ancestors) :
    IsRun l ⟨above, k⟩ before (e :: rest.takeWhile (below (above ++ [k])))
      (rest.dropWhile (below (above ++ [k]))) := by
  obtain rfl := h.1
  have hstrict : ∀ x ∈ before ++ e :: rest,
      above ++ [k] <+: x.path → above ++ [k] <+: x.ancestors :=
    fun x hx => leaves.prefix_ancestors (by simp) hx he
  refine ⟨by simp, fun x hx hkx => ?_, fun x hx => ?_, fun x hx hkx => ?_⟩
  · exact (h.2 e rest rfl k he).1 x hx (hstrict x (List.mem_append_left _ hx) hkx)
  · rcases List.mem_cons.1 hx with rfl | hx
    · exact he.trans x.ancestors_prefix_path
    · exact (below_iff.1 (List.mem_takeWhile_imp hx)).trans x.ancestors_prefix_path
  · have hbehind := not_below_of_mem_dropWhile leaves.order he
    rw [List.dropWhile_cons_of_pos (below_iff.2 he)] at hbehind
    have hxl : x ∈ before ++ e :: rest :=
      List.mem_append_right _ (List.mem_cons_of_mem _ ((List.dropWhile_sublist _).subset hx))
    exact hbehind x hx (hstrict x hxl hkx)

/-- Only the run of the next key belongs to a deeper leaf. -/
theorem belongs_leaf (he : above ++ [k] <+: e.ancestors) (hkey : e.branchKey? = none) :
    belongs above e = below (above ++ [k]) := by
  funext x
  rw [Bool.eq_iff_iff, belongs_iff, below_iff]
  constructor
  · rintro ⟨j, hx, hj | hj⟩
    · exact key_unique hj he ▸ hx
    · rw [hkey] at hj
      cases hj
  · intro hx
    exact ⟨k, hx, Or.inl he⟩

/-- Nothing belongs to a leaf directly in the level. -/
theorem dropWhile_belongs_leaf (hkind : e.kind ≠ .branch) (rest : List (Element K α)) :
    rest.dropWhile (belongs e.ancestors e) = rest := by
  cases rest with
  | nil => rfl
  | cons x rest => exact List.dropWhile_cons_of_neg fun h => hkind (belongs_own_iff.1 h).1

theorem Opens.behind_run (leaves : IsLeafList l) (h : Opens l above before (e :: rest))
    (he : above ++ [k] <+: e.ancestors) :
    Opens l above (before ++ e :: rest.takeWhile (below (above ++ [k])))
      (rest.dropWhile (below (above ++ [k]))) := by
  have hmem : e ∈ l := h.1 ▸ by simp
  have hsplit : e :: rest = e :: rest.takeWhile (below (above ++ [k])) ++
      rest.dropWhile (below (above ++ [k])) := by
    rw [List.cons_append, List.takeWhile_append_dropWhile]
  have isRun := h.isRun leaves he
  have hrun : ∀ x ∈ e :: rest.takeWhile (below (above ++ [k])), above ++ [k] <+: x.ancestors :=
    fun x hx => leaves.prefix_ancestors hmem
      (isRun.split ▸ List.mem_append_left _ (List.mem_append_right _ hx)) he (isRun.run x hx)
  have hbehind := h.behind he hsplit hrun
    (fun x hx hkx => isRun.tail x hx (hkx.trans x.ancestors_prefix_path)) leaves.order
  rwa [belongs_leaf he (leaves.branchKey?_eq_none hmem), takeWhile_dropWhile_self,
    List.append_nil, dropWhile_dropWhile_of_imp fun _ hx => hx] at hbehind

/-- One level of a list of leaves: the rows of all levels that its run needs. -/
theorem level_eq_of_leaves (leaves : IsLeafList l) (above : List K)
    (elements : List (Element K α)) :
    ∀ before, Opens l above before elements →
      t.level (levelBars l above) above none before.length elements =
        (neededBelow above (elements.takeWhile (below above))).map (levelRow t l) := by
  induction above, elements using walk_induction with
  | nil above =>
    intro before _
    rw [level_nil]
    rfl
  | outside above e rest he =>
    intro before _
    rw [level_outside _ _ _ _ _ he, List.takeWhile_cons_of_neg (by rwa [below_iff])]
    rfl
  | own e rest ih =>
    intro before h
    have hmem : e ∈ l := h.1 ▸ by simp
    have isRun := h.isRun_own leaves
    have hmore : continues e.ancestors rest = goesOn l e.position := isRun.continues_eq leaves
    have hgraph : levelBars l e.ancestors ++ (connector (goesOn l e.position)).1 =
        levelGraph l e.position := levelGraph_eq l e.position
    have hlevel := ih _ (h.own leaves.order)
    rw [List.length_append, List.length_singleton] at hlevel
    rw [level_own, if_pos (leaves.shown e hmem), dropWhile_belongs_leaf (leaves.leaves e hmem),
      leaves.branchKey?_eq_none hmem, hmore, hgraph, hlevel, own_eq_levelRow leaves hmem,
      List.takeWhile_cons_of_pos (by simp), neededBelow_own fun x hx =>
        isRun.tail x ((List.takeWhile_sublist _).subset hx)]
    rfl
  | deeper above k e rest he ih₁ ih₂ =>
    intro before h
    have hmem : e ∈ l := h.1 ▸ by simp
    have isRun := h.isRun leaves he
    have hmore : continues above (rest.dropWhile (below (above ++ [k]))) =
        goesOn l ⟨above, k⟩ := isRun.continues_eq leaves
    have hgraph : levelBars l above ++ (connector (goesOn l ⟨above, k⟩)).1 =
        levelGraph l ⟨above, k⟩ := levelGraph_eq l ⟨above, k⟩
    have hbars : levelBars l above ++ (connector (goesOn l ⟨above, k⟩)).2 =
        levelBars l (above ++ [k]) := levelBars_eq l ⟨above, k⟩
    have hfiller : t.filler (levelGraph l ⟨above, k⟩) above k before.length =
        levelRow t l ⟨above, k⟩ := isRun.filler_eq leaves he
    have hlength : before.length + 1 +
        (rest.length - (rest.dropWhile (below (above ++ [k]))).length) =
          (before ++ e :: rest.takeWhile (below (above ++ [k]))).length := by
      have := congrArg List.length
        (List.takeWhile_append_dropWhile (p := below (above ++ [k])) (l := rest))
      rw [List.length_append] at this
      rw [List.length_append, List.length_cons]
      omega
    have hlevel : (e :: rest).takeWhile (below above) =
        e :: rest.takeWhile (below (above ++ [k])) ++
          (rest.dropWhile (below (above ++ [k]))).takeWhile (below above) := by
      rw [takeWhile_eq_append (q := below (above ++ [k])) fun x hx =>
        below_iff.2 ((List.prefix_append _ _).trans (below_iff.1 hx)),
        List.takeWhile_cons_of_pos (below_iff.2 he), List.dropWhile_cons_of_pos (below_iff.2 he)]
    have hbelongs := belongs_leaf he (leaves.branchKey?_eq_none hmem)
    rw [hbelongs] at ih₂
    rw [level_deeper _ _ _ _ _ he, if_neg (by simp), hbelongs, hmore, hgraph, hbars, hfiller,
      hlength, ih₁ _ (h.deeper leaves.order he), ih₂ _ (h.behind_run leaves he), hlevel,
      neededBelow_run isRun.run fun x hx => isRun.tail x ((List.takeWhile_sublist _).subset hx),
      List.takeWhile_cons_of_pos (below_iff.2 he), List.map_append, List.map_cons]
    rfl

/-- A list of leaves is drawn with all levels that it needs. -/
theorem leaf_rows {l : List (Element K α)} (leaves : IsLeafList l) (t : Synthesizer K α) :
    IsPreorder l (neededLevels l) ∧ t.rows l = (neededLevels l).map (levelRow t l) := by
  have hall : l.takeWhile (below []) = l := List.takeWhile_eq_self_iff.2 (by simp)
  have hlevel := level_eq_of_leaves (t := t) leaves [] l [] (opens_start leaves.order)
  rw [hall, neededBelow_nil] at hlevel
  exact ⟨neededLevels_isPreorder leaves.order leaves.distinct, hlevel⟩

/-- Leaves at several depths below two roots, and one beside them. -/
def foliage : List (Element Char Unit) :=
  [.plain ⟨['a', 'b'], 'c'⟩ .leaf (), .plain ⟨['a', 'b', 'd'], 'a'⟩ .inserted (),
    .plain ⟨['a'], 'f'⟩ .leaf (), .plain ⟨[], 'g'⟩ .leaf (), .plain ⟨['h', 'i'], 'j'⟩ .leaf ()]

/-- Makes a branch for the level `h`, and for no other. -/
def foliageDrawing : Synthesizer Char Unit :=
  ⟨" *", fun above k => if k = 'h' then some (.plain ⟨above, k⟩ .branch ()) else none⟩

theorem foliage_rows :
    IsLeafList foliage ∧
      (foliageDrawing.rows foliage).map (fun row => (row.graph, row.position.path)) =
        [("├─", ['a']), ("│  ├─", ['a', 'b']), ("│  │  ├─", ['a', 'b', 'c']),
          ("│  │  └─", ['a', 'b', 'd']), ("│  │     └─", ['a', 'b', 'd', 'a']),
          ("│  └─", ['a', 'f']), ("├─", ['g']), ("└─", ['h']), ("   └─", ['h', 'i']),
          ("      └─", ['h', 'i', 'j'])] ∧
      (foliageDrawing.rows foliage).filterMap (fun row =>
          match row.content with
          | .placeholder p => some (p.position.key, p.causedBy)
          | .element _ | .created _ => none) =
        [('a', 0), ('b', 0), ('d', 1), ('i', 4)] := by
  have leaves : IsLeafList foliage := by decide
  refine ⟨leaves, ?_⟩
  rw [(leaf_rows leaves foliageDrawing).2]
  decide +kernel

end Synthesizer

end Hierarchy
