import Hierarchy.Proofs.Tree.Level
import Mathlib.Algebra.GroupWithZero.Nat
import Mathlib.Data.List.Perm.Subperm

/-!
# What a drawing reads

Any list can be drawn, in order or not, and this module looks at the work it takes.  `levelReading`
draws like `level`, but reads the keys of ancestors one by one, fails where it asks for a key beyond
their end, and notes down each spot that it works at: an element, and the depth of the level in
which it takes it.  (That a level ends at an element is no work at this element.)

It comes to the same rows as `level` and never fails, and from spot to spot it only goes on: to a
later element, or deeper at the same one (`exists_reads`).  So no spot is met twice, and there
are no more rows than elements with their levels (`rowsReading_bounded`).
-/

namespace Hierarchy

namespace Synthesizer

variable {K α : Type} [DecidableEq K]

/-! ## Drawing with keys that may be missing -/

/-- An element, by its place in the list, and the depth of a level. -/
structure Spot where
  index : Nat
  depth : Nat
  deriving DecidableEq, Repr

/-- `belongs` for an `e` of the level. -/
def belongsReading (above : List K) (e other : Element K α) : Option Bool :=
  if above.isPrefixOf other.ancestors ∧ above.length < other.ancestors.length then do
    let key ← other.ancestors[above.length]?
    if above.length < e.ancestors.length then
      let own ← e.ancestors[above.length]?
      return own == key || e.branchKey? == some key
    else return e.branchKey? == some key
  else return false

/-- How many elements at the front of a list belong to `e`. -/
def skipReading (above : List K) (e : Element K α) : List (Element K α) → Option Nat
  | [] => return 0
  | other :: rest => do
    if ← belongsReading above e other then return (← skipReading above e rest) + 1
    else return 0

variable (t : Synthesizer K α)

def markReading (e : Element K α) (rest : List (Element K α)) : Option String :=
  match e.branchKey?, rest with
  | some key, next :: _ =>
    if e.ancestors.length < next.ancestors.length ∧ e.ancestors.isPrefixOf next.ancestors then do
      let below ← next.ancestors[e.ancestors.length]?
      return if below = key then t.symbol else ""
    else return ""
  | _, _ => return ""

/-- `level`, with the spots in the order in which they are met. -/
def levelReading (header : String) (above : List K) (drawn : Option K) (index : Nat) :
    List (Element K α) → Option (List (Row K α) × List Spot)
  | [] => return ([], [])
  | e :: rest =>
    if above.isPrefixOf e.ancestors then do
      let skipped ← skipReading above e rest
      let (graph, bar) := connector (continues above (rest.drop skipped))
      if e.ancestors.length = above.length then
        let mark ← t.markReading e rest
        let own : List (Row K α) :=
          if e.shown then [⟨header ++ graph ++ mark ++ labelText e, .element e⟩] else []
        let (rows, spots) ← levelReading header above e.branchKey? (index + 1) rest
        return (own ++ rows, ⟨index, above.length⟩ :: spots)
      else
        match _hkey : e.ancestors[above.length]? with
        | none => none
        | some key =>
          let own := if drawn = some key then [] else [t.filler (header ++ graph) above key index]
          let (opened, spots) ← levelReading (header ++ bar) (above ++ [key]) none index (e :: rest)
          let (rows, spots') ←
            levelReading header above none (index + 1 + skipped) (rest.drop skipped)
          return (own ++ opened ++ rows, ⟨index, above.length⟩ :: (spots ++ spots'))
    else return ([], [])
termination_by elements => (elements.length, depthBelow above.length elements)
decreasing_by
  · exact Prod.Lex.left _ _ (by simp)
  · have := (List.getElem?_eq_some_iff.1 _hkey).1
    exact Prod.Lex.right _ (by simp [depthBelow]; omega)
  · exact Prod.Lex.left _ _ (by rw [List.length_drop, List.length_cons]; omega)

/-- `rows`, with the spots. -/
def rowsReading (elements : List (Element K α)) : Option (List (Row K α) × List Spot) :=
  t.levelReading "" [] none 0 elements

/-! ## No key is missing -/

variable {t} {above : List K} {e : Element K α} {header : String} {drawn : Option K} {index : Nat}

theorem keyBelow?_eq_getElem? {ancestors : List K} (h : above <+: ancestors) :
    keyBelow? above ancestors = ancestors[above.length]? := by
  unfold keyBelow?
  rw [if_pos (List.isPrefixOf_iff_prefix.2 h), List.head?_drop]

theorem belongsReading_eq (he : above <+: e.ancestors) (other : Element K α) :
    belongsReading above e other = some (belongs above e other) := by
  unfold belongsReading belongs
  by_cases hother : above.isPrefixOf other.ancestors
  · rw [keyBelow?_eq_getElem? he, keyBelow?_eq_getElem? (List.isPrefixOf_iff_prefix.1 hother)]
    by_cases hlt : above.length < other.ancestors.length
    · rw [if_pos ⟨hother, hlt⟩, List.getElem?_eq_getElem hlt]
      by_cases hown : above.length < e.ancestors.length
      · simp [hown]
      · simp [hown]
    · rw [if_neg fun h => hlt h.2, List.getElem?_eq_none (Nat.le_of_not_lt hlt)]
      rfl
  · have hnone : keyBelow? above other.ancestors = none := if_neg hother
    rw [hnone, if_neg fun h => hother h.1]
    rfl

theorem skipReading_eq (he : above <+: e.ancestors) (rest : List (Element K α)) :
    skipReading above e rest = some (rest.takeWhile (belongs above e)).length := by
  induction rest with
  | nil => rfl
  | cons other rest ih =>
    rw [skipReading, belongsReading_eq he, ih]
    by_cases h : belongs above e other
    · simp [h]
    · simp [h]

theorem markReading_eq (e : Element K α) (rest : List (Element K α)) :
    t.markReading e rest = some (t.mark e rest) := by
  unfold markReading mark
  cases e.branchKey? with
  | none => rfl
  | some key =>
    cases rest with
    | nil => rfl
    | cons next rest =>
      dsimp only
      simp only [List.isPrefixOf_iff_prefix]
      by_cases hlong : e.ancestors.length < next.ancestors.length ∧ e.ancestors <+: next.ancestors
      · have hlt := hlong.1
        have hiff : e.ancestors ++ [key] <+: next.ancestors ↔
            next.ancestors[e.ancestors.length] = key := by
          rw [← keyBelow?_eq_some_iff, keyBelow?_eq_getElem? hlong.2,
            List.getElem?_eq_getElem hlt, Option.some.injEq]
        rw [if_pos hlong, List.getElem?_eq_getElem hlt, Option.bind_eq_bind, Option.bind_some]
        simp only [hiff]
        rfl
      · have hnot : ¬ e.ancestors ++ [key] <+: next.ancestors := by
          intro h
          have hle := h.length_le
          rw [List.length_append, List.length_singleton] at hle
          exact hlong ⟨hle, (List.prefix_append _ _).trans h⟩
        rw [if_neg hlong, if_neg hnot]
        rfl

/-! ## Only forward -/

/-- The walk comes to `v` before `w`: an element further on comes later, and of one element the
greater depth. -/
def Spot.Before (v w : Spot) : Prop := v.index < w.index ∨ v.index = w.index ∧ v.depth < w.depth

/-- The spot is one of the level below `above` that these elements begin, the first of which has the
given index. -/
def Spot.InLevel (above : List K) (index : Nat) (elements : List (Element K α)) (v : Spot) : Prop :=
  above.length ≤ v.depth ∧ ∃ place e, v.index = index + place ∧
    (elements.takeWhile (below above))[place]? = some e ∧ v.depth ≤ e.ancestors.length

variable {rest : List (Element K α)} {key : K} {v : Spot}

theorem Spot.inLevel_head (he : above <+: e.ancestors) :
    Spot.InLevel above index (e :: rest) ⟨index, above.length⟩ := by
  refine ⟨Nat.le_refl _, 0, e, rfl, ?_, he.length_le⟩
  rw [List.takeWhile_cons_of_pos (below_iff.2 he)]
  rfl

theorem Spot.InLevel.cons (he : above <+: e.ancestors) (h : v.InLevel above (index + 1) rest) :
    v.InLevel above index (e :: rest) ∧ index < v.index := by
  obtain ⟨hdepth, place, x, hindex, hx, hle⟩ := h
  refine ⟨⟨hdepth, place + 1, x, by omega, ?_, hle⟩, by omega⟩
  rw [List.takeWhile_cons_of_pos (below_iff.2 he)]
  exact hx

/-- What the level below holds lies deeper, and not behind what belongs to its first element. -/
theorem Spot.InLevel.opened (he : above ++ [key] <+: e.ancestors)
    (h : v.InLevel (above ++ [key]) index (e :: rest)) :
    v.InLevel above index (e :: rest) ∧ above.length < v.depth ∧ index ≤ v.index ∧
      v.index ≤ index + (rest.takeWhile (belongs above e)).length := by
  obtain ⟨hdepth, place, x, hindex, hx, hle⟩ := h
  rw [List.length_append, List.length_singleton] at hdepth
  have hbelow : ∀ y : Element K α, below (above ++ [key]) y → below above y :=
    fun y hy => below_iff.2 ((List.prefix_append _ _).trans (below_iff.1 hy))
  have hbelongs : ∀ y, below (above ++ [key]) y → belongs above e y :=
    fun y hy => belongs_of_prefix he (below_iff.1 hy)
  have hplace := (List.getElem?_eq_some_iff.1 hx).1
  have hlength : ((e :: rest).takeWhile (below (above ++ [key]))).length ≤
      1 + (rest.takeWhile (belongs above e)).length := by
    rw [List.takeWhile_cons_of_pos (below_iff.2 he), takeWhile_eq_append hbelongs rest,
      List.length_cons, List.length_append]
    omega
  refine ⟨⟨by omega, place, x, hindex, ?_, hle⟩, by omega, by omega, by omega⟩
  rw [takeWhile_eq_append hbelow, List.getElem?_append_left hplace]
  exact hx

/-- Behind what belongs to its first element, the level goes on. -/
theorem Spot.InLevel.behind (he : above <+: e.ancestors)
    (h : v.InLevel above (index + 1 + (rest.takeWhile (belongs above e)).length)
      (rest.dropWhile (belongs above e))) :
    v.InLevel above index (e :: rest) ∧
      index + (rest.takeWhile (belongs above e)).length < v.index := by
  obtain ⟨hdepth, place, x, hindex, hx, hle⟩ := h
  refine ⟨⟨hdepth, 1 + (rest.takeWhile (belongs above e)).length + place, x, by omega, ?_, hle⟩,
    by omega⟩
  rw [List.takeWhile_cons_of_pos (below_iff.2 he),
    takeWhile_eq_append fun y hy => below_of_belongs hy, Nat.add_assoc, Nat.add_comm,
    List.getElem?_cons_succ, List.getElem?_append_right (Nat.le_add_right _ _),
    Nat.add_sub_cancel_left]
  exact hx

/-- The walk meets these spots of a level, going forward. -/
structure Forward (above : List K) (index : Nat) (elements : List (Element K α))
    (spots : List Spot) : Prop where
  ordered : spots.Pairwise Spot.Before
  inLevel : ∀ v ∈ spots, v.InLevel above index elements

variable {spots spots' : List Spot}

theorem Forward.nil (elements : List (Element K α)) : Forward above index elements [] :=
  ⟨.nil, by simp⟩

/-- An element directly in the level is met once, before all that follows. -/
theorem Forward.own (he : above <+: e.ancestors) (h : Forward above (index + 1) rest spots) :
    Forward above index (e :: rest) (⟨index, above.length⟩ :: spots) where
  ordered := List.pairwise_cons.2
    ⟨fun v hv => .inl ((h.inLevel v hv).cons he).2, h.ordered⟩
  inLevel := List.forall_mem_cons.2
    ⟨Spot.inLevel_head he, fun v hv => ((h.inLevel v hv).cons he).1⟩

/-- An element that lies deeper is met at the depth of the level, then all that the level below
holds, and then all that follows behind it. -/
theorem Forward.deeper (he : above ++ [key] <+: e.ancestors)
    (hopened : Forward (above ++ [key]) index (e :: rest) spots)
    (hbehind : Forward above (index + 1 + (rest.takeWhile (belongs above e)).length)
      (rest.dropWhile (belongs above e)) spots') :
    Forward above index (e :: rest) (⟨index, above.length⟩ :: (spots ++ spots')) := by
  have habove : above <+: e.ancestors := (List.prefix_append _ _).trans he
  have hfirst := fun v hv => (hopened.inLevel v hv).opened he
  have hlater := fun v hv => (hbehind.inLevel v hv).behind habove
  constructor
  · refine List.pairwise_cons.2 ⟨fun v hv => ?_, List.pairwise_append.2
      ⟨hopened.ordered, hbehind.ordered, fun v hv w hw => ?_⟩⟩
    · rcases List.mem_append.1 hv with hv | hv
      · obtain ⟨-, hdepth, hindex, -⟩ := hfirst v hv
        rcases Nat.eq_or_lt_of_le hindex with heq | hlt
        · exact .inr ⟨heq, hdepth⟩
        · exact .inl hlt
      · have hlt := (hlater v hv).2
        left
        show index < v.index
        omega
    · have hle := (hfirst v hv).2.2.2
      have hlt := (hlater w hw).2
      left
      omega
  · refine List.forall_mem_cons.2 ⟨Spot.inLevel_head habove, List.forall_mem_append.2
      ⟨fun v hv => (hfirst v hv).1, fun v hv => (hlater v hv).1⟩⟩

/-! ## The same rows -/

theorem drop_length_takeWhile {β : Type} (p : β → Bool) (l : List β) :
    l.drop (l.takeWhile p).length = l.dropWhile p := by
  have hsplit : l.takeWhile p ++ l.dropWhile p = l := List.takeWhile_append_dropWhile
  have hdrop : (l.takeWhile p ++ l.dropWhile p).drop (l.takeWhile p).length = l.dropWhile p :=
    List.drop_left
  rwa [hsplit] at hdrop

theorem length_sub_length_dropWhile {β : Type} (p : β → Bool) (l : List β) :
    l.length - (l.dropWhile p).length = (l.takeWhile p).length := by
  rw [← drop_length_takeWhile, List.length_drop]
  have hle := (List.takeWhile_sublist p (l := l)).length_le
  omega

/-- Reading keys, a level comes to the rows that it has, one at most for each spot. -/
structure Reads (t : Synthesizer K α) (header : String) (above : List K) (drawn : Option K)
    (index : Nat) (elements : List (Element K α)) (spots : List Spot) : Prop where
  reading : t.levelReading header above drawn index elements =
    some (t.level header above drawn index elements, spots)
  length_le : (t.level header above drawn index elements).length ≤ spots.length

theorem Reads.own (h : t.Reads header e.ancestors e.branchKey? (index + 1) rest spots) :
    t.Reads header e.ancestors drawn index (e :: rest) (⟨index, e.ancestors.length⟩ :: spots) where
  reading := by
    have he := List.prefix_refl e.ancestors
    rw [levelReading, if_pos (List.isPrefixOf_iff_prefix.2 he), skipReading_eq he,
      Option.bind_eq_bind, Option.bind_some]
    dsimp only
    rw [if_pos rfl, markReading_eq, h.reading, level_own, drop_length_takeWhile]
    rfl
  length_le := by
    have hle := h.length_le
    rw [level_own, List.length_append, List.length_cons]
    split
    · rw [List.length_singleton]
      omega
    · rw [List.length_nil]
      omega

theorem Reads.deeper (he : above ++ [key] <+: e.ancestors)
    (hopened : t.Reads (header ++ (connector (continues above
      (rest.dropWhile (belongs above e)))).2) (above ++ [key]) none index (e :: rest) spots)
    (hbehind : t.Reads header above none (index + 1 + (rest.takeWhile (belongs above e)).length)
      (rest.dropWhile (belongs above e)) spots') :
    t.Reads header above drawn index (e :: rest) (⟨index, above.length⟩ :: (spots ++ spots')) := by
  have habove : above <+: e.ancestors := (List.prefix_append _ _).trans he
  have hkey : e.ancestors[above.length]? = some key := by
    rw [← keyBelow?_eq_getElem? habove, keyBelow?_eq_some_iff]
    exact he
  have hne : e.ancestors.length ≠ above.length := (List.getElem?_eq_some_iff.1 hkey).1.ne'
  have hlevel := t.level_deeper header above drawn index he rest
  rw [length_sub_length_dropWhile] at hlevel
  constructor
  · rw [levelReading, if_pos (List.isPrefixOf_iff_prefix.2 habove), skipReading_eq habove,
      Option.bind_eq_bind, Option.bind_some]
    dsimp only
    rw [if_neg hne, drop_length_takeWhile]
    split
    · next hnone =>
      rw [hkey] at hnone
      cases hnone
    · next key' hkey' =>
      rw [hkey] at hkey'
      cases hkey'
      rw [hopened.reading, hbehind.reading, hlevel]
      rfl
  · have hle := hopened.length_le
    have hle' := hbehind.length_le
    rw [hlevel, List.length_append, List.length_append, List.length_cons, List.length_append]
    split
    · rw [List.length_nil]
      omega
    · rw [List.length_singleton]
      omega

/-- No key that is read is missing: a level comes to its rows, and goes forward all the way. -/
theorem exists_reads (above : List K) (elements : List (Element K α)) :
    ∀ header drawn index, ∃ spots, t.Reads header above drawn index elements spots ∧
      Forward above index elements spots := by
  induction above, elements using walk_induction with
  | nil above =>
    intro header drawn index
    refine ⟨[], ⟨?_, ?_⟩, .nil _⟩
    · rw [levelReading, level_nil]
      rfl
    · rw [level_nil]
      exact Nat.le_refl 0
  | outside above e rest hout =>
    intro header drawn index
    refine ⟨[], ⟨?_, ?_⟩, .nil _⟩
    · rw [levelReading, level_outside _ _ _ _ _ hout, if_neg (by rwa [List.isPrefixOf_iff_prefix])]
      rfl
    · rw [level_outside _ _ _ _ _ hout]
      exact Nat.le_refl 0
  | own e rest ih =>
    intro header drawn index
    obtain ⟨spots, hreads, hforward⟩ := ih header e.branchKey? (index + 1)
    exact ⟨_, hreads.own, hforward.own (List.prefix_refl _)⟩
  | deeper above key e rest he ih₁ ih₂ =>
    intro header drawn index
    obtain ⟨spots, hopened, hforward⟩ := ih₁ (header ++ (connector (continues above
      (rest.dropWhile (belongs above e)))).2) none index
    obtain ⟨spots', hbehind, hforward'⟩ :=
      ih₂ header none (index + 1 + (rest.takeWhile (belongs above e)).length)
    exact ⟨_, hopened.deeper he hbehind, hforward.deeper he hforward'⟩

/-! ## All spots of a list -/

/-- The spots of a list: each element at all depths that its ancestors have. -/
def allSpots (elements : List (Element K α)) : List Spot :=
  elements.zipIdx.flatMap fun x => (List.range (x.1.ancestors.length + 1)).map (Spot.mk x.2)

omit [DecidableEq K] in
theorem mem_allSpots {elements : List (Element K α)} :
    v ∈ allSpots elements ↔ ∃ e, elements[v.index]? = some e ∧ v.depth ≤ e.ancestors.length := by
  unfold allSpots
  rw [List.mem_flatMap]
  constructor
  · rintro ⟨⟨e, index⟩, he, hv⟩
    obtain ⟨depth, hdepth, rfl⟩ := List.mem_map.1 hv
    exact ⟨e, List.mem_zipIdx_iff_getElem?.1 he, Nat.le_of_lt_succ (List.mem_range.1 hdepth)⟩
  · rintro ⟨e, he, hdepth⟩
    refine ⟨(e, v.index), List.mem_zipIdx_iff_getElem?.2 he, List.mem_map.2 ⟨v.depth, ?_, rfl⟩⟩
    exact List.mem_range.2 (Nat.lt_succ_of_le hdepth)

omit [DecidableEq K] in
theorem length_allSpots (elements : List (Element K α)) :
    (allSpots elements).length = (elements.map fun e => e.ancestors.length + 1).sum := by
  have hmap : elements.zipIdx.map (fun x => x.1.ancestors.length + 1) =
      elements.map fun e => e.ancestors.length + 1 := by
    conv_rhs => rw [← List.zipIdx_map_fst 0 elements, List.map_map]
    rfl
  unfold allSpots
  rw [List.length_flatMap, ← hmap]
  simp only [List.length_map, List.length_range]

theorem Spot.Before.ne {w : Spot} (h : v.Before w) : v ≠ w := by
  rintro rfl
  unfold Spot.Before at h
  omega

/-- Any list can be drawn, without a look beyond the end of any ancestors.  The drawing meets no
spot twice and only spots of the list, so there are no more rows than these. -/
theorem rowsReading_bounded (t : Synthesizer K α) (elements : List (Element K α)) :
    ∃ spots, t.rowsReading elements = some (t.rows elements, spots) ∧ spots.Nodup ∧
      (∀ v ∈ spots, ∃ e, elements[v.index]? = some e ∧ v.depth ≤ e.ancestors.length) ∧
      (t.rows elements).length ≤ spots.length ∧
      (t.rows elements).length ≤ (elements.map fun e => e.ancestors.length + 1).sum := by
  obtain ⟨spots, hreads, hforward⟩ := exists_reads (t := t) [] elements "" none 0
  have hspots : ∀ v ∈ spots, ∃ e, elements[v.index]? = some e ∧ v.depth ≤ e.ancestors.length := by
    intro v hv
    obtain ⟨-, place, e, hindex, he, hle⟩ := hforward.inLevel v hv
    have hall : elements.takeWhile (below []) = elements :=
      List.takeWhile_eq_self_iff.2 fun e _ => below_iff.2 List.nil_prefix
    rw [hall] at he
    rw [Nat.zero_add] at hindex
    exact ⟨e, hindex ▸ he, hle⟩
  have hnodup : spots.Nodup := hforward.ordered.imp Spot.Before.ne
  have hlength : spots.length ≤ (allSpots elements).length :=
    (List.subperm_of_subset hnodup fun v hv => mem_allSpots.2 (hspots v hv)).length_le
  rw [length_allSpots] at hlength
  exact ⟨spots, hreads.reading, hnodup, hspots, hreads.length_le, hreads.length_le.trans hlength⟩

end Synthesizer

end Hierarchy
