import Hierarchy.Proofs.Tree.Level

/-!
# Levels that a drawing leaves out

To find the end of a deeper entry the walk skips what belongs to it, and that includes the elements
below the path which the entry's own key would have directly in the level (`belongs_iff`).  So a
level is passed over if a level drawn directly before it begins with a branch of its name
(`Hides`, `Drawn`).  Nothing else is lost: of a list in hierarchy order the rows show, in its
order, exactly the elements to be shown that lie below no such level (`listed_rows`).
-/

namespace Hierarchy

/-- The element of the list that a row shows; none for a row made for a missing level. -/
def Row.listed? {K α : Type} (row : Row K α) : Option (Element K α) :=
  match row.content with
  | .element e => some e
  | .created _ | .placeholder _ => none

theorem listed?_filler {K α : Type} (t : Synthesizer K α) (graph : String) (above : List K)
    (key : K) (index : Nat) : (t.filler graph above key index).listed? = none := by
  unfold Synthesizer.filler
  split <;> rfl

namespace Synthesizer

variable {K α : Type} [DecidableEq K]

/-! ## Which levels are passed over -/

/-- Below `above` the level of `c` hides the level of `k`: it begins with a branch called `k`, and
the level of `k` follows directly, without an element of its own in between. -/
def Hides (l : List (Element K α)) (above : List K) (c k : K) : Prop :=
  k ≠ c ∧
  (∃ e, l.find? (below (above ++ [c])) = some e ∧ e.branchKey? = some k) ∧
  ∃ x y, [x, y] <:+: l ∧ above ++ [c] <+: x.ancestors ∧ above ++ [k] <+: y.ancestors

/-- Whether the level of a key below `above` is drawn: it is unless a drawn level hides it. -/
inductive Drawn (l : List (Element K α)) (above : List K) : K → Bool → Prop
  | first {k : K} (h : ∀ c, ¬ Hides l above c k) : Drawn l above k true
  | next {c k : K} {drawn : Bool} (h : Hides l above c k) (hc : Drawn l above c drawn) :
      Drawn l above k (!drawn)

/-- The element lies below a level that is passed over; `start` tells from where on levels count. -/
def OverlookedFrom (l : List (Element K α)) (start : List K) (e : Element K α) : Prop :=
  ∃ above k, start <+: above ∧ above ++ [k] <+: e.ancestors ∧ Drawn l above k false

/-- The element lies below a level that is passed over. -/
def Overlooked (l : List (Element K α)) (e : Element K α) : Prop := OverlookedFrom l [] e

variable {l before rest : List (Element K α)} {above : List K} {c k : K} {e : Element K α}

/-- A level is hidden only by the level of the element before its first one. -/
theorem Hides.previous (order : InHierarchyOrder (before ++ e :: rest))
    (hfirst : ∀ x ∈ before, ¬ above ++ [k] <+: x.ancestors) (he : above ++ [k] <+: e.ancestors)
    (h : Hides (before ++ e :: rest) above c k) :
    ∃ before' x, before = before' ++ [x] ∧ above ++ [c] <+: x.ancestors := by
  obtain ⟨hne, -, x, y, ⟨s, u, hsplit⟩, hx, hy⟩ := h
  have hdiff : ¬ above ++ [k] <+: x.ancestors := fun hxk => hne (key_unique hxk hx)
  rw [List.append_assoc, List.append_eq_append_iff] at hsplit
  rcases hsplit with ⟨a, rfl, ha⟩ | ⟨a, rfl, ha⟩
  · match a, ha with
    | [], ha =>
      obtain ⟨rfl, -⟩ := List.cons_eq_cons.1 ha
      exact absurd he hdiff
    | [_], ha =>
      obtain ⟨rfl, -⟩ := List.cons_eq_cons.1 ha
      exact ⟨s, x, rfl, hx⟩
    | _ :: _ :: _, ha =>
      simp only [List.cons_append, List.nil_append, List.cons_eq_cons] at ha
      obtain ⟨rfl, rfl, -⟩ := ha
      exact absurd hy (hfirst y (by simp))
  · match a, ha with
    | [], ha =>
      obtain ⟨rfl, -⟩ := List.cons_eq_cons.1 ha
      exact absurd he hdiff
    | _ :: a', ha =>
      simp only [List.cons_append, List.nil_append, List.cons_eq_cons] at ha
      obtain ⟨rfl, rfl⟩ := ha
      -- here `x` stands between `e` and `y`, which share the level of `k`
      have order' : InHierarchyOrder ((before ++ e :: a') ++ x :: (y :: u)) := by
        simpa using order
      exact absurd (order'.between_ancestors (by simp) List.mem_cons_self he hy) hdiff

/-- The first element below a path splits the list. -/
theorem exists_first {p : List K} (h : ∃ y ∈ l, p <+: y.ancestors) :
    ∃ before e rest, l = before ++ e :: rest ∧ (∀ x ∈ before, ¬ p <+: x.ancestors) ∧
      p <+: e.ancestors := by
  obtain ⟨y, hy, hp⟩ := h
  have hsome : (l.find? (below p)).isSome := List.find?_isSome.2 ⟨y, hy, below_iff.2 hp⟩
  obtain ⟨e, he⟩ := Option.isSome_iff_exists.1 hsome
  obtain ⟨hpe, before, rest, hl, hbefore⟩ := List.find?_eq_some_iff_append.1 he
  refine ⟨before, e, rest, hl, fun x hx hpx => ?_, below_iff.1 hpe⟩
  simpa [below_iff.2 hpx] using hbefore x hx

theorem Hides.unique (order : InHierarchyOrder l) {c' : K} (h : Hides l above c k)
    (h' : Hides l above c' k) : c = c' := by
  have ⟨_, _, _, y, hxy, _, hy⟩ := h
  obtain ⟨before, e, rest, rfl, hfirst, he⟩ :=
    exists_first ⟨y, hxy.subset (by simp), hy⟩
  obtain ⟨b, x, rfl, hx⟩ := Hides.previous order hfirst he h
  obtain ⟨b', x', hb, hx'⟩ := Hides.previous order hfirst he h'
  obtain ⟨rfl, rfl⟩ : b = b' ∧ x = x' := by simpa using hb
  exact key_unique hx hx'

theorem Drawn.unique (order : InHierarchyOrder l) {drawn drawn' : Bool}
    (h : Drawn l above k drawn) (h' : Drawn l above k drawn') : drawn = drawn' := by
  induction h generalizing drawn' with
  | first hfirst =>
    cases h' with
    | first => rfl
    | next h' => exact absurd h' (hfirst _)
  | next h hc ih =>
    cases h' with
    | first hfirst => exact absurd h (hfirst _)
    | next h' hc' =>
      obtain rfl := h.unique order h'
      rw [ih hc']

/-! ## The walk over a list in hierarchy order -/

/-- The walk stands between `before` and `rest`, at the level below `above`: if it opens a deeper
level next, no element of that level has been passed, and the level is not hidden. -/
def Opens (l : List (Element K α)) (above : List K) (before rest : List (Element K α)) : Prop :=
  before ++ rest = l ∧ ∀ e rest', rest = e :: rest' → ∀ k, above ++ [k] <+: e.ancestors →
    (∀ x ∈ before, ¬ above ++ [k] <+: x.ancestors) ∧ Drawn l above k true

theorem opens_start (order : InHierarchyOrder l) : Opens l [] [] l := by
  refine ⟨rfl, ?_⟩
  rintro e rest rfl k he
  refine ⟨by simp, .first fun c hc => ?_⟩
  have order' : InHierarchyOrder ([] ++ e :: rest) := order
  obtain ⟨before', x, hnil, -⟩ := Hides.previous order' (by simp) he hc
  simp at hnil

/-- Behind an element directly in the level nothing is hidden. -/
theorem Opens.own (order : InHierarchyOrder l) (h : Opens l e.ancestors before (e :: rest)) :
    Opens l e.ancestors (before ++ [e]) rest := by
  obtain ⟨rfl, -⟩ := h
  refine ⟨by simp, ?_⟩
  rintro f rest rfl k hf
  have he := concat_not_prefix_self e.ancestors k
  have hfirst : ∀ x ∈ before ++ [e], ¬ e.ancestors ++ [k] <+: x.ancestors := by
    intro x hx hxk
    rcases List.mem_append.1 hx with hx | hx
    · exact he (order.between_ancestors hx List.mem_cons_self hxk hf)
    · rw [List.mem_singleton] at hx
      exact he (hx ▸ hxk)
  refine ⟨hfirst, .first fun c hc => ?_⟩
  rw [← List.singleton_append, ← List.append_assoc] at order hc
  obtain ⟨before', x, hx, hxc⟩ := Hides.previous order hfirst hf hc
  obtain ⟨-, rfl⟩ : before = before' ∧ e = x := by simpa using hx
  exact concat_not_prefix_self _ _ hxc

/-- Where a level is opened, so is each level below that its first element needs. -/
theorem Opens.deeper (order : InHierarchyOrder l) (h : Opens l above before (e :: rest))
    (he : above ++ [k] <+: e.ancestors) : Opens l (above ++ [k]) before (e :: rest) := by
  obtain ⟨rfl, hhead⟩ := h
  obtain ⟨hfirst, -⟩ := hhead e rest rfl k he
  refine ⟨rfl, ?_⟩
  rintro f rest' hf j hfj
  obtain ⟨rfl, rfl⟩ := List.cons_eq_cons.1 hf
  refine ⟨fun x hx hxj => hfirst x hx ((List.prefix_append _ _).trans hxj), .first fun c hc => ?_⟩
  obtain ⟨before', x, rfl, hx⟩ := Hides.previous order
    (fun x hx hxj => hfirst x hx ((List.prefix_append _ _).trans hxj)) hfj hc
  exact hfirst x (by simp) ((List.prefix_append _ _).trans hx)

/-- Behind the run below a path nothing lies below it any more. -/
theorem not_below_of_mem_dropWhile {p : List K} (order : InHierarchyOrder (before ++ e :: rest))
    (he : p <+: e.ancestors) :
    ∀ x ∈ (e :: rest).dropWhile (below p), ¬ p <+: x.ancestors := by
  have herun : e ∈ (e :: rest).takeWhile (below p) := by
    rw [List.takeWhile_cons_of_pos (below_iff.2 he)]
    exact List.mem_cons_self
  have hsplit : (e :: rest).takeWhile (below p) ++ (e :: rest).dropWhile (below p) = e :: rest :=
    List.takeWhile_append_dropWhile
  cases hdrop : (e :: rest).dropWhile (below p) with
  | nil => simp
  | cons y tail =>
    have hy : ¬ p <+: y.ancestors := by simpa using not_of_dropWhile_eq_cons hdrop
    rw [← hsplit, hdrop, ← List.append_assoc] at order
    intro x hx hpx
    rcases List.mem_cons.1 hx with rfl | hx
    · exact hy hpx
    · exact hy (order.between_ancestors (List.mem_append_right _ herun) hx he hpx)

theorem Opens.find?_eq (h : Opens l above before (e :: rest)) (he : above ++ [k] <+: e.ancestors) :
    l.find? (below (above ++ [k])) = some e := by
  obtain ⟨rfl, hhead⟩ := h
  refine List.find?_eq_some_iff_append.2 ⟨below_iff.2 he, before, rest, rfl, fun x hx => ?_⟩
  simpa [← below_iff] using (hhead e rest rfl k he).1 x hx

omit [DecidableEq K] in
theorem run_ne_nil {run tail : List (Element K α)} (hsplit : e :: rest = run ++ tail)
    (he : e ∉ tail) : run ≠ [] := by
  rintro rfl
  rw [List.nil_append] at hsplit
  exact he (hsplit ▸ List.mem_cons_self)

section Skipped

variable (h : Opens l above before (e :: rest))
  (he : above ++ [k] <+: e.ancestors) {run tail : List (Element K α)}
  (hsplit : e :: rest = run ++ tail) (hrun : ∀ x ∈ run, above ++ [k] <+: x.ancestors)
  (htail : ∀ x ∈ tail, ¬ above ++ [k] <+: x.ancestors)

include h he hsplit hrun htail

/-- What the walk skips behind the run of `e` lies below levels that this run hides. -/
theorem hides_of_skipped : ∀ x ∈ tail.takeWhile (belongs above e),
    ∃ j, e.branchKey? = some j ∧ above ++ [j] <+: x.ancestors ∧ Hides l above k j := by
  have hskip : ∀ x ∈ tail, belongs above e x = true →
      ∃ j, e.branchKey? = some j ∧ above ++ [j] <+: x.ancestors := by
    intro x hx hbelongs
    obtain ⟨j, hxj, hej | hej⟩ := belongs_iff.1 hbelongs
    · exact absurd (key_unique hej he ▸ hxj) (htail x hx)
    · exact ⟨j, hej, hxj⟩
  intro x hx
  have hxtail : x ∈ tail := (List.takeWhile_sublist _).subset hx
  obtain ⟨j, hej, hxj⟩ := hskip x hxtail (List.mem_takeWhile_imp hx)
  refine ⟨j, hej, hxj, fun hjk => htail x hxtail (hjk ▸ hxj), ⟨e, h.find?_eq he, hej⟩, ?_⟩
  -- the last element of the run and the first one behind it
  obtain ⟨y, tail', rfl⟩ := List.exists_cons_of_ne_nil (List.ne_nil_of_mem hxtail)
  have hy : belongs above e y = true := by
    by_contra hy
    rw [List.takeWhile_cons_of_neg hy] at hx
    cases hx
  obtain ⟨j', hej', hyj⟩ := hskip y List.mem_cons_self hy
  rw [hej] at hej'
  cases hej'
  have hne := run_ne_nil hsplit (fun hmem => htail e hmem he)
  refine ⟨run.getLast hne, y, ⟨before ++ run.dropLast, tail', ?_⟩,
    hrun _ (List.getLast_mem hne), hyj⟩
  rw [← h.1, hsplit]
  conv_rhs => rw [← List.dropLast_concat_getLast hne]
  simp

theorem overlooked_of_skipped : ∀ x ∈ tail.takeWhile (belongs above e),
    OverlookedFrom l above x := by
  intro x hx
  obtain ⟨j, -, hxj, hhides⟩ := hides_of_skipped h he hsplit hrun htail x hx
  exact ⟨above, j, List.prefix_refl _, hxj, .next hhides (h.2 e rest rfl k he).2⟩

/-- The level at which the walk goes on has no element before. -/
theorem not_below_of_behind (order : InHierarchyOrder l) {f : Element K α} {d : K}
    (hf : f ∈ tail) (hfd : above ++ [d] <+: f.ancestors) (hed : e.branchKey? ≠ some d) :
    ∀ x ∈ before ++ run ++ tail.takeWhile (belongs above e), ¬ above ++ [d] <+: x.ancestors := by
  have hdk : d ≠ k := fun hdk => htail f hf (hdk ▸ hfd)
  intro x hx hxd
  rcases List.mem_append.1 hx with hx | hx
  · rcases List.mem_append.1 hx with hx | hx
    · have hbefore : InHierarchyOrder (before ++ e :: rest) := h.1.symm ▸ order
      have hfrest : f ∈ rest := by
        have hmem : f ∈ e :: rest := hsplit ▸ List.mem_append_right _ hf
        rcases List.mem_cons.1 hmem with rfl | hmem
        · exact absurd he (htail f hf)
        · exact hmem
      exact hdk (key_unique (hbefore.between_ancestors hx hfrest hxd hfd) he)
    · exact hdk (key_unique hxd (hrun x hx))
  · obtain ⟨j, hej, hxj, -⟩ := hides_of_skipped h he hsplit hrun htail x hx
    exact hed (key_unique hxj hxd ▸ hej)

/-- The walk goes on at a level that is drawn: what hides it would have been skipped, unless it is
hidden by what has been skipped. -/
theorem Opens.behind (order : InHierarchyOrder l) :
    Opens l above (before ++ run ++ tail.takeWhile (belongs above e))
      (tail.dropWhile (belongs above e)) := by
  have hl : before ++ run ++ tail = l := by rw [List.append_assoc, ← hsplit, h.1]
  refine ⟨by rw [List.append_assoc, List.takeWhile_append_dropWhile, hl], ?_⟩
  rintro f rest' hdrop d hf
  have hftail : f ∈ tail := (List.dropWhile_sublist _).subset (hdrop ▸ List.mem_cons_self)
  have hed : e.branchKey? ≠ some d := fun hed =>
    not_of_dropWhile_eq_cons hdrop (belongs_iff.2 ⟨d, hf, Or.inr hed⟩)
  have hfirst := not_below_of_behind h he hsplit hrun htail order hftail hf hed
  refine ⟨hfirst, ?_⟩
  by_cases hhidden : ∃ c, Hides l above c d
  · obtain ⟨c, hc⟩ := hhidden
    have hlast : before ++ run ++ tail.takeWhile (belongs above e) ++ f :: rest' = l := by
      rw [← hdrop, List.append_assoc, List.takeWhile_append_dropWhile, hl]
    obtain ⟨b, x, hb, hx⟩ := Hides.previous (hlast ▸ order) hfirst hf (hlast ▸ hc)
    have hne : run ++ tail.takeWhile (belongs above e) ≠ [] :=
      List.append_ne_nil_of_left_ne_nil (run_ne_nil hsplit (fun hmem => htail e hmem he)) _
    rw [List.append_assoc] at hb
    rcases List.mem_append.1 (mem_of_append_eq_concat hne hb) with hxrun | hxskip
    · -- the run of `e` cannot hide the level, since then `f` would have been skipped
      obtain rfl := key_unique hx (hrun x hxrun)
      obtain ⟨-, ⟨e', he', hed'⟩, -⟩ := hc
      rw [h.find?_eq he, Option.some.injEq] at he'
      exact absurd (he' ▸ hed') hed
    · obtain ⟨j, -, hxj, hhides⟩ := hides_of_skipped h he hsplit hrun htail x hxskip
      obtain rfl := key_unique hx hxj
      exact .next hc (.next hhides (h.2 e rest rfl k he).2)
  · exact .first fun c hc => hhidden ⟨c, hc⟩

end Skipped

/-! ## What the rows show -/

/-- From a level that is not passed over, overlooking counts from the next one. -/
theorem overlookedFrom_deeper (order : InHierarchyOrder l) (hdrawn : Drawn l above k true)
    {x : Element K α} (hx : above ++ [k] <+: x.ancestors) :
    OverlookedFrom l above x ↔ OverlookedFrom l (above ++ [k]) x := by
  constructor
  · rintro ⟨p, j, hp, hpx, hpj⟩
    refine ⟨p, j, ?_, hpx, hpj⟩
    rcases Nat.lt_or_ge above.length p.length with hlt | hge
    · exact List.prefix_of_prefix_length_le hx ((List.prefix_append _ _).trans hpx)
        (by rw [List.length_append, List.length_singleton]; omega)
    · obtain rfl := hp.eq_of_length_le hge
      obtain rfl := key_unique hx hpx
      exact absurd (hpj.unique order hdrawn) (by simp)
  · rintro ⟨p, j, hp, hpx, hpj⟩
    exact ⟨p, j, (List.prefix_append _ _).trans hp, hpx, hpj⟩

theorem not_overlookedFrom_ancestors : ¬ OverlookedFrom l e.ancestors e := by
  rintro ⟨p, j, hp, hpx, -⟩
  exact concat_not_prefix_self p j (hpx.trans hp)

open Classical in
/-- One level: the rows show the elements of its run that no hidden level contains. -/
theorem listed_level (t : Synthesizer K α) (order : InHierarchyOrder l) (above : List K)
    (elements : List (Element K α)) :
    ∀ header drawn index before, Opens l above before elements →
      (t.level header above drawn index elements).filterMap Row.listed? =
        (elements.takeWhile (below above)).filter
          fun e => e.shown && !decide (OverlookedFrom l above e) := by
  induction above, elements using walk_induction with
  | nil above => simp
  | outside above e rest he =>
    intro header drawn index before _
    rw [level_outside _ _ _ _ _ he, List.takeWhile_cons_of_neg (by rwa [below_iff])]
    rfl
  | own e rest ih =>
    intro header drawn index before h
    rw [level_own, List.filterMap_append, ih _ _ _ _ (h.own order),
      List.takeWhile_cons_of_pos (by simp), List.filter_cons]
    cases hshown : e.shown with
    | true => simp [Row.listed?, not_overlookedFrom_ancestors]
    | false => simp
  | deeper above k e rest he ih₁ ih₂ =>
    intro header drawn index before h
    have hrun : ∀ x ∈ (e :: rest).takeWhile (below (above ++ [k])), above ++ [k] <+: x.ancestors :=
      fun x hx => below_iff.1 (List.mem_takeWhile_imp hx)
    have htail := not_below_of_mem_dropWhile (h.1.symm ▸ order) he
    have hsplit :=
      (List.takeWhile_append_dropWhile (p := below (above ++ [k])) (l := e :: rest)).symm
    have hbelongs : ∀ x, below (above ++ [k]) x → belongs above e x :=
      fun x hx => belongs_of_prefix he (below_iff.1 hx)
    have hbehind := h.behind he hsplit hrun htail order
    have hskipped := overlooked_of_skipped h he hsplit hrun htail
    have hrest := dropWhile_belongs he rest
    rw [hrest] at hbehind
    have hfiller : ∀ graph, (if drawn = some k then [] else
        [t.filler graph above k index]).filterMap Row.listed? = [] := by
      intro graph
      split <;> simp [listed?_filler]
    rw [level_deeper _ _ _ _ _ he, List.filterMap_append, List.filterMap_append, hfiller,
      List.nil_append, ih₁ _ _ _ _ (h.deeper order he), ih₂ _ _ _ _ hbehind,
      takeWhile_eq_append (fun x hx => below_of_belongs (hbelongs x hx)) (e :: rest),
      takeWhile_eq_append (fun x hx => below_of_belongs (e := e) hx)
        ((e :: rest).dropWhile (below (above ++ [k]))), hrest, List.filter_append,
      List.filter_append]
    congr 1
    · apply List.filter_congr
      intro x hx
      rw [overlookedFrom_deeper order (h.2 e rest rfl k he).2 (hrun x hx)]
    · have hnone : (((e :: rest).dropWhile (below (above ++ [k]))).takeWhile
          (belongs above e)).filter
            (fun x => x.shown && !decide (OverlookedFrom l above x)) = [] := by
        rw [List.filter_eq_nil_iff]
        intro x hx
        simp [hskipped x hx]
      rw [hnone, List.nil_append]

open Classical in
/-- The rows show, in the order of the list, the elements to be shown except the overlooked. -/
theorem listed_rows (t : Synthesizer K α) (order : InHierarchyOrder l) :
    (t.rows l).filterMap Row.listed? = l.filter fun e => e.shown && !decide (Overlooked l e) := by
  have hall : l.takeWhile (below []) = l := List.takeWhile_eq_self_iff.2 (by simp)
  rw [rows, listed_level t order [] l _ _ _ [] (opens_start order), hall]
  rfl

/-- Every element to be shown gets its row, once and in the order of the list, exactly if none of
them lies below a level that is passed over. -/
theorem listed_rows_eq_iff (t : Synthesizer K α) (l : List (Element K α))
    (order : InHierarchyOrder l) :
    (t.rows l).filterMap Row.listed? = l.filter (·.shown) ↔
      ∀ e ∈ l, e.shown → ¬ Overlooked l e := by
  classical
  rw [listed_rows t order]
  constructor
  · intro h e he hshown
    have hmem : e ∈ l.filter (·.shown) := List.mem_filter.2 ⟨he, hshown⟩
    rw [← h] at hmem
    simpa [hshown] using (List.mem_filter.1 hmem).2
  · intro h
    apply List.filter_congr
    intro e he
    cases hshown : e.shown with
    | true => simpa using h e he hshown
    | false => rfl

/-- A branch `x/a`, then an element below `a` without one for `a` itself. -/
def namesake : List (Element Char Unit) :=
  [.plain ⟨['x'], 'a'⟩ .branch (), .plain ⟨['a'], 'b'⟩ .leaf ()]

theorem namesake_lost :
    InHierarchyOrder namesake ∧
      ((withSymbol defaultSymbol).rows namesake).filterMap Row.listed? = namesake.take 1 ∧
      namesake.take 1 ≠ namesake.filter (·.shown) := by
  refine ⟨by decide, ?_, by decide⟩
  unfold rows namesake
  -- the level of `x` is opened, and the whole rest is skipped as belonging to `x/a`
  have hskipped : [Element.plain ⟨['a'], 'b'⟩ Kind.leaf ()].dropWhile
      (belongs [] (Element.plain ⟨['x'], 'a'⟩ Kind.branch ())) = [] := by decide
  rw [level_deeper _ _ _ _ _ (show [] ++ ['x'] <+: ['x'] from List.prefix_refl _), hskipped,
    level_nil, List.append_nil]
  have hlevel : [] ++ ['x'] = (Element.plain ⟨['x'], 'a'⟩ Kind.branch ()).ancestors := rfl
  rw [hlevel, level_own, level_outside _ _ _ _ _ (by decide)]
  rfl

theorem namesake_listed_iff :
    InHierarchyOrder namesake ∧
      (((withSymbol defaultSymbol).rows namesake).filterMap Row.listed? =
        namesake.filter (·.shown) ↔ ∀ e ∈ namesake, e.shown → ¬ Overlooked namesake e) :=
  have order : InHierarchyOrder namesake := by decide
  ⟨order, listed_rows_eq_iff _ _ order⟩

end Synthesizer

end Hierarchy
