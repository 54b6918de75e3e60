import Hierarchy.Proofs.Exploration.Reach
import Hierarchy.Proofs.Exploration.Turns

/-!
# Schedules

A schedule says which unit takes the next step.  It decides by which path an entity is reached
first, and so where its children are emitted.  It does not decide which ids are visited and how
often, which are expanded, and how many markers there are (`schedule_independent`).

Where every id belongs to one chain of listings (`Source.TreeShaped`), there is one path to each
entity.  Then every run ends, and emits the elements of the sequential exploration, each of them as
often (`emitted_perm_explore`).
-/

namespace Hierarchy

namespace Source

variable {K α ι : Type} [BEq ι] (s : Source K α ι) (revisits : Revisits)

/-! ## Schedules as data -/

theorem exists_append_of_getElem? {β : Type} {l : List β} {i : Nat} {x : β} (h : l[i]? = some x) :
    ∃ before after, l = before ++ x :: after ∧ before.length = i := by
  obtain ⟨hi, rfl⟩ := List.getElem?_eq_some_iff.1 h
  refine ⟨l.take i, l.drop (i + 1), ?_, List.length_take_of_le (Nat.le_of_lt hi)⟩
  rw [List.getElem_cons_drop, List.take_append_drop]

/-- One step of the unit at place `i`. -/
def stepAt (i : Nat) (w : Workshop K α ι) : Option (Workshop K α ι) :=
  match w.units[i]? with
  | none => none
  | some (.ready e) =>
    let (actions, expanded) := s.decideUnit revisits e w.progress.expanded
    some ⟨w.units.set i (.busy actions), { w.progress with expanded }⟩
  | some (.busy (.add e :: actions)) =>
    some ⟨w.units.set i (.busy actions), { w.progress with emitted := e :: w.progress.emitted }⟩
  | some (.busy (.spawn e :: actions)) =>
    some ⟨w.units.set i (.busy actions) ++ [.ready e], w.progress⟩
  | some (.busy []) => some ⟨w.units.eraseIdx i, w.progress⟩

/-- The units take turns as the schedule says. -/
def follow : List Nat → Workshop K α ι → Option (Workshop K α ι)
  | [], w => some w
  | i :: schedule, w => (s.stepAt revisits i w).bind (follow schedule)

variable {s revisits} {w w' : Workshop K α ι} {root : Element K α}

theorem stepAt_sound {i : Nat} (h : s.stepAt revisits i w = some w') : s.Step revisits w w' := by
  obtain ⟨units, p⟩ := w
  unfold stepAt at h
  dsimp only at h
  cases hunit : units[i]? with
  | none =>
    rw [hunit] at h
    cases h
  | some unit =>
    obtain ⟨before, after, rfl, rfl⟩ := exists_append_of_getElem? hunit
    rw [hunit] at h
    cases unit with
    | ready e =>
      cases h
      rw [List.set_append_right _ _ (Nat.le_refl _), Nat.sub_self]
      exact .decide
    | busy actions =>
      cases actions with
      | nil =>
        cases h
        rw [List.eraseIdx_append_of_length_le (Nat.le_refl _), Nat.sub_self]
        exact .done
      | cons action actions =>
        cases action with
        | add e =>
          cases h
          rw [List.set_append_right _ _ (Nat.le_refl _), Nat.sub_self]
          exact .add
        | spawn e =>
          cases h
          rw [List.set_append_right _ _ (Nat.le_refl _), Nat.sub_self]
          exact .spawn

theorem exists_stepAt (h : s.Step revisits w w') : ∃ i, s.stepAt revisits i w = some w' := by
  cases h with
  | @decide before after e p => exact ⟨before.length, by simp [stepAt]⟩
  | @add before after e actions p => exact ⟨before.length, by simp [stepAt]⟩
  | @spawn before after e actions p => exact ⟨before.length, by simp [stepAt]⟩
  | @done before after p =>
    exact ⟨before.length, by simp [stepAt, List.eraseIdx_append_of_length_le]⟩

theorem follow_append {schedule schedule' : List Nat} :
    s.follow revisits (schedule ++ schedule') w =
      (s.follow revisits schedule w).bind (s.follow revisits schedule') := by
  induction schedule generalizing w with
  | nil => rfl
  | cons i schedule ih =>
    rw [List.cons_append, follow, follow, Option.bind_assoc]
    congr 1
    funext w
    exact ih

/-- The runs are the schedules. -/
theorem steps_iff_follow :
    s.Steps revisits w w' ↔ ∃ schedule, s.follow revisits schedule w = some w' := by
  constructor
  · intro h
    induction h with
    | refl => exact ⟨[], rfl⟩
    | tail _ step ih =>
      obtain ⟨schedule, hschedule⟩ := ih
      obtain ⟨i, hi⟩ := exists_stepAt step
      refine ⟨schedule ++ [i], ?_⟩
      rw [follow_append, hschedule, Option.bind_some, follow, hi]
      rfl
  · rintro ⟨schedule, hschedule⟩
    induction schedule generalizing w with
    | nil =>
      obtain rfl := Option.some.inj hschedule
      exact .refl _
    | cons i schedule ih =>
      obtain ⟨v, hi, hrest⟩ := Option.bind_eq_some_iff.1 hschedule
      exact (ih hrest).head (stepAt_sound hi)

/-! ## What does not hang on the schedule -/

variable [LawfulBEq ι]

/-- Whatever the schedule, when no unit is left no id was expanded twice, and the same ids were
expanded as in the sequential exploration, the same ids emitted, each as often, and equally many
markers.  (An id is that of the element as it was listed, before a failure is recorded.) -/
theorem schedule_independent (bounded : s.Bounded root) (consistent : s.Consistent root)
    (revisits : Revisits) (limit : Nat) (steps : s.Steps revisits (opening root) w)
    (done : w.units = []) :
    ∃ log log₀ r₀, s.Tour revisits root log 0 w.progress.expanded ∧
      w.progress.emitted.Perm (log.flatMap s.output) ∧
      s.Trace revisits [root] .empty log₀ r₀ ∧
      s.explore revisits limit root = log₀.flatMap s.output ∧
      (s.expandedIds log).Nodup ∧ (s.expandedIds log).Perm (s.expandedIds log₀) ∧
      (log.map fun v => s.id v.element).Perm (log₀.map fun v => s.id v.element) ∧
      (log.flatMap s.markers).length = (log₀.flatMap s.markers).length := by
  obtain ⟨log, tour, hemitted⟩ := steps.complete done
  obtain ⟨log₀, r₀, trace, hexplore⟩ := explore_eq_output revisits bounded limit
  exact ⟨log, log₀, r₀, tour, hemitted, trace, hexplore, tour.nodup_expandedIds,
    tour.expanded_perm trace.tour consistent, tour.ids_perm trace.tour consistent,
    tour.length_markers_eq trace.tour consistent⟩

/-- Here the unit of `a/c` decides before `a/b/c` is listed, so `c` is expanded there. -/
def shortcutSchedule : List Nat := [0, 0, 0, 0, 0, 1, 0, 0, 1, 0, 0, 1, 1, 2, 1, 2, 1, 1, 1, 1, 0]

/-- The end of the run through `roundabout` with this schedule. -/
def shortcut : Workshop Char Unit Char where
  units := []
  progress :=
    { expanded := ⟨['b', 'c', 'a']⟩
      emitted :=
        [(Element.plain ⟨['a', 'b', 'a'], '.'⟩ .inserted ()),
          (Element.plain ⟨['a', 'b', 'c'], '.'⟩ .inserted ()),
          .plain ⟨['a', 'b'], 'a'⟩ .branch (), .plain ⟨['a', 'b'], 'c'⟩ .branch (),
          (Element.plain ⟨['a'], 'c'⟩ .branch ()).fail (.listing "c" "closed"),
          .plain ⟨['a'], 'b'⟩ .branch (), entrance] }

theorem shortcut_reached : roundabout.Steps .marked (opening entrance) shortcut :=
  steps_iff_follow.2 ⟨shortcutSchedule, rfl⟩

theorem shortcut_independent :
    roundabout.Bounded entrance ∧ roundabout.Consistent entrance ∧
      roundabout.Steps .marked (opening entrance) shortcut ∧ shortcut.units = [] ∧
      ∃ log log₀ r₀, roundabout.Tour .marked entrance log 0 ⟨['b', 'c', 'a']⟩ ∧
        shortcut.progress.emitted.Perm (log.flatMap roundabout.output) ∧
        roundabout.Trace .marked [entrance] .empty log₀ r₀ ∧
        roundabout.explore .marked 1 entrance = log₀.flatMap roundabout.output ∧
        (roundabout.expandedIds log).Nodup ∧
        (roundabout.expandedIds log).Perm (roundabout.expandedIds log₀) ∧
        (log.map fun v => v.element.key).Perm (log₀.map fun v => v.element.key) ∧
        (log.flatMap roundabout.markers).length = (log₀.flatMap roundabout.markers).length :=
  ⟨roundabout_bounded, roundabout_coherent.consistent, shortcut_reached, rfl,
    schedule_independent roundabout_bounded roundabout_coherent.consistent .marked 1
      shortcut_reached rfl⟩

/-! ## Sources without shared entities -/

variable (s) in
/-- Nothing is on a cycle, and different chains of listings lead to different ids. -/
structure TreeShaped (root : Element K α) : Prop where
  acyclic : ∀ e, s.Reaches root e → s.onCycle e = false
  unique : ∀ as e as' e', s.Chain root as e → s.Chain root as' e' → s.id e = s.id e' →
    as = as' ∧ e = e'

omit [BEq ι] [LawfulBEq ι] in
theorem TreeShaped.element_unique (tree : s.TreeShaped root) (e e' : Element K α)
    (he : s.Reaches root e) (he' : s.Reaches root e') (hid : s.id e = s.id e') : e = e' := by
  obtain ⟨as, chain⟩ := he.chain
  obtain ⟨as', chain'⟩ := he'.chain
  exact (tree.unique as e as' e' chain chain' hid).2

omit [BEq ι] [LawfulBEq ι] in
theorem TreeShaped.consistent (tree : s.TreeShaped root) : s.Consistent root where
  expandable e e' he he' hid := by rw [tree.element_unique e e' he he' hid]
  children e e' he he' hid _ cs hcs :=
    ⟨cs, by rw [← tree.element_unique e e' he he' hid, hcs], .refl _⟩
  onCycle as e chain hcycle := by
    rw [tree.acyclic e chain.reaches] at hcycle
    cases hcycle

/-- Without shared entities a run that is at its end emitted the elements of the sequential
exploration, with the failures recorded on them, each as often. -/
theorem Steps.emitted_perm (steps : s.Steps revisits (opening root) w) (done : w.units = [])
    (bounded : s.Bounded root) (tree : s.TreeShaped root) (limit : Nat) :
    w.progress.emitted.reverse.Perm (s.explore revisits limit root) := by
  obtain ⟨log, tour, hemitted⟩ := steps.complete done
  obtain ⟨log₀, r₀, trace, hexplore⟩ := explore_eq_output revisits bounded limit
  have hlogs := tour.visits_perm trace.tour tree.consistent tree.element_unique
  rw [hexplore]
  exact w.progress.emitted.reverse_perm.trans (hemitted.trans (hlogs.flatMap_right s.output))

/-- Without shared entities no run goes on forever, and where a run can take no further step, no
unit is left and the elements of the sequential exploration are emitted, with the failures recorded
on them, each as often.  So it is with the run in which units take turns. -/
theorem emitted_perm_explore (bounded : s.Bounded root) (tree : s.TreeShaped root)
    (revisits : Revisits) (limit : Nat) :
    Acc (fun w' w => s.Step revisits w w') (opening root) ∧
      (∀ w, s.Steps revisits (opening root) w → (∀ w', ¬ s.Step revisits w w') →
        w.units = [] ∧ w.progress.emitted.reverse.Perm (s.explore revisits limit root)) ∧
      (s.exploreConcurrently revisits root).Perm (s.explore revisits limit root) := by
  refine ⟨halts bounded revisits, fun w steps stuck => ?_, ?_⟩
  · have done : w.units = [] := by
      by_contra hunits
      obtain ⟨w', step⟩ : ∃ w', s.Step revisits w w' := exists_step hunits
      exact stuck w' step
    exact ⟨done, steps.emitted_perm done bounded tree limit⟩
  · obtain ⟨w, steps, done, hemitted⟩ := exploreConcurrently_run bounded revisits
    rw [hemitted]
    exact steps.emitted_perm done bounded tree limit

/-! ## A source without shared entities -/

/-- What `arbor` lists below a key. -/
def limbs : Char → Except Failure (List Char)
  | 'r' => .ok ['x', 'y', 'z']
  | 'x' => .ok ['z']
  | _ => .error (.listing "y" "closed")

/-- From the trunk `r` grow `x` with a leaf, `y`, which cannot be listed, and a leaf. -/
def arbor : Source Char Unit (List Char) where
  id := Element.path
  children e := (limbs e.key).map (·.map fun k =>
    .plain (e.position.child k) (if k = 'z' then .leaf else .branch) ())
  marker e _ := .plain (e.position.child '.') .inserted ()
  onCycle _ := false
  bound := 2

def trunk : Element Char Unit := .plain ⟨[], 'r'⟩ .branch ()

def arborChains : List (List (Element Char Unit) × Element Char Unit) :=
  let x := .plain ⟨['r'], 'x'⟩ .branch ()
  [([], trunk), ([trunk], x), ([trunk], .plain ⟨['r'], 'y'⟩ .branch ()),
    ([trunk], .plain ⟨['r'], 'z'⟩ .leaf ()), ([trunk, x], .plain ⟨['r', 'x'], 'z'⟩ .leaf ())]

theorem arbor_chain {as : List (Element Char Unit)} {e : Element Char Unit}
    (chain : arbor.Chain trunk as e) : (as, e) ∈ arborChains := by
  have hclosed : ∀ c ∈ arborChains, ∀ x ∈ ((arbor.children c.2).toOption.getD []),
      c.2.expandable = true → (c.1 ++ [c.2], x) ∈ arborChains := by decide
  induction chain with
  | root => decide
  | @child as e c cs _ hexpandable hcs hc ih =>
    refine hclosed (as, e) ih c ?_ hexpandable
    rw [hcs]
    exact hc

theorem arbor_bounded : arbor.Bounded trunk := by
  have hlists : ∀ c ∈ arborChains, (arbor.children c.2).toOption.isSome →
      c.2.expandable = true → c.2.path ∈ [['r'], ['r', 'x']] := by decide
  refine ⟨[['r'], ['r', 'x']], by decide, fun e cs he hexpandable hcs => ?_⟩
  obtain ⟨as, chain⟩ := he.chain
  exact hlists (as, e) (arbor_chain chain) (by rw [hcs]; rfl) hexpandable

theorem arbor_treeShaped : arbor.TreeShaped trunk where
  acyclic _ _ := rfl
  unique as e as' e' chain chain' hid := by
    have hunique : ∀ c ∈ arborChains, ∀ d ∈ arborChains, c.2.path = d.2.path → c = d := by decide
    exact Prod.mk.inj (hunique _ (arbor_chain chain) _ (arbor_chain chain') hid)

/-- The end of a run through `arbor` in which the unit of `r/y` is the first to be done. -/
def harvest : Workshop Char Unit (List Char) where
  units := []
  progress :=
    { expanded := ⟨[['r', 'x'], ['r', 'y'], ['r']]⟩
      emitted :=
        [.plain ⟨['r', 'x'], 'z'⟩ .leaf (), .plain ⟨['r'], 'x'⟩ .branch (),
          (Element.plain ⟨['r'], 'y'⟩ .branch ()).fail (.listing "y" "closed"),
          .plain ⟨['r'], 'z'⟩ .leaf (), trunk] }

theorem harvest_reached : arbor.Steps .compact (opening trunk) harvest :=
  steps_iff_follow.2 ⟨[0, 0, 0, 0, 0, 0, 1, 1, 1, 0, 0, 0, 0], rfl⟩

theorem harvest_perm :
    arbor.Bounded trunk ∧ arbor.TreeShaped trunk ∧
      arbor.Steps .compact (opening trunk) harvest ∧
      (∀ w, ¬ arbor.Step .compact harvest w) ∧
      harvest.progress.emitted.reverse.Perm (arbor.explore .compact 1 trunk) :=
  ⟨arbor_bounded, arbor_treeShaped, harvest_reached, not_step_of_done rfl,
    ((emitted_perm_explore arbor_bounded arbor_treeShaped .compact 1).2.1 harvest harvest_reached
      (not_step_of_done rfl)).2⟩

end Source

end Hierarchy
