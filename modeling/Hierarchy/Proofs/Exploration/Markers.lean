import Hierarchy.Proofs.Exploration.Reach
import Hierarchy.Proofs.Exploration.Route

/-!
# What markers add

Marking revisits changes what a visit emits and nothing else: the same elements are expanded
(`decide_marked_expand_iff`), so the same elements are visited, with the same record each
(`Route.marked`).  A marked exploration is therefore the compact one with a marker behind each
element that can be expanded and is not (`explore_marked`), and below such an element nothing
comes any more (`Route.nothing_below`).
-/

namespace Hierarchy

namespace Source

variable {K α ι : Type} (s : Source K α ι)

/-- What a marked exploration puts behind a visited element: a marker, if it can be expanded and
is not. -/
def continuation (v : Visit K α) : List (Element K α) :=
  if v.element.expandable = true ∧ v.decision ≠ .expand then
    [s.marker v.element (if s.onCycle v.element then .cycle else .alreadyShown)]
  else []

variable [BEq ι] {s} {revisits : Revisits} {e root : Element K α} {r r' : VisitRecord ι}
  {pending : List (Occurrence K α)} {stops : List (Stop K α)}

/-! ## One visit -/

theorem decide_marked_expand_iff :
    s.decide .marked e r = .expand ↔ s.decide .compact e r = .expand := by
  rw [decide_eq_expand, decide_eq_expand]

theorem output_compact :
    s.output (s.visitAt .compact e r) = [s.reported (s.visitAt .compact e r)] := by
  unfold output
  rw [markers_visitAt_compact]

/-- A marked visit emits what the compact one emits, and its continuation. -/
theorem output_marked :
    s.output (s.visitAt .marked e r) =
      s.reported (s.visitAt .compact e r) :: s.continuation (s.visitAt .compact e r) := by
  have hreported : s.reported (s.visitAt .marked e r) = s.reported (s.visitAt .compact e r) := by
    unfold reported visitAt decide
    cases e.expandable <;> cases s.onCycle e <;> cases r.contains (s.id e) <;> rfl
  have hmarkers : s.markers (s.visitAt .marked e r) =
      s.continuation (s.visitAt .compact e r) := by
    unfold markers continuation visitAt decide
    cases e.expandable <;> cases s.onCycle e <;> cases r.contains (s.id e) <;> simp
  unfold output
  rw [hreported, hmarkers]

/-! ## All visits -/

/-- The elements that a compact exploration visits are those of a marked one, at the same
records. -/
theorem Route.marked (route : s.Route .compact pending r stops r') :
    ∃ stops', s.Route .marked pending r stops' r' ∧
      stops'.flatMap (fun t => s.output t.visit) =
        stops.flatMap fun t => s.reported t.visit :: s.continuation t.visit := by
  induction route with
  | done r => exact ⟨[], .done r, rfl⟩
  | @visit p pending r r' stops _ ih =>
    obtain ⟨stops', route', houtput⟩ := ih
    have hlisted : s.listed (s.visitAt .marked p.element r) =
        s.listed (s.visitAt .compact p.element r) := listed_congr decide_marked_expand_iff
    have hrecorded : s.recorded (s.visitAt .marked p.element r) r =
        s.recorded (s.visitAt .compact p.element r) r := recorded_congr decide_marked_expand_iff
    refine ⟨s.stopAt .marked p r :: stops', .visit ?_, ?_⟩
    · rwa [hlisted, hrecorded]
    · rw [List.flatMap_cons, List.flatMap_cons, houtput]
      congr 1
      exact output_marked

theorem Route.output_compact (route : s.Route .compact pending r stops r') :
    stops.flatMap (fun t => s.output t.visit) = stops.map fun t => s.reported t.visit := by
  rw [List.map_eq_flatMap]
  apply List.flatMap_congr
  intro t ht
  obtain ⟨r₁, hstop⟩ := route.stopped_at t ht
  rw [hstop]
  exact Source.output_compact

/-- At a stop everything is recorded that the stops before expanded. -/
theorem Route.recorded_before {before after : List (Stop K α)} {t : Stop K α}
    (route : s.Route revisits pending r (before ++ t :: after) r') :
    ∃ r₁, t.decision = s.decide revisits t.element r₁ ∧
      r₁.ids = (s.expandedIds (before.map Stop.visit)).reverse ++ r.ids := by
  induction before generalizing pending r with
  | nil =>
    cases route with
    | visit _ => exact ⟨r, rfl, rfl⟩
  | cons u before ih =>
    cases route with
    | @visit p _ _ _ _ rest =>
      obtain ⟨r₁, hdecision, hids⟩ := ih rest
      refine ⟨r₁, hdecision, ?_⟩
      rw [hids, ids_recorded, ← List.append_assoc, ← List.reverse_append, ← expandedIds_append]
      rfl

variable [LawfulBEq ι]

/-- What is expanded under a given record stays so under a smaller one. -/
theorem decide_expand_of_recorded {v : Visit K α}
    (h : s.decide revisits e (s.recorded v r) = .expand) : s.decide revisits e r = .expand := by
  obtain ⟨hexpandable, hcycle, hnew⟩ := decide_eq_expand.1 h
  refine decide_eq_expand.2 ⟨hexpandable, hcycle, Bool.eq_false_iff.2 fun hr => ?_⟩
  exact Bool.eq_false_iff.1 hnew (contains_recorded.2 (.inr hr))

/-- What stands above a stop stood above something pending, or is expanded on the way. -/
theorem Route.expand_above (route : s.Route revisits pending r stops r') {t : Stop K α}
    (ht : t ∈ stops) {above : List (Element K α)} (h : above ++ [e] <+: t.above) :
    (∃ q ∈ pending, above ++ [e] <+: q.above) ∨ s.decide revisits e r = .expand := by
  induction route with
  | done r => cases ht
  | @visit p pending r r' stops _ ih =>
    rcases List.mem_cons.1 ht with rfl | ht
    · exact .inl ⟨p, List.mem_cons_self, h⟩
    · rcases ih ht with ⟨q, hq, hqabove⟩ | hexpand
      · rcases List.mem_append.1 hq with hq | hq
        · obtain ⟨hp, hlisted⟩ := Occurrence.mem_below.1 hq
          rw [hp, List.prefix_concat_iff] at hqabove
          rcases hqabove with heq | hqabove
          · obtain ⟨-, he⟩ := List.append_inj' heq rfl
            obtain rfl : e = p.element := by simpa using he
            exact .inr (s.mem_listed hlisted).1
          · exact .inl ⟨p, List.mem_cons_self, hqabove⟩
        · exact .inl ⟨q, List.mem_cons_of_mem _ hq, hqabove⟩
      · exact .inr (decide_expand_of_recorded hexpand)

/-- Below an element that is not expanded nothing is visited later.  The pending occurrences stand
under fewer and fewer elements, so none of them lies below the first. -/
theorem Route.nothing_below (route : s.Route revisits pending r stops r')
    (hpending : pending.Pairwise fun p q => q.above.length ≤ p.above.length) :
    stops.Pairwise fun t t' =>
      t.decision ≠ .expand → ¬ t.above ++ [t.element] <+: t'.above := by
  induction route with
  | done r => exact .nil
  | @visit p pending r r' stops rest ih =>
    obtain ⟨hp, hpairs⟩ := List.pairwise_cons.1 hpending
    have hbelow : (p.below (s.listed (s.visitAt revisits p.element r)) ++ pending).Pairwise
        fun p q => q.above.length ≤ p.above.length := by
      refine List.pairwise_append.2 ⟨List.pairwise_of_forall_mem_list ?_, hpairs, ?_⟩
      · intro x hx y hy
        rw [(Occurrence.mem_below.1 hx).1, (Occurrence.mem_below.1 hy).1]
      · intro x hx y hy
        have hy := hp y hy
        rw [(Occurrence.mem_below.1 hx).1, List.length_append, List.length_singleton]
        omega
    refine List.pairwise_cons.2 ⟨fun t ht hnot h => ?_, ih hbelow⟩
    rcases rest.expand_above ht h with ⟨q, hq, hqabove⟩ | hexpand
    · have hlength := hqabove.length_le
      rw [List.length_append, List.length_singleton] at hlength
      rcases List.mem_append.1 hq with hq | hq
      · exact hnot (s.mem_listed (Occurrence.mem_below.1 hq).2).1
      · have hq := hp q hq
        change p.above.length + 1 ≤ q.above.length at hlength
        omega
    · exact hnot (decide_expand_of_recorded hexpand)

/-- A marked exploration emits what the compact one emits, with one marker directly behind each
element that can be expanded and is not.  Not expanded is what is on a cycle or has an id that was
expanded before, and nothing below it is visited later. -/
theorem explore_marked (bounded : s.Bounded root) (limit : Nat) :
    ∃ stops r, s.Route .compact [.root root] .empty stops r ∧
      s.explore .compact limit root = (stops.map fun t => s.reported t.visit) ∧
      s.explore .marked limit root =
        (stops.flatMap fun t => s.reported t.visit :: s.continuation t.visit) ∧
      (∀ before t after, stops = before ++ t :: after →
        (t.decision = .expand ↔ t.element.expandable = true ∧ s.onCycle t.element = false ∧
          s.id t.element ∉ s.expandedIds (before.map Stop.visit))) ∧
      stops.Pairwise fun t t' =>
        t.decision ≠ .expand → ¬ t.above ++ [t.element] <+: t'.above := by
  obtain ⟨stops, r, route, hcompact⟩ := explore_eq_stops .compact bounded limit
  obtain ⟨marked, r₁, routeMarked, hmarked⟩ := explore_eq_stops .marked bounded limit
  obtain ⟨marked', routeMarked', houtput⟩ := route.marked
  obtain ⟨rfl, -⟩ := routeMarked.unique routeMarked'
  refine ⟨stops, r, route, hcompact.trans route.output_compact, hmarked.trans houtput, ?_,
    route.nothing_below (List.pairwise_singleton _ _)⟩
  rintro before t after rfl
  obtain ⟨r₂, hdecision, hids⟩ := route.recorded_before
  rw [hdecision, decide_eq_expand, Bool.eq_false_iff (b := r₂.contains _), Ne,
    VisitRecord.contains_iff, hids]
  simp [VisitRecord.empty]

/-- The way back to `a` is a cycle, and `c` is shown below `b` already. -/
theorem roundabout_marked :
    roundabout.Bounded entrance ∧
      (∃ stops r, roundabout.Route .compact [.root entrance] .empty stops r ∧
        roundabout.explore .compact 1 entrance =
          (stops.map fun t => roundabout.reported t.visit) ∧
        roundabout.explore .marked 1 entrance = (stops.flatMap fun t =>
          roundabout.reported t.visit :: roundabout.continuation t.visit) ∧
        (∀ before t after, stops = before ++ t :: after →
          (t.decision = .expand ↔ t.element.expandable = true ∧
            roundabout.onCycle t.element = false ∧
            roundabout.id t.element ∉ roundabout.expandedIds (before.map Stop.visit))) ∧
        stops.Pairwise fun t t' =>
          t.decision ≠ .expand → ¬ t.above ++ [t.element] <+: t'.above) ∧
      (roundabout.explore .compact 1 entrance).map Element.key = ['a', 'b', 'c', 'a', 'c'] ∧
      (roundabout.explore .marked 1 entrance).map Element.key =
        ['a', 'b', 'c', 'a', '.', 'c', '.'] :=
  ⟨roundabout_bounded, explore_marked roundabout_bounded 1, by decide, by decide⟩

end Source

end Hierarchy
