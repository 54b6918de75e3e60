import Hierarchy.Proofs.Exploration.Chain
import Hierarchy.Proofs.Exploration.Trace
import Hierarchy.Proofs.SameKeys
import Mathlib.Algebra.Order.Group.Multiset
import Mathlib.Data.List.Nodup
import Mathlib.Tactic.Abel

/-!
# Visits in any order

An exploration may visit what is pending in any order; the walk takes the first, workers take what
the schedule gives them.  A `Tour` is what all of them do: it holds the visits made so far and the
elements that are still pending.

Nothing is lost on the way (`Tour.conservation`).  So a complete tour visits every id below its root
and expands each of them that can be expanded, once (`Tour.visits_reached`, `Tour.expands`).

The order decides which of the elements of one entity is expanded, and little else.  Complete tours
visit the same ids, each equally often (`Tour.ids_perm`), expand the same ids (`Tour.expanded_perm`)
and emit equally many markers (`Tour.length_markers_eq`), as long as the elements of one entity list
the same ids (`Source.Consistent`).  Where an id belongs to one element only, they make the same
visits (`Tour.visits_perm`).
-/

namespace Hierarchy

namespace Source

variable {K α ι : Type} [BEq ι] (s : Source K α ι) (revisits : Revisits)

/-! ## Tours -/

/-- `s.Tour revisits root log pending r`: starting at `root`, the visits of `log` were made, one
after the other; they left `pending` to be visited and recorded `r`. -/
inductive Tour (root : Element K α) :
    List (Visit K α) → Multiset (Element K α) → VisitRecord ι → Prop where
  | start : Tour root [] {root} .empty
  | visit {log : List (Visit K α)} {e : Element K α} {pending : Multiset (Element K α)}
      {r : VisitRecord ι} (before : Tour root log (e ::ₘ pending) r) :
      Tour root (log ++ [s.visitAt revisits e r])
        (↑(s.listed (s.visitAt revisits e r)) + pending)
        (s.recorded (s.visitAt revisits e r) r)

variable {s revisits} {root : Element K α} {log log' : List (Visit K α)}
  {pending : Multiset (Element K α)} {r r' : VisitRecord ι}

theorem Trace.extends_tour {es : List (Element K α)} (trace : s.Trace revisits es r log' r')
    (tour : s.Tour revisits root log (↑es + pending) r) :
    s.Tour revisits root (log ++ log') pending r' := by
  induction trace generalizing log with
  | done r => simpa using tour
  | @visit e es r r' log' rest ih =>
    rw [← Multiset.cons_coe, Multiset.cons_add] at tour
    have next := tour.visit
    rw [← add_assoc, Multiset.coe_add] at next
    simpa using ih next

/-- The visits of a trace are a complete tour. -/
theorem Trace.tour (trace : s.Trace revisits [root] .empty log r) :
    s.Tour revisits root log 0 r := by
  have hstart : s.Tour revisits root [] (↑[root] + 0) .empty := by simpa using .start
  simpa using trace.extends_tour hstart

namespace Tour

/-! ## What is visited and what is pending -/

/-- The elements visited or pending are the root and everything that some visit listed, each as
often as it was listed. -/
theorem conservation (tour : s.Tour revisits root log pending r) :
    (↑(log.map Visit.element) : Multiset (Element K α)) + pending =
      root ::ₘ ↑(log.flatMap s.listed) := by
  induction tour with
  | start => simp
  | @visit log e pending r _ ih =>
    have hvisited : (↑((log ++ [s.visitAt revisits e r]).map Visit.element) :
        Multiset (Element K α)) = ↑(log.map Visit.element) + {e} := by
      rw [List.map_append, ← Multiset.coe_add]
      rfl
    have hlisted : (↑((log ++ [s.visitAt revisits e r]).flatMap s.listed) :
        Multiset (Element K α)) =
          ↑(log.flatMap s.listed) + ↑(s.listed (s.visitAt revisits e r)) := by
      rw [List.flatMap_append, List.flatMap_singleton, ← Multiset.coe_add]
    rw [hvisited, hlisted, ← Multiset.cons_add, ← ih, ← Multiset.singleton_add]
    abel

/-- A complete tour visits its root and what its visits list. -/
theorem visited_perm (tour : s.Tour revisits root log 0 r) :
    (log.map Visit.element).Perm (root :: log.flatMap s.listed) := by
  rw [← Multiset.coe_eq_coe, ← Multiset.cons_coe, ← tour.conservation, add_zero]

theorem mem_visited_iff (tour : s.Tour revisits root log 0 r) {e : Element K α} :
    (∃ v ∈ log, v.element = e) ↔ e = root ∨ ∃ v ∈ log, e ∈ s.listed v := by
  simpa using tour.visited_perm.mem_iff (a := e)

/-- Each visit is one at the record of its moment. -/
theorem visited_at (tour : s.Tour revisits root log pending r) :
    ∀ v ∈ log, ∃ r', v = s.visitAt revisits v.element r' := by
  induction tour with
  | start => simp
  | @visit log e pending r _ ih =>
    intro v hv
    rcases List.mem_append.1 hv with hv | hv
    · exact ih v hv
    · rw [List.mem_singleton.1 hv]
      exact ⟨r, rfl⟩

theorem expandable_of_expand (tour : s.Tour revisits root log pending r) {v : Visit K α}
    (hv : v ∈ log) (hexpand : v.decision = .expand) : v.element.expandable = true := by
  obtain ⟨r', hvisit⟩ := tour.visited_at v hv
  rw [hvisit] at hexpand
  exact (decide_eq_expand.1 hexpand).1

/-! ## Markers -/

/-- Of what can be expanded, each element is expanded or gets a marker. -/
theorem length_markers (tour : s.Tour .marked root log pending r) :
    (log.flatMap s.markers).length + (s.expandedIds log).length =
      log.countP (·.element.expandable) := by
  induction tour with
  | start => rfl
  | @visit log e pending r _ ih =>
    have hvisit := s.length_markers_visitAt e r
    rw [List.flatMap_append, List.flatMap_singleton, expandedIds_append, List.countP_append,
      List.length_append, List.length_append]
    omega

theorem markers_eq_nil (tour : s.Tour .compact root log pending r) :
    log.flatMap s.markers = [] := by
  rw [List.flatMap_eq_nil_iff]
  intro v hv
  obtain ⟨r', hv⟩ := tour.visited_at v hv
  rw [hv]
  exact s.markers_visitAt_compact v.element r'

/-! ## What is recorded -/

/-- A tour records what it expands. -/
theorem ids_eq (tour : s.Tour revisits root log pending r) :
    r.ids = (s.expandedIds log).reverse := by
  induction tour with
  | start => rfl
  | @visit log e pending r _ ih =>
    rw [ids_recorded, ih, ← List.reverse_append, expandedIds_append]

variable [LawfulBEq ι]

theorem contains_iff (tour : s.Tour revisits root log pending r) {i : ι} :
    r.contains i ↔ i ∈ s.expandedIds log := by
  rw [VisitRecord.contains_iff, tour.ids_eq, List.mem_reverse]

/-- No id is expanded twice. -/
theorem nodup_expandedIds (tour : s.Tour revisits root log pending r) :
    (s.expandedIds log).Nodup := by
  rw [← List.nodup_reverse, ← tour.ids_eq]
  induction tour with
  | start => exact List.nodup_nil
  | visit _ ih => exact nodup_recorded ih

/-- An element that can be expanded is on a cycle, or its id is recorded from its visit on. -/
theorem onCycle_or_recorded (tour : s.Tour revisits root log pending r) :
    ∀ v ∈ log, v.element.expandable = true →
      s.onCycle v.element = true ∨ r.contains (s.id v.element) := by
  induction tour with
  | start => simp
  | @visit log e pending r _ ih =>
    intro v hv hexpandable
    rcases List.mem_append.1 hv with hv | hv
    · exact (ih v hv hexpandable).imp_right fun h => contains_recorded.2 (.inr h)
    · rw [List.mem_singleton.1 hv] at hexpandable ⊢
      exact Source.onCycle_or_recorded hexpandable

/-- To whatever is visited or pending leads a chain of elements whose ids are recorded. -/
theorem chain_recorded (tour : s.Tour revisits root log pending r) :
    ∀ e ∈ (↑(log.map Visit.element) : Multiset (Element K α)) + pending,
      ∃ as, s.Chain root as e ∧ ∀ a ∈ as, r.contains (s.id a) := by
  induction tour with
  | start => simpa using ⟨[], .root, by simp⟩
  | @visit log e pending r before ih =>
    intro x hx
    have hx' : x ∈ (↑(log.map Visit.element) : Multiset (Element K α)) + e ::ₘ pending ∨
        x ∈ s.listed (s.visitAt revisits e r) := by
      simp only [List.map_append, List.map_cons, List.map_nil, ← Multiset.coe_add,
        Multiset.mem_add, Multiset.mem_coe, Multiset.mem_cons, List.mem_singleton] at hx ⊢
      tauto
    rcases hx' with hx | hx
    · obtain ⟨as, chain, has⟩ := ih x hx
      exact ⟨as, chain, fun a ha => contains_recorded.2 (.inr (has a ha))⟩
    · obtain ⟨as, chain, has⟩ := ih e (by simp)
      obtain ⟨hexpand, cs, hcs, hxcs⟩ := s.mem_listed hx
      refine ⟨as ++ [e], chain.child (decide_eq_expand.1 hexpand).1 hcs hxcs, fun a ha => ?_⟩
      rcases List.mem_append.1 ha with ha | ha
      · exact contains_recorded.2 (.inr (has a ha))
      · rw [List.mem_singleton.1 ha]
        exact contains_recorded.2 (.inl ⟨hexpand, rfl⟩)

theorem chain (tour : s.Tour revisits root log pending r) {v : Visit K α} (hv : v ∈ log) :
    ∃ as, s.Chain root as v.element ∧ ∀ a ∈ as, r.contains (s.id a) := by
  apply tour.chain_recorded
  rw [Multiset.mem_add, Multiset.mem_coe]
  exact .inl (List.mem_map_of_mem hv)

theorem reaches (tour : s.Tour revisits root log pending r) {v : Visit K α} (hv : v ∈ log) :
    s.Reaches root v.element := by
  obtain ⟨as, chain, -⟩ := tour.chain hv
  exact chain.reaches

/-! ## Complete tours -/

/-- Whatever can be expanded is expanded, under its own or an equal id. -/
theorem expands (tour : s.Tour revisits root log pending r) (consistent : s.Consistent root)
    {v : Visit K α} (hv : v ∈ log) (hexpandable : v.element.expandable = true) :
    s.id v.element ∈ s.expandedIds log := by
  rw [← tour.contains_iff]
  rcases tour.onCycle_or_recorded v hv hexpandable with hcycle | hrecorded
  · obtain ⟨as, chain, has⟩ := tour.chain hv
    obtain ⟨a, ha, hid⟩ := consistent.onCycle as v.element chain hcycle
    rw [← hid]
    exact has a ha
  · exact hrecorded

/-- No id below the root is missed. -/
theorem visits_reached (tour : s.Tour revisits root log 0 r) (consistent : s.Consistent root)
    {e : Element K α} (he : s.Reaches root e) : ∃ v ∈ log, s.id v.element = s.id e := by
  induction he with
  | root =>
    obtain ⟨v, hv, hroot⟩ := tour.mem_visited_iff.2 (.inl rfl)
    exact ⟨v, hv, by rw [hroot]⟩
  | @child e c cs he hexpandable hcs hc ih =>
    -- the children are visited where the entity of `e` is expanded, which need not be at `e`
    obtain ⟨v, hv, hid⟩ := ih
    have hexpandable' : v.element.expandable = true := by
      rw [consistent.expandable v.element e (tour.reaches hv) he hid, hexpandable]
    obtain ⟨w, hw, hexpand, hwv⟩ := mem_expandedIds.1 (tour.expands consistent hv hexpandable')
    obtain ⟨cs', hcs', c', hc', hidc⟩ := consistent.child he (tour.reaches hw)
      (hid.symm.trans hwv.symm) hexpandable hcs hc
    have hlisted : c' ∈ s.listed w := by rwa [s.listed_eq hexpand hcs']
    obtain ⟨x, hx, hxc⟩ := tour.mem_visited_iff.2 (.inr ⟨w, hw, hlisted⟩)
    exact ⟨x, hx, by rw [hxc, hidc]⟩

theorem mem_expandedIds_iff (tour : s.Tour revisits root log 0 r)
    (consistent : s.Consistent root) {i : ι} :
    i ∈ s.expandedIds log ↔ ∃ e, s.Reaches root e ∧ e.expandable = true ∧ s.id e = i := by
  constructor
  · intro hi
    obtain ⟨v, hv, hexpand, rfl⟩ := mem_expandedIds.1 hi
    exact ⟨v.element, tour.reaches hv, tour.expandable_of_expand hv hexpand, rfl⟩
  · rintro ⟨e, he, hexpandable, rfl⟩
    obtain ⟨v, hv, hid⟩ := tour.visits_reached consistent he
    rw [← hid]
    apply tour.expands consistent hv
    rw [consistent.expandable v.element e (tour.reaches hv) he hid, hexpandable]

/-! ## Two complete tours -/

section TwoTours

variable {revisits' : Revisits} (tour : s.Tour revisits root log 0 r)
  (tour' : s.Tour revisits' root log' 0 r') (consistent : s.Consistent root)

include tour tour' consistent

theorem expanded_perm : (s.expandedIds log).Perm (s.expandedIds log') := by
  rw [List.perm_ext_iff_of_nodup tour.nodup_expandedIds tour'.nodup_expandedIds]
  intro i
  rw [tour.mem_expandedIds_iff consistent, tour'.mem_expandedIds_iff consistent]

/-- Where two tours expand one id, they list the same ids. -/
theorem listed_ids_perm {v v' : Visit K α} (hv : v ∈ log) (hv' : v' ∈ log')
    (hexpand : v.decision = .expand) (hexpand' : v'.decision = .expand)
    (hid : s.id v.element = s.id v'.element) :
    ((s.listed v).map s.id).Perm ((s.listed v').map s.id) := by
  have hreach := tour.reaches hv
  have hreach' := tour'.reaches hv'
  cases hcs : s.children v.element with
  | ok cs =>
    obtain ⟨cs', hcs', hperm⟩ := consistent.children _ _ hreach hreach' hid
      (tour.expandable_of_expand hv hexpand) cs hcs
    rw [s.listed_eq hexpand hcs, s.listed_eq hexpand' hcs']
    exact hperm
  | error cause =>
    cases hcs' : s.children v'.element with
    | ok cs' =>
      obtain ⟨cs, hok, -⟩ := consistent.children _ _ hreach' hreach hid.symm
        (tour'.expandable_of_expand hv' hexpand') cs' hcs'
      rw [hcs] at hok
      cases hok
    | error cause' =>
      rw [listed_eq_nil hcs, listed_eq_nil hcs']

/-- Complete tours visit the same ids, each equally often. -/
theorem ids_perm :
    (log.map fun v => s.id v.element).Perm (log'.map fun v => s.id v.element) := by
  have hlisted : ((log.flatMap s.listed).map s.id).Perm ((log'.flatMap s.listed).map s.id) := by
    rw [← flatMap_listed_expanded log, ← flatMap_listed_expanded log', List.map_flatMap,
      List.map_flatMap]
    refine flatMap_perm_of_map_perm (tour.expanded_perm tour' consistent) ?_
    intro v hv v' hv' hid
    rw [List.mem_filter, decide_eq_true_eq] at hv hv'
    exact tour.listed_ids_perm tour' consistent hv.1 hv'.1 hv.2 hv'.2 hid
  have hvisited := tour.visited_perm.map s.id
  have hvisited' := tour'.visited_perm.map s.id
  rw [List.map_map, List.map_cons] at hvisited hvisited'
  exact hvisited.trans ((hlisted.cons _).trans hvisited'.symm)

/-- Complete tours visit equally many elements that can be expanded. -/
theorem countP_expandable_eq :
    log.countP (·.element.expandable) = log'.countP (·.element.expandable) := by
  have hperm := map_perm_of_map_perm (f := fun v : Visit K α => v.element.expandable)
    (tour.ids_perm tour' consistent) fun v hv v' hv' hid =>
      consistent.expandable _ _ (tour.reaches hv) (tour'.reaches hv') hid
  have hcount := hperm.countP_eq fun expandable => expandable
  rwa [List.countP_map, List.countP_map] at hcount

end TwoTours

/-- Complete tours emit equally many markers. -/
theorem length_markers_eq (tour : s.Tour revisits root log 0 r)
    (tour' : s.Tour revisits root log' 0 r') (consistent : s.Consistent root) :
    (log.flatMap s.markers).length = (log'.flatMap s.markers).length := by
  cases revisits with
  | compact => rw [tour.markers_eq_nil, tour'.markers_eq_nil]
  | marked =>
    have hmarkers := tour.length_markers
    have hmarkers' := tour'.length_markers
    rw [(tour.expanded_perm tour' consistent).length_eq,
      tour.countP_expandable_eq tour' consistent] at hmarkers
    omega

/-- If an id belongs to one element only, complete tours make the same visits. -/
theorem visits_perm (tour : s.Tour revisits root log 0 r) (tour' : s.Tour revisits root log' 0 r')
    (consistent : s.Consistent root)
    (unique : ∀ e e', s.Reaches root e → s.Reaches root e' → s.id e = s.id e' → e = e') :
    log.Perm log' := by
  refine perm_of_filter_map_perm (tour.ids_perm tour' consistent)
    (tour.expanded_perm tour' consistent) fun v hv v' hv' hid hdecisions => ?_
  have helement := unique _ _ (tour.reaches hv) (tour'.reaches hv') hid
  obtain ⟨r₁, hv⟩ := tour.visited_at v hv
  obtain ⟨r₂, hv'⟩ := tour'.visited_at v' hv'
  rw [← helement] at hv'
  rw [hv, hv'] at hdecisions ⊢
  exact visitAt_eq (decide_eq_decide.1 hdecisions)

end Tour

end Source

end Hierarchy
