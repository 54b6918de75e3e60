import Hierarchy.Proofs.Exploration.Reach
import Hierarchy.Proofs.HierarchyOrder
import Mathlib.Data.List.Nodup

/-!
# Where explored elements stand

A source that puts children and markers directly below their element (`Source.Placed`) is explored
into a list in which each element but the root has a parent that is a branch
(`explore_parentsListed`).  If siblings have different keys (`Source.SiblingsDiffer`), no two
elements stand at one path (`explore_paths_nodup`): pending elements lie apart, that is, none of
them at or below another, and all that is emitted lies at or below one of them
(`Trace.below_pending`).  Explorations of roots that lie apart can be put together.
-/

namespace Hierarchy

/-! ## Paths that lie apart -/

section Paths

variable {K : Type} {p p' q q' path : List K}

/-- Neither path leads to the other. -/
def Apart (p q : List K) : Prop := ¬ p <+: q ∧ ¬ q <+: p

/-- What lies below one of two paths that lie apart does not lie below the other. -/
theorem Apart.not_prefix (h : Apart p q) (hp : p <+: path) : ¬ q <+: path := fun hq =>
  (List.prefix_or_prefix_of_prefix hp hq).elim h.1 h.2

theorem Apart.mono (h : Apart p q) (hp : p <+: p') (hq : q <+: q') : Apart p' q' :=
  ⟨fun hpq => h.not_prefix (hp.trans hpq) hq, fun hqp => h.not_prefix hp (hq.trans hqp)⟩

theorem Apart.ne (h : Apart p q) : p ≠ q := by
  rintro rfl
  exact h.1 (List.prefix_refl _)

theorem apart_siblings {j k : K} (above : List K) (h : j ≠ k) :
    Apart (above ++ [j]) (above ++ [k]) :=
  ⟨fun hjk => h (key_unique hjk (List.prefix_refl _)),
    fun hkj => h (key_unique (List.prefix_refl _) hkj)⟩

end Paths

/-! ## Lists with all parents -/

section Parents

variable {K α : Type} {l : List (Element K α)}

/-- Each element that is not a root has its parent in the list, and this is a branch. -/
def ParentsListed (l : List (Element K α)) : Prop :=
  ∀ x ∈ l, x.ancestors ≠ [] → ∃ y ∈ l, y.path = x.ancestors ∧ y.kind = .branch

theorem ParentsListed.flatMap {β : Type} {f : β → List (Element K α)} {bs : List β}
    (h : ∀ b ∈ bs, ParentsListed (f b)) : ParentsListed (bs.flatMap f) := by
  intro x hx hne
  obtain ⟨b, hb, hx⟩ := List.mem_flatMap.1 hx
  obtain ⟨y, hy, hparent⟩ := h b hb x hx hne
  exact ⟨y, List.mem_flatMap.2 ⟨b, hb, hy⟩, hparent⟩

/-- Above an element each level has a branch of its own. -/
theorem ParentsListed.above (h : ParentsListed l) {x : Element K α} (hx : x ∈ l) {p : List K}
    (hp : p ≠ []) (hpx : p <+: x.ancestors) : ∃ y ∈ l, y.path = p ∧ y.kind = .branch := by
  induction hn : x.path.length using Nat.strong_induction_on generalizing x with
  | _ n ih =>
    have hne : x.ancestors ≠ [] := fun hnil => hp (List.prefix_nil.1 (hnil ▸ hpx))
    obtain ⟨y, hy, hpath, hkind⟩ := h x hx hne
    rw [← hpath, Element.prefix_path_iff] at hpx
    rcases hpx with hpy | rfl
    · refine ih y.path.length ?_ hy hpy rfl
      rw [← hn, hpath, x.path_eq, List.length_append, List.length_singleton]
      exact Nat.lt_succ_self _
    · exact ⟨y, hy, rfl, hkind⟩

theorem ParentsListed.closed (h : ParentsListed l) : PrefixClosed l := by
  intro x hx p hp hpx
  rcases Element.prefix_path_iff.1 hpx with hpx | rfl
  · obtain ⟨y, hy, hpath, -⟩ := h.above hx hp hpx
    exact ⟨y, hy, hpath⟩
  · exact ⟨x, hx, rfl⟩

/-- What has other elements below it is a branch. -/
theorem ParentsListed.branches (h : ParentsListed l) (distinct : (l.map Element.path).Nodup) :
    ∀ x ∈ l, ∀ y ∈ l, x.path <+: y.path → x.path ≠ y.path → x.kind = .branch := by
  intro x hx y hy hxy hne
  have hnonempty : x.path ≠ [] := List.concat_ne_nil _ _
  obtain ⟨z, hz, hpath, hkind⟩ :=
    h.above hy hnonempty (Element.strict_prefix_path_iff.1 ⟨hxy, hne⟩)
  rwa [← List.inj_on_of_nodup_map distinct hz hx hpath]

/-- Different keys at the top lie apart. -/
theorem apart_roots (top : ∀ root ∈ l, root.ancestors = []) (keys : (l.map Element.key).Nodup) :
    l.Pairwise fun p q => Apart p.path q.path := by
  refine (List.pairwise_map.1 keys).imp_of_mem fun {p q} hp hq hne => ?_
  rw [p.path_eq, q.path_eq, top p hp, top q hq]
  exact apart_siblings [] hne

end Parents

namespace Source

variable {K α ι : Type} (s : Source K α ι) (root : Element K α)

/-! ## Sources that place what they list -/

/-- What is listed for an element, or put behind it, stands directly below it. -/
structure Placed : Prop where
  children : ∀ e cs, s.Reaches root e → e.expandable = true → s.children e = .ok cs →
    ∀ c ∈ cs, c.ancestors = e.path
  marker : ∀ e reason, s.Reaches root e → e.expandable = true →
    (s.marker e reason).ancestors = e.path

/-- No key is listed twice for one element. -/
def SiblingsDiffer : Prop :=
  ∀ e cs, s.Reaches root e → e.expandable = true → s.children e = .ok cs →
    (cs.map Element.key).Nodup

/-- All that can be emitted is shown. -/
structure Shown : Prop where
  element : ∀ e, s.Reaches root e → e.shown = true
  marker : ∀ e reason, s.Reaches root e → e.expandable = true → (s.marker e reason).shown = true

variable {s root} {revisits : Revisits} {e x : Element K α} {r r' : VisitRecord ι}
  {pending : List (Element K α)} {log : List (Visit K α)}

/-! ## One visit -/

theorem position_reported (v : Visit K α) : (s.reported v).position = v.element.position := by
  unfold reported
  split <;> rfl

theorem kind_reported (v : Visit K α) : (s.reported v).kind = v.element.kind := by
  unfold reported
  split <;> rfl

theorem shown_reported (v : Visit K α) : (s.reported v).shown = v.element.shown := by
  unfold reported
  split <;> rfl

theorem path_reported (v : Visit K α) : (s.reported v).path = v.element.path :=
  congrArg Position.path (position_reported v)

theorem branch_of_expandable (h : e.expandable = true) : e.kind = .branch := by
  unfold Element.expandable at h
  rw [Bool.and_eq_true, beq_iff_eq] at h
  exact h.2

variable [BEq ι]

/-- An element with a marker can be expanded, and lists nothing. -/
theorem mem_markers (h : x ∈ s.markers (s.visitAt revisits e r)) :
    e.expandable = true ∧ (∃ reason, x = s.marker e reason) ∧
      s.listed (s.visitAt revisits e r) = [] := by
  unfold markers at h
  split at h
  · next reason hmark =>
    refine ⟨?_, ⟨reason, List.mem_singleton.1 h⟩, ?_⟩
    · by_contra hexpandable
      unfold visitAt decide at hmark
      rw [if_neg hexpandable] at hmark
      cases hmark
    · refine List.eq_nil_iff_forall_not_mem.2 fun c hc => ?_
      rw [(s.mem_listed hc).1] at hmark
      cases hmark
  · cases h

theorem Placed.listed (placed : s.Placed root) (he : s.Reaches root e)
    (h : x ∈ s.listed (s.visitAt revisits e r)) : x.ancestors = e.path := by
  obtain ⟨-, cs, hcs, hx⟩ := s.mem_listed h
  exact placed.children e cs he (expandable_of_listed h) hcs x hx

/-- What a visit emits stands at the element or directly below it. -/
theorem Placed.output (placed : s.Placed root) (he : s.Reaches root e)
    (h : x ∈ s.output (s.visitAt revisits e r)) : x.path = e.path ∨ x.ancestors = e.path := by
  rcases List.mem_cons.1 h with rfl | h
  · exact .inl (path_reported _)
  · obtain ⟨hexpandable, ⟨reason, rfl⟩, -⟩ := mem_markers h
    exact .inr (placed.marker e reason he hexpandable)

theorem Placed.prefix_output (placed : s.Placed root) (he : s.Reaches root e)
    (h : x ∈ s.output (s.visitAt revisits e r)) : e.path <+: x.path := by
  rcases placed.output he h with hpath | hancestors
  · exact hpath ▸ List.prefix_refl _
  · exact hancestors ▸ x.ancestors_prefix_path

theorem Placed.output_nodup (placed : s.Placed root) (he : s.Reaches root e) :
    ((s.output (s.visitAt revisits e r)).map Element.path).Nodup := by
  unfold Source.output
  rw [List.map_cons, List.nodup_cons]
  refine ⟨fun hmem => ?_, ?_⟩
  · obtain ⟨x, hx, hpath⟩ := List.mem_map.1 hmem
    obtain ⟨hexpandable, ⟨reason, rfl⟩, -⟩ := mem_markers hx
    rw [path_reported] at hpath
    have hbelow : e.path <+: (s.marker e reason).ancestors := by
      rw [placed.marker e reason he hexpandable]
    exact Element.ne_path_of_prefix_ancestors hbelow hpath.symm
  · unfold markers
    split <;> simp

/-- What a visit emits does not stand below a child that it lists: with children there is no
marker, and the element stands above them. -/
theorem Placed.not_below_listed (placed : s.Placed root) (he : s.Reaches root e)
    (hx : x ∈ s.output (s.visitAt revisits e r)) {c : Element K α}
    (hc : c ∈ s.listed (s.visitAt revisits e r)) : ¬ c.path <+: x.path := by
  rcases List.mem_cons.1 hx with rfl | hx
  · rw [path_reported, c.path_eq, placed.listed he hc]
    exact concat_not_prefix_self _ _
  · rw [(mem_markers hx).2.2] at hc
    cases hc

/-! ## All visits -/

/-- All that is emitted lies at or below something that was pending. -/
theorem Trace.below_pending (trace : s.Trace revisits pending r log r') (placed : s.Placed root)
    (hpending : ∀ e ∈ pending, s.Reaches root e) :
    ∀ x ∈ log.flatMap s.output, ∃ e ∈ pending, e.path <+: x.path := by
  induction trace with
  | done r => simp
  | @visit e pending r r' log _ ih =>
    obtain ⟨he, hpending⟩ := List.forall_mem_cons.1 hpending
    intro x hx
    rw [List.flatMap_cons, List.mem_append] at hx
    rcases hx with hx | hx
    · exact ⟨e, List.mem_cons_self, placed.prefix_output he hx⟩
    · have hnext : ∀ c ∈ s.listed (s.visitAt revisits e r) ++ pending, s.Reaches root c :=
        List.forall_mem_append.2 ⟨fun c => reaches_listed he, hpending⟩
      obtain ⟨c, hc, hprefix⟩ := ih hnext x hx
      rcases List.mem_append.1 hc with hc | hc
      · refine ⟨e, List.mem_cons_self, List.IsPrefix.trans ?_ hprefix⟩
        exact placed.listed he hc ▸ c.ancestors_prefix_path
      · exact ⟨c, List.mem_cons_of_mem _ hc, hprefix⟩

/-- What comes next lies apart if what is pending does. -/
theorem apart_next (placed : s.Placed root) (differ : s.SiblingsDiffer root)
    (he : s.Reaches root e)
    (apart : (e :: pending).Pairwise fun p q => Apart p.path q.path) :
    (s.listed (s.visitAt revisits e r) ++ pending).Pairwise fun p q => Apart p.path q.path := by
  obtain ⟨hfirst, hrest⟩ := List.pairwise_cons.1 apart
  refine List.pairwise_append.2 ⟨?_, hrest, fun c hc q hq => ?_⟩
  · have hkeys : ((s.listed (s.visitAt revisits e r)).map Element.key).Nodup := by
      unfold Source.listed
      split
      · next cs hexpand hcs => exact differ e cs he (decide_eq_expand.1 hexpand).1 hcs
      · exact List.nodup_nil
    refine (List.pairwise_map.1 hkeys).imp_of_mem fun {c d} hc hd hne => ?_
    rw [c.path_eq, d.path_eq, placed.listed he hc, placed.listed he hd]
    exact apart_siblings _ hne
  · exact (hfirst q hq).mono (placed.listed he hc ▸ c.ancestors_prefix_path) (List.prefix_refl _)

/-- If what is pending lies apart, nothing is emitted twice at one path. -/
theorem Trace.paths_nodup (trace : s.Trace revisits pending r log r') (placed : s.Placed root)
    (differ : s.SiblingsDiffer root) (hpending : ∀ e ∈ pending, s.Reaches root e)
    (apart : pending.Pairwise fun p q => Apart p.path q.path) :
    ((log.flatMap s.output).map Element.path).Nodup := by
  induction trace with
  | done r => exact List.nodup_nil
  | @visit e pending r r' log rest ih =>
    obtain ⟨he, hpending⟩ := List.forall_mem_cons.1 hpending
    have hnext : ∀ c ∈ s.listed (s.visitAt revisits e r) ++ pending, s.Reaches root c :=
      List.forall_mem_append.2 ⟨fun c => reaches_listed he, hpending⟩
    have hrest := ih hnext (apart_next placed differ he apart)
    rw [List.flatMap_cons, List.map_append, List.nodup_append]
    refine ⟨placed.output_nodup he, hrest, ?_⟩
    intro p hp q hq heq
    obtain ⟨x, hx, rfl⟩ := List.mem_map.1 hp
    obtain ⟨y, hy, rfl⟩ := List.mem_map.1 hq
    obtain ⟨c, hc, hcy⟩ := rest.below_pending placed hnext y hy
    rcases List.mem_append.1 hc with hc | hc
    · exact placed.not_below_listed he hx hc (heq ▸ hcy)
    · have hec := (List.pairwise_cons.1 apart).1 c hc
      exact (hec.mono (placed.prefix_output he hx) hcy).ne heq

/-! ## Explorations -/

variable [LawfulBEq ι] (bounded : s.Bounded root) (limit : Nat)

include bounded

theorem explore_below_root (placed : s.Placed root) :
    ∀ x ∈ s.explore revisits limit root, root.path <+: x.path := by
  obtain ⟨log, r, trace, hexplore⟩ := explore_eq_output revisits bounded limit
  have hroot : ∀ e ∈ [root], s.Reaches root e := by simpa using .root
  rw [hexplore]
  intro x hx
  obtain ⟨e, he, hprefix⟩ := trace.below_pending placed hroot x hx
  rwa [List.mem_singleton.1 he] at hprefix

theorem explore_paths_nodup (placed : s.Placed root) (differ : s.SiblingsDiffer root) :
    ((s.explore revisits limit root).map Element.path).Nodup := by
  obtain ⟨log, r, trace, hexplore⟩ := explore_eq_output revisits bounded limit
  have hroot : ∀ e ∈ [root], s.Reaches root e := by simpa using .root
  rw [hexplore]
  exact trace.paths_nodup placed differ hroot (List.pairwise_singleton _ _)

/-- Each element has a branch directly above it, except for the root. -/
theorem explore_parentsListed (placed : s.Placed root) (hroot : root.ancestors = []) :
    ParentsListed (s.explore revisits limit root) := by
  obtain ⟨log, r, trace, hexplore⟩ := explore_eq_output revisits bounded limit
  rw [hexplore]
  intro x hx hne
  obtain ⟨v, hv, hx⟩ := List.mem_flatMap.1 hx
  have hparent : ∀ w ∈ log, x.ancestors = w.element.path → w.element.expandable = true →
      ∃ y ∈ log.flatMap s.output, y.path = x.ancestors ∧ y.kind = .branch := by
    intro w hw hancestors hexpandable
    refine ⟨s.reported w, List.mem_flatMap.2 ⟨w, hw, List.mem_cons_self⟩, ?_, ?_⟩
    · rw [path_reported, hancestors]
    · rw [kind_reported, branch_of_expandable hexpandable]
  obtain ⟨r₁, hvisit⟩ := trace.tour.visited_at v hv
  rcases List.mem_cons.1 hx with rfl | hx
  · have hancestors : (s.reported v).ancestors = v.element.ancestors :=
      congrArg Position.ancestors (position_reported v)
    rcases trace.tour.mem_visited_iff.1 ⟨v, hv, rfl⟩ with heq | ⟨w, hw, hlisted⟩
    · rw [hancestors, heq, hroot] at hne
      exact absurd rfl hne
    · obtain ⟨r₂, hvisit'⟩ := trace.tour.visited_at w hw
      rw [hvisit'] at hlisted
      refine hparent w hw ?_ (expandable_of_listed hlisted)
      rw [hancestors, placed.listed (trace.reaches hw) hlisted]
  · rw [hvisit] at hx
    obtain ⟨hexpandable, ⟨reason, rfl⟩, -⟩ := mem_markers hx
    exact hparent v hv (placed.marker _ reason (trace.reaches hv) hexpandable) hexpandable

theorem explore_shown (shown : s.Shown root) :
    ∀ x ∈ s.explore revisits limit root, x.shown = true := by
  obtain ⟨log, r, trace, hexplore⟩ := explore_eq_output revisits bounded limit
  rw [hexplore]
  intro x hx
  obtain ⟨v, hv, hx⟩ := List.mem_flatMap.1 hx
  obtain ⟨r₁, hvisit⟩ := trace.tour.visited_at v hv
  rcases List.mem_cons.1 hx with rfl | hx
  · rw [shown_reported]
    exact shown.element _ (trace.reaches hv)
  · rw [hvisit] at hx
    obtain ⟨hexpandable, ⟨reason, rfl⟩, -⟩ := mem_markers hx
    exact shown.marker _ reason (trace.reaches hv) hexpandable

omit bounded

/-! ## Several roots -/

theorem roots_paths_nodup {roots : List (Element K α)} (bounded : ∀ root ∈ roots, s.Bounded root)
    (placed : ∀ root ∈ roots, s.Placed root) (differ : ∀ root ∈ roots, s.SiblingsDiffer root)
    (apart : roots.Pairwise fun p q => Apart p.path q.path) :
    ((roots.flatMap (s.explore revisits limit)).map Element.path).Nodup := by
  rw [List.map_flatMap, List.nodup_flatMap]
  refine ⟨fun root hroot => ?_, apart.imp_of_mem fun {p q} hp hq hpq => ?_⟩
  · exact explore_paths_nodup (bounded root hroot) limit (placed root hroot) (differ root hroot)
  · intro path hpath hpath'
    obtain ⟨x, hx, rfl⟩ := List.mem_map.1 hpath
    obtain ⟨y, hy, hxy⟩ := List.mem_map.1 hpath'
    have hpx := explore_below_root (bounded p hp) limit (placed p hp) x hx
    have hqy := explore_below_root (bounded q hq) limit (placed q hq) y hy
    exact (hpq.mono hpx hqy).ne hxy.symm

end Source

end Hierarchy
