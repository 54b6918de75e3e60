import Hierarchy.Proofs.Exploration.Placement
import Hierarchy.Proofs.Exploration.Schedule

/-!
# Listings that fail

Two explorations of one tree differ where more listings fail in one of them.  They differ only
there: what lies below the failing elements is missing, these elements bear their failures, and all
else is emitted as before and in the same order (`explore_of_breaks`).

Without shared entities the record of an exploration never keeps anything from being expanded
(`TreeShaped.firstVisits`).  So what is visited is the tree itself, unfolded parents first
(`Source.Unfolds`), and a failing listing cuts off one subtree of it (`Unfolds.prune`).
-/

namespace Hierarchy

/-- The visit of an element whose entity was not met before. -/
def firstVisit {K α : Type} (e : Element K α) : Visit K α :=
  ⟨e, if e.expandable then .expand else .emit⟩

namespace Source

variable {K α ι : Type} (s : Source K α ι) (root : Element K α)

/-! ## Paths in a tree -/

/-- What is listed for an element stands directly below it. -/
def PlacesChildren : Prop :=
  ∀ e cs, s.Reaches root e → e.expandable = true → s.children e = .ok cs →
    ∀ c ∈ cs, c.ancestors = e.path

variable {s root} {e x y : Element K α} {es all : List (Element K α)}

theorem Reaches.root_prefix (places : s.PlacesChildren root) (he : s.Reaches root e) :
    root.path <+: e.path := by
  induction he with
  | root => exact List.prefix_refl _
  | @child e c cs he hexpandable hcs hc ih =>
    rw [← places e cs he hexpandable hcs c hc] at ih
    exact ih.trans c.ancestors_prefix_path

/-- Below its root nothing stands at the path of the root. -/
theorem Reaches.eq_root (places : s.PlacesChildren root) (he : s.Reaches root e)
    (hpath : e.path = root.path) : e = root := by
  cases he with
  | root => rfl
  | @child d _ cs hd hexpandable hcs hc =>
    have hbelow := hd.root_prefix places
    rw [← places d cs hd hexpandable hcs e hc] at hbelow
    exact absurd hpath.symm (Element.ne_path_of_prefix_ancestors hbelow)

/-- Where siblings have different keys, a path tells the element. -/
theorem Reaches.eq_of_path_eq (places : s.PlacesChildren root) (differ : s.SiblingsDiffer root)
    (hx : s.Reaches root x) (hy : s.Reaches root y) (hpath : x.path = y.path) : x = y := by
  induction hx generalizing y with
  | root => exact (hy.eq_root places hpath.symm).symm
  | @child d x cs hd hexpandable hcs hx ih =>
    cases hy with
    | root => exact (hd.child hexpandable hcs hx).eq_root places hpath
    | @child d' _ cs' hd' hexpandable' hcs' hy =>
      have hancestors := places d cs hd hexpandable hcs x hx
      have hancestors' := places d' cs' hd' hexpandable' hcs' y hy
      obtain ⟨habove, hkey⟩ := List.append_inj' hpath rfl
      obtain rfl : d = d' := ih hd' (hancestors.symm.trans (habove.trans hancestors'))
      obtain rfl : cs = cs' := Except.ok.inj (hcs.symm.trans hcs')
      have hkeys := differ d cs hd hexpandable hcs
      exact List.inj_on_of_nodup_map hkeys hx hy (List.singleton_inj.1 hkey)

/-! ## Unfolding -/

variable (s) in
/-- `s.Unfolds es all`: `all` are the elements of `es` and everything below them, each element
directly before what it lists.  Nothing is recorded on the way. -/
inductive Unfolds : List (Element K α) → List (Element K α) → Prop where
  | nil : Unfolds [] []
  | cons {e : Element K α} {es below after : List (Element K α)}
      (hbelow : Unfolds (s.listed (firstVisit e)) below) (hafter : Unfolds es after) :
      Unfolds (e :: es) (e :: (below ++ after))

theorem listed_firstVisit {c : Element K α} (h : c ∈ s.listed (firstVisit e)) :
    e.expandable = true ∧ ∃ cs, s.children e = .ok cs ∧ c ∈ cs := by
  obtain ⟨hexpand, hcs⟩ := s.mem_listed h
  refine ⟨?_, hcs⟩
  unfold firstVisit at hexpand
  split at hexpand
  · assumption
  · cases hexpand

theorem Reaches.listed (he : s.Reaches root e) :
    ∀ c ∈ s.listed (firstVisit e), s.Reaches root c := by
  intro c hc
  obtain ⟨hexpandable, cs, hcs, hmem⟩ := listed_firstVisit hc
  exact he.child hexpandable hcs hmem

theorem PlacesChildren.listed (places : s.PlacesChildren root) (he : s.Reaches root e) :
    ∀ c ∈ s.listed (firstVisit e), c.ancestors = e.path := by
  intro c hc
  obtain ⟨hexpandable, cs, hcs, hmem⟩ := listed_firstVisit hc
  exact places e cs he hexpandable hcs c hmem

theorem Unfolds.unique {all' : List (Element K α)} (h : s.Unfolds es all)
    (h' : s.Unfolds es all') : all = all' := by
  induction h generalizing all' with
  | nil =>
    cases h'
    rfl
  | cons _ _ ihBelow ihAfter =>
    cases h' with
    | cons hbelow hafter => rw [ihBelow hbelow, ihAfter hafter]

theorem Unfolds.split {es' : List (Element K α)} (h : s.Unfolds (es ++ es') all) :
    ∃ first last, all = first ++ last ∧ s.Unfolds es first ∧ s.Unfolds es' last := by
  induction es generalizing all with
  | nil => exact ⟨[], all, rfl, .nil, h⟩
  | cons e es ih =>
    cases h with
    | @cons _ _ below after hbelow hafter =>
      obtain ⟨first, last, rfl, hfirst, hlast⟩ := ih hafter
      exact ⟨e :: (below ++ first), last, by simp, .cons hbelow hfirst, hlast⟩

theorem Unfolds.reaches (h : s.Unfolds es all) (hes : ∀ e ∈ es, s.Reaches root e) :
    ∀ x ∈ all, s.Reaches root x := by
  induction h with
  | nil => exact hes
  | cons _ _ ihBelow ihAfter =>
    obtain ⟨he, hes⟩ := List.forall_mem_cons.1 hes
    exact List.forall_mem_cons.2 ⟨he, List.forall_mem_append.2 ⟨ihBelow he.listed, ihAfter hes⟩⟩

/-- All that unfolds lies at or below what it unfolds from. -/
theorem Unfolds.at_or_below (h : s.Unfolds es all) (places : s.PlacesChildren root)
    (hes : ∀ e ∈ es, s.Reaches root e) : ∀ x ∈ all, ∃ e ∈ es, e.path <+: x.path := by
  induction h with
  | nil => simp
  | @cons e es below after _ _ ihBelow ihAfter =>
    obtain ⟨he, hes⟩ := List.forall_mem_cons.1 hes
    refine List.forall_mem_cons.2 ⟨⟨e, List.mem_cons_self, List.prefix_refl _⟩,
      List.forall_mem_append.2 ⟨fun x hx => ?_, fun x hx => ?_⟩⟩
    · obtain ⟨c, hc, hcx⟩ := ihBelow he.listed x hx
      refine ⟨e, List.mem_cons_self, List.IsPrefix.trans ?_ hcx⟩
      exact places.listed he c hc ▸ c.ancestors_prefix_path
    · obtain ⟨d, hd, hdx⟩ := ihAfter hes x hx
      exact ⟨d, List.mem_cons_of_mem _ hd, hdx⟩

/-- What unfolds from the children of an element lies strictly below it. -/
theorem Unfolds.strictly_below (h : s.Unfolds (s.listed (firstVisit e)) all)
    (places : s.PlacesChildren root) (he : s.Reaches root e) :
    ∀ x ∈ all, e.path <+: x.ancestors := by
  intro x hx
  obtain ⟨c, hc, hcx⟩ := h.at_or_below places he.listed x hx
  exact places.listed he c hc ▸ Element.ancestors_prefix_of_path_prefix hcx

/-! ## Explorations of trees -/

section Trees

variable [BEq ι] {revisits : Revisits} {pending : List (Element K α)} {r r' : VisitRecord ι}
  {log : List (Visit K α)}

omit [BEq ι] in
theorem output_firstVisit (e : Element K α) :
    s.output (firstVisit e) = [s.reported (firstVisit e)] := by
  unfold output markers firstVisit
  cases e.expandable <;> rfl

/-- A trace on which everything is met for the first time unfolds what is pending. -/
theorem Trace.unfolds (trace : s.Trace revisits pending r log r')
    (hfirst : ∀ v ∈ log, v = firstVisit v.element) :
    s.Unfolds pending (log.map Visit.element) := by
  induction trace with
  | done r => exact .nil
  | @visit e pending r r' log _ ih =>
    obtain ⟨hvisit, hfirst⟩ := List.forall_mem_cons.1 hfirst
    have hrest := ih hfirst
    rw [hvisit] at hrest
    obtain ⟨below, after, hlog, hbelow, hafter⟩ := hrest.split
    rw [List.map_cons, hlog]
    exact .cons hbelow hafter

variable [LawfulBEq ι]

/-- No element is visited twice: each is listed by the one element above it, which is expanded
once, and bears a key that its siblings do not bear. -/
theorem TreeShaped.visited_nodup (tree : s.TreeShaped root) (differ : s.SiblingsDiffer root)
    (tour : s.Tour revisits root log 0 r) : (log.map Visit.element).Nodup := by
  have hchain : ∀ v ∈ log, ∀ c ∈ s.listed v, ∃ as, s.Chain root (as ++ [v.element]) c := by
    intro v hv c hc
    obtain ⟨as, chain, -⟩ := tour.chain hv
    obtain ⟨hexpand, cs, hcs, hmem⟩ := s.mem_listed hc
    exact ⟨as, chain.child (tour.expandable_of_expand hv hexpand) hcs hmem⟩
  rw [tour.visited_perm.nodup_iff, List.nodup_cons, ← flatMap_listed_expanded, List.nodup_flatMap]
  refine ⟨fun hroot => ?_, fun v hv => ?_, ?_⟩
  · obtain ⟨v, hv, hroot⟩ := List.mem_flatMap.1 hroot
    obtain ⟨as, chain⟩ := hchain v (List.mem_filter.1 hv).1 root hroot
    exact List.concat_ne_nil _ _ (tree.unique _ _ _ _ chain .root rfl).1
  · have hv := (List.mem_filter.1 hv).1
    unfold Source.listed
    split
    · next cs hexpand hcs =>
      exact .of_map _ (differ _ cs (tour.reaches hv) (tour.expandable_of_expand hv hexpand) hcs)
    · exact List.nodup_nil
  · refine (List.pairwise_map.1 tour.nodup_expandedIds).imp_of_mem fun {v w} hv hw hid => ?_
    intro c hc hc'
    obtain ⟨as, chain⟩ := hchain v (List.mem_filter.1 hv).1 c hc
    obtain ⟨as', chain'⟩ := hchain w (List.mem_filter.1 hw).1 c hc'
    obtain ⟨-, heq⟩ := List.append_inj' (tree.unique _ _ _ _ chain chain' rfl).1 rfl
    exact hid (congrArg s.id (List.singleton_inj.1 heq))

/-- In a tree every visit is a first visit. -/
theorem TreeShaped.firstVisits (tree : s.TreeShaped root) (differ : s.SiblingsDiffer root)
    (tour : s.Tour revisits root log 0 r) : ∀ v ∈ log, v = firstVisit v.element := by
  intro v hv
  obtain ⟨r', hvisit⟩ := tour.visited_at v hv
  by_cases hexpandable : v.element.expandable = true
  · obtain ⟨w, hw, hexpand, hid⟩ := mem_expandedIds.1 (tour.expands tree.consistent hv hexpandable)
    have helement := tree.element_unique _ _ (tour.reaches hw) (tour.reaches hv) hid
    obtain rfl : w = v :=
      List.inj_on_of_nodup_map (tree.visited_nodup differ tour) hw hv helement
    obtain ⟨e, d⟩ := w
    simp_all [firstVisit]
  · rw [hvisit]
    unfold visitAt firstVisit decide
    rw [if_neg hexpandable, if_neg hexpandable]

/-- The exploration of a tree emits the tree unfolded, with the failed listings recorded. -/
theorem explore_tree (bounded : s.Bounded root) (tree : s.TreeShaped root)
    (differ : s.SiblingsDiffer root) (revisits : Revisits) (limit : Nat) :
    ∃ all, s.Unfolds [root] all ∧
      s.explore revisits limit root = all.map fun e => s.reported (firstVisit e) := by
  obtain ⟨log, r, trace, hexplore⟩ := explore_eq_output revisits bounded limit
  have hfirst := tree.firstVisits differ trace.tour
  refine ⟨log.map Visit.element, trace.unfolds hfirst, ?_⟩
  rw [hexplore, List.map_eq_flatMap, List.flatMap_map]
  apply List.flatMap_congr
  intro v hv
  rw [hfirst v hv]
  exact output_firstVisit _

end Trees

/-! ## Two sources -/

/-- The second source is the first one, except that it cannot list the elements of `broken`. -/
structure Breaks (s s' : Source K α ι) (broken : Element K α → Prop) : Prop where
  id : ∀ e, s'.id e = s.id e
  marker : ∀ e reason, s'.marker e reason = s.marker e reason
  onCycle : ∀ e, s'.onCycle e = s.onCycle e
  bound : s.bound ≤ s'.bound
  children : ∀ e, ¬ broken e → s'.children e = s.children e
  expandable : ∀ e, broken e → e.expandable = true
  fails : ∀ e, broken e → ∃ cause, s'.children e = .error cause

variable {s' : Source K α ι} {broken : Element K α → Prop}

theorem Breaks.children_ok (breaks : s.Breaks s' broken) {cs : List (Element K α)}
    (h : s'.children e = .ok cs) : ¬ broken e ∧ s.children e = .ok cs := by
  have hwhole : ¬ broken e := by
    intro hbroken
    obtain ⟨cause, hcause⟩ := breaks.fails e hbroken
    rw [h] at hcause
    cases hcause
  exact ⟨hwhole, breaks.children e hwhole ▸ h⟩

theorem Breaks.reaches (breaks : s.Breaks s' broken) (he : s'.Reaches root e) :
    s.Reaches root e := by
  induction he with
  | root => exact .root
  | child _ hexpandable hcs hc ih => exact ih.child hexpandable (breaks.children_ok hcs).2 hc

theorem Breaks.chain (breaks : s.Breaks s' broken) {as : List (Element K α)}
    (chain : s'.Chain root as e) : s.Chain root as e := by
  induction chain with
  | root => exact .root
  | child _ hexpandable hcs hc ih => exact ih.child hexpandable (breaks.children_ok hcs).2 hc

theorem Breaks.bounded (breaks : s.Breaks s' broken) (bounded : s.Bounded root) :
    s'.Bounded root := by
  obtain ⟨ids, hbound, hids⟩ := bounded
  refine ⟨ids, hbound.trans breaks.bound, fun e cs he hexpandable hcs => ?_⟩
  rw [breaks.id]
  exact hids e cs (breaks.reaches he) hexpandable (breaks.children_ok hcs).2

theorem Breaks.treeShaped (breaks : s.Breaks s' broken) (tree : s.TreeShaped root) :
    s'.TreeShaped root where
  acyclic e he := (breaks.onCycle e).trans (tree.acyclic e (breaks.reaches he))
  unique as e as' e' chain chain' hid := by
    rw [breaks.id, breaks.id] at hid
    exact tree.unique as e as' e' (breaks.chain chain) (breaks.chain chain') hid

theorem Breaks.siblingsDiffer (breaks : s.Breaks s' broken) (differ : s.SiblingsDiffer root) :
    s'.SiblingsDiffer root := fun e cs he hexpandable hcs =>
  differ e cs (breaks.reaches he) hexpandable (breaks.children_ok hcs).2

theorem Breaks.listed_broken (breaks : s.Breaks s' broken) (h : broken e) :
    s'.listed (firstVisit e) = [] := by
  obtain ⟨cause, hcause⟩ := breaks.fails e h
  exact listed_eq_nil hcause

theorem Breaks.listed_whole (breaks : s.Breaks s' broken) (h : ¬ broken e) :
    s'.listed (firstVisit e) = s.listed (firstVisit e) := by
  have hcs : s'.children (firstVisit e).element = s.children (firstVisit e).element :=
    breaks.children e h
  unfold listed
  rw [hcs]

theorem Breaks.reported_broken (breaks : s.Breaks s' broken) (h : broken e) {cause : Failure}
    (hcause : s'.children e = .error cause) : s'.reported (firstVisit e) = e.fail cause := by
  have hcause : s'.children (firstVisit e).element = .error cause := hcause
  have hexpand : (firstVisit e).decision = .expand := if_pos (breaks.expandable e h)
  unfold reported
  rw [hexpand, hcause]
  rfl

theorem Breaks.reported_whole (breaks : s.Breaks s' broken) (h : ¬ broken e) :
    s'.reported (firstVisit e) = s.reported (firstVisit e) := by
  have hcs : s'.children (firstVisit e).element = s.children (firstVisit e).element :=
    breaks.children e h
  unfold reported
  rw [hcs]

/-! ## What is cut off -/

variable (s root broken) in
/-- An element of `broken` stands above the element. -/
def CutOff (x : Element K α) : Prop :=
  ∃ b, s.Reaches root b ∧ broken b ∧ b.path <+: x.ancestors

theorem CutOff.child (places : s.PlacesChildren root) (differ : s.SiblingsDiffer root)
    (he : s.Reaches root e) (hwhole : ¬ broken e) (hkept : ¬ s.CutOff root broken e)
    (hx : x.ancestors = e.path) : ¬ s.CutOff root broken x := by
  rintro ⟨b, hb, hbroken, hpath⟩
  rw [hx, Element.prefix_path_iff] at hpath
  rcases hpath with hpath | hpath
  · exact hkept ⟨b, hb, hbroken, hpath⟩
  · exact hwhole (hb.eq_of_path_eq places differ he hpath ▸ hbroken)

open Classical in
/-- The second source unfolds to what the first one unfolds to and is not cut off. -/
theorem Unfolds.prune (breaks : s.Breaks s' broken) (places : s.PlacesChildren root)
    (differ : s.SiblingsDiffer root) (h : s.Unfolds es all)
    (hes : ∀ e ∈ es, s.Reaches root e ∧ ¬ s.CutOff root broken e) :
    s'.Unfolds es (all.filter fun x => ¬ s.CutOff root broken x) := by
  induction h with
  | nil => exact .nil
  | @cons e es below after hbelow _ ihBelow ihAfter =>
    obtain ⟨⟨he, hkept⟩, hes⟩ := List.forall_mem_cons.1 hes
    rw [List.filter_cons_of_pos (by simpa using hkept), List.filter_append]
    refine .cons ?_ (ihAfter hes)
    by_cases hbroken : broken e
    · have hnone : below.filter (fun x => ¬ s.CutOff root broken x) = [] := by
        rw [List.filter_eq_nil_iff]
        intro x hx
        simpa using ⟨e, he, hbroken, hbelow.strictly_below places he x hx⟩
      rw [hnone, breaks.listed_broken hbroken]
      exact .nil
    · rw [breaks.listed_whole hbroken]
      refine ihBelow fun c hc => ⟨he.listed c hc, ?_⟩
      exact CutOff.child places differ he hbroken hkept (places.listed he c hc)

variable (s root s' broken) in
/-- `y` is what becomes of the emitted element `x` where the listings of `broken` fail. -/
inductive Bears (x : Element K α) : Element K α → Prop where
  | unchanged (h : ∀ b, s.Reaches root b → broken b → b.path ≠ x.path) : Bears x x
  | failed {b : Element K α} {cause : Failure} (hb : s.Reaches root b) (hbroken : broken b)
      (hpath : b.path = x.path) (hcause : s'.children b = .error cause) : Bears x (x.fail cause)

theorem Breaks.bears (breaks : s.Breaks s' broken) (places : s.PlacesChildren root)
    (differ : s.SiblingsDiffer root) (he : s.Reaches root e) :
    s.Bears root s' broken (s.reported (firstVisit e)) (s'.reported (firstVisit e)) := by
  by_cases hbroken : broken e
  · obtain ⟨cause, hcause⟩ := breaks.fails e hbroken
    have hfail : s'.reported (firstVisit e) = (s.reported (firstVisit e)).fail cause := by
      rw [breaks.reported_broken hbroken hcause]
      unfold reported
      split <;> rfl
    have hpath : (s.reported (firstVisit e)).path = e.path := path_reported _
    rw [hfail]
    exact .failed he hbroken hpath.symm hcause
  · rw [breaks.reported_whole hbroken]
    refine .unchanged fun b hb hb' hpath => hbroken ?_
    rw [path_reported] at hpath
    exact hb.eq_of_path_eq places differ he hpath ▸ hb'

variable [BEq ι] [LawfulBEq ι]

open Classical in
/-- Where the listings of `broken` fail, an exploration emits what it would emit otherwise without
the elements below `broken`, in the same order; those of `broken` that are left bear their failure,
and the others are the same. -/
theorem explore_of_breaks (bounded : s.Bounded root) (tree : s.TreeShaped root)
    (places : s.PlacesChildren root) (differ : s.SiblingsDiffer root)
    (breaks : s.Breaks s' broken) (revisits : Revisits) (limit : Nat) :
    List.Forall₂ (s.Bears root s' broken)
      ((s.explore revisits limit root).filter fun x => ¬ s.CutOff root broken x)
      (s'.explore revisits limit root) := by
  obtain ⟨all, unfolds, hexplore⟩ := explore_tree bounded tree differ revisits limit
  obtain ⟨all', unfolds', hexplore'⟩ := explore_tree (breaks.bounded bounded)
    (breaks.treeShaped tree) (breaks.siblingsDiffer differ) revisits limit
  have hroot : ∀ e ∈ [root], s.Reaches root e := by simpa using .root
  have hkept : ¬ s.CutOff root broken root := by
    rintro ⟨b, hb, -, hpath⟩
    exact Element.ne_path_of_prefix_ancestors ((hb.root_prefix places).trans hpath) rfl
  obtain rfl := (unfolds.prune breaks places differ (by simpa using ⟨.root, hkept⟩)).unique unfolds'
  have hcutOff : ∀ e,
      s.CutOff root broken (s.reported (firstVisit e)) ↔ s.CutOff root broken e := by
    intro e
    have hancestors : (s.reported (firstVisit e)).ancestors = e.ancestors :=
      congrArg Position.ancestors (position_reported _)
    unfold CutOff
    rw [hancestors]
  rw [hexplore, hexplore', List.filter_map, List.forall₂_map_left_iff, List.forall₂_map_right_iff]
  simp only [Function.comp_def, hcutOff]
  refine List.forall₂_same.2 fun e he => ?_
  exact breaks.bears places differ (unfolds.reaches hroot e (List.mem_filter.1 he).1)

/-! ## A tree that withers -/

/-- The limbs `x` and `y` of `arbor`. -/
def Withered (e : Element Char Unit) : Prop := e.expandable = true ∧ (e.key = 'x' ∨ e.key = 'y')

instance (e : Element Char Unit) : Decidable (Withered e) := inferInstanceAs (Decidable (_ ∧ _))

/-- `arbor` with two limbs that cannot be listed; of `y` this was known. -/
def witheredArbor : Source Char Unit (List Char) :=
  { arbor with
    children := fun e => if Withered e then .error (.listing "" "withered") else arbor.children e }

theorem arbor_placesChildren : arbor.PlacesChildren trunk := by
  intro e cs _ _ hcs c hc
  unfold arbor at hcs
  dsimp only at hcs
  cases hlimbs : limbs e.key with
  | error cause =>
    rw [hlimbs] at hcs
    cases hcs
  | ok keys =>
    rw [hlimbs] at hcs
    cases hcs
    obtain ⟨k, -, rfl⟩ := List.mem_map.1 hc
    rfl

theorem arbor_siblingsDiffer : arbor.SiblingsDiffer trunk := by
  have hkeys : ∀ c ∈ arborChains,
      (((arbor.children c.2).toOption.getD []).map Element.key).Nodup := by decide
  intro e cs he _ hcs
  obtain ⟨as, chain⟩ := he.chain
  have h := hkeys (as, e) (arbor_chain chain)
  rwa [hcs] at h

theorem arbor_breaks : arbor.Breaks witheredArbor Withered where
  id _ := rfl
  marker _ _ := rfl
  onCycle _ := rfl
  bound := Nat.le_refl _
  children _ h := if_neg h
  expandable _ h := h.1
  fails _ h := ⟨_, if_pos h⟩

open Classical in
theorem arbor_withers :
    arbor.Bounded trunk ∧ arbor.TreeShaped trunk ∧ arbor.PlacesChildren trunk ∧
      arbor.SiblingsDiffer trunk ∧ arbor.Breaks witheredArbor Withered ∧
      List.Forall₂ (arbor.Bears trunk witheredArbor Withered)
        ((arbor.explore .marked 1 trunk).filter fun x => ¬ arbor.CutOff trunk Withered x)
        (witheredArbor.explore .marked 1 trunk) ∧
      ((arbor.explore .marked 1 trunk).map fun x => (x.path, x.failureText)) =
        [(['r'], ""), (['r', 'x'], ""), (['r', 'x', 'z'], ""), (['r', 'y'], "y: closed"),
          (['r', 'z'], "")] ∧
      ((witheredArbor.explore .marked 1 trunk).map fun x => (x.path, x.failureText)) =
        [(['r'], ""), (['r', 'x'], ": withered"), (['r', 'y'], ": withered"), (['r', 'z'], "")] :=
  ⟨arbor_bounded, arbor_treeShaped, arbor_placesChildren, arbor_siblingsDiffer, arbor_breaks,
    explore_of_breaks arbor_bounded arbor_treeShaped arbor_placesChildren arbor_siblingsDiffer
      arbor_breaks .marked 1, by decide, by decide⟩

end Source

end Hierarchy
