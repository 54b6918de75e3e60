import Hierarchy.Proofs.Exploration.Placement
import Hierarchy.Proofs.InPreorder

/-!
# Explorations are pre-orders

A source that puts children and markers directly below their element is explored in pre-order.
Each element but the root has its parent before it, with only what lies below the parent in between
(`FollowsParent`): while something below an element is pending, nothing else is visited.  And what
follows an expanded element begins with all that lies below it; directly below stand its children,
in the order of the listing (`directlyBelow`), since their own subtrees lie deeper.

Siblings may bear equal keys, so a path does not tell an element.  The proofs count levels instead:
pending elements stand on fewer and fewer levels, and what a visit lists stands one level deeper.
-/

namespace Hierarchy

section Lists

variable {K α : Type} [DecidableEq K]

/-- What a list begins with that lies below `path`, and of this what lies directly below it. -/
def directlyBelow (path : List K) (l : List (Element K α)) : List (Element K α) :=
  (l.takeWhile (path.isPrefixOf ·.ancestors)).filter (·.ancestors = path)

theorem directlyBelow_append {path : List K} {l l' : List (Element K α)}
    (hbelow : ∀ x ∈ l, path <+: x.ancestors) (hbehind : ∀ x ∈ l'.head?, ¬ path <+: x.ancestors) :
    directlyBelow path (l ++ l') = l.filter (·.ancestors.length = path.length) := by
  have hrun : (l ++ l').takeWhile (path.isPrefixOf ·.ancestors) = l := by
    rw [List.takeWhile_append_of_pos fun x hx => List.isPrefixOf_iff_prefix.2 (hbelow x hx)]
    cases l' with
    | nil => simp
    | cons y l' =>
      rw [List.takeWhile_cons_of_neg (by simpa using hbehind y rfl), List.append_nil]
  unfold directlyBelow
  rw [hrun]
  refine List.filter_congr fun x hx => ?_
  rw [decide_eq_decide]
  constructor
  · intro h
    rw [h]
  · intro h
    exact ((hbelow x hx).eq_of_length h.symm).symm

end Lists

namespace Source

variable {K α ι : Type} (s : Source K α ι)

/-- `x` is `e` as it is emitted: unchanged, or with the failure of its listing recorded. -/
def Shows (e x : Element K α) : Prop :=
  x = e ∨ ∃ cause, s.children e = .error cause ∧ x = e.fail cause

theorem shows_reported (v : Visit K α) : s.Shows v.element (s.reported v) := by
  unfold reported
  split
  · next cause _ hcs => exact .inr ⟨cause, hcs, rfl⟩
  · exact .inl rfl

variable {s} {revisits : Revisits} {root : Element K α} {pending : List (Element K α)}
  {log : List (Visit K α)}

theorem Shows.position {e x : Element K α} (h : s.Shows e x) : x.position = e.position := by
  rcases h with rfl | ⟨cause, -, rfl⟩
  · rfl
  · exact e.position_fail cause

theorem Shows.ancestors {e x : Element K α} (h : s.Shows e x) : x.ancestors = e.ancestors :=
  congrArg Position.ancestors h.position

variable [BEq ι] {e : Element K α} {r r' : VisitRecord ι}

/-! ## Parents -/

omit [BEq ι] in
theorem length_markers_le (v : Visit K α) : (s.markers v).length ≤ 1 := by
  unfold markers
  split <;> simp

omit [BEq ι] in
/-- A visit emits the element and, perhaps, a marker directly behind it. -/
theorem output_split {v : Visit K α} {before after : List (Element K α)} {x : Element K α}
    (h : s.output v = before ++ x :: after) :
    (before = [] ∧ x = s.reported v) ∨ (before = [s.reported v] ∧ x ∈ s.markers v) := by
  cases before with
  | nil => exact .inl ⟨rfl, (List.cons_eq_cons.1 h).1.symm⟩
  | cons y before =>
    have hreported : s.reported v = y := (List.cons_eq_cons.1 h).1
    have hmarkers : s.markers v = before ++ x :: after := (List.cons_eq_cons.1 h).2
    have hlength := s.length_markers_le v
    rw [hmarkers, List.length_append, List.length_cons] at hlength
    obtain rfl : before = [] := List.eq_nil_of_length_eq_zero (by omega)
    exact .inr ⟨by rw [hreported], by simp [hmarkers]⟩

/-- A marker follows its element. -/
theorem Placed.marker_follows (placed : s.Placed root) (he : s.Reaches root e) {x : Element K α}
    (hx : x ∈ s.markers (s.visitAt revisits e r)) :
    FollowsParent [s.reported (s.visitAt revisits e r)] x := by
  obtain ⟨hexpandable, ⟨reason, rfl⟩, -⟩ := mem_markers hx
  refine ⟨[], _, [], rfl, ?_, by simp⟩
  rw [path_reported, placed.marker e reason he hexpandable]
  rfl

/-- A child follows the element that lists it, behind what lies at or below the earlier children. -/
theorem Placed.child_follows (placed : s.Placed root) (he : s.Reaches root e)
    {first last before : List (Element K α)} {c x : Element K α}
    (hlisted : s.listed (s.visitAt revisits e r) = first ++ c :: last) (hshows : s.Shows c x)
    (hbefore : ∀ y ∈ before, ∃ d ∈ first, d.path <+: y.path) :
    FollowsParent (s.output (s.visitAt revisits e r) ++ before) x := by
  have hchild : ∀ d ∈ first ++ c :: last, d.ancestors = e.path := fun d hd =>
    placed.listed he (hlisted ▸ hd)
  refine ⟨[], s.reported (s.visitAt revisits e r), s.markers (s.visitAt revisits e r) ++ before,
    rfl, ?_, fun y hy => ?_⟩
  · rw [hshows.ancestors, hchild c (by simp), path_reported]
    rfl
  · rw [path_reported]
    rcases List.mem_append.1 hy with hy | hy
    · obtain ⟨hexpandable, ⟨reason, rfl⟩, -⟩ := mem_markers hy
      rw [placed.marker e reason he hexpandable]
      exact List.prefix_refl _
    · obtain ⟨d, hd, hdy⟩ := hbefore y hy
      have hbelow := Element.ancestors_prefix_of_path_prefix hdy
      rwa [hchild d (List.mem_append_left _ hd)] at hbelow

/-- What is emitted shows something pending, with only what lies at or below earlier pending
elements before it, or follows its parent. -/
theorem Trace.shows_or_follows (trace : s.Trace revisits pending r log r') (placed : s.Placed root)
    (hpending : ∀ e ∈ pending, s.Reaches root e) {before after : List (Element K α)}
    {x : Element K α} (hout : log.flatMap s.output = before ++ x :: after) :
    (∃ first e last, pending = first ++ e :: last ∧ s.Shows e x ∧
      ∀ y ∈ before, ∃ d ∈ first, d.path <+: y.path) ∨ FollowsParent before x := by
  induction trace generalizing before with
  | done r => simp at hout
  | @visit e pending r r' log _ ih =>
    obtain ⟨he, hpending⟩ := List.forall_mem_cons.1 hpending
    have hnext : ∀ c ∈ s.listed (s.visitAt revisits e r) ++ pending, s.Reaches root c :=
      List.forall_mem_append.2 ⟨fun c => reaches_listed he, hpending⟩
    rw [List.flatMap_cons] at hout
    rcases append_eq_append_cons hout with ⟨own, hown⟩ | ⟨before, rfl, hbehind⟩
    · rcases output_split hown with ⟨rfl, rfl⟩ | ⟨rfl, hx⟩
      · exact .inl ⟨[], e, pending, rfl, s.shows_reported _, by simp⟩
      · exact .inr (placed.marker_follows he hx)
    rcases ih hnext hbehind with ⟨first, c, last, hsplit, hshows, hbefore⟩ | hfollows
    · rcases append_eq_append_cons hsplit with ⟨children, hlisted⟩ | ⟨first, rfl, rfl⟩
      · exact .inr (placed.child_follows he hlisted hshows hbefore)
      · -- below `e` lies what it emits, and what its children bring
        refine .inl ⟨e :: first, c, last, rfl, hshows, List.forall_mem_append.2 ⟨?_, ?_⟩⟩
        · intro y hy
          exact ⟨e, List.mem_cons_self, placed.prefix_output he hy⟩
        · intro y hy
          obtain ⟨d, hd, hdy⟩ := hbefore y hy
          rcases List.mem_append.1 hd with hd | hd
          · refine ⟨e, List.mem_cons_self, List.IsPrefix.trans ?_ hdy⟩
            exact placed.listed he hd ▸ d.ancestors_prefix_path
          · exact ⟨d, List.mem_cons_of_mem _ hd, hdy⟩
    · exact .inr (hfollows.append_left _)

/-! ## Children -/

/-- On the uppermost level on which something is pending, exactly that is emitted, in order. -/
theorem Trace.shows_level (trace : s.Trace revisits pending r log r') (placed : s.Placed root)
    (hpending : ∀ e ∈ pending, s.Reaches root e) {n : Nat}
    (hlevel : ∀ e ∈ pending, n ≤ e.ancestors.length) :
    List.Forall₂ s.Shows (pending.filter (·.ancestors.length = n))
      ((log.flatMap s.output).filter (·.ancestors.length = n)) := by
  induction trace with
  | done r => exact .nil
  | @visit e pending r r' log _ ih =>
    obtain ⟨he, hpending⟩ := List.forall_mem_cons.1 hpending
    obtain ⟨hn, hlevel⟩ := List.forall_mem_cons.1 hlevel
    have hnext : ∀ c ∈ s.listed (s.visitAt revisits e r) ++ pending, s.Reaches root c :=
      List.forall_mem_append.2 ⟨fun c => reaches_listed he, hpending⟩
    have hdeeper : ∀ c : Element K α, c.ancestors = e.path → ¬ c.ancestors.length = n := by
      intro c hc
      rw [hc, e.path_eq, List.length_append, List.length_singleton]
      omega
    have hlisted : (s.listed (s.visitAt revisits e r)).filter (·.ancestors.length = n) = [] := by
      rw [List.filter_eq_nil_iff]
      intro c hc
      simpa using hdeeper c (placed.listed he hc)
    have hmarkers : (s.markers (s.visitAt revisits e r)).filter (·.ancestors.length = n) = [] := by
      rw [List.filter_eq_nil_iff]
      intro x hx
      obtain ⟨hexpandable, ⟨reason, rfl⟩, -⟩ := mem_markers hx
      simpa using hdeeper _ (placed.marker e reason he hexpandable)
    have hlevels : ∀ c ∈ s.listed (s.visitAt revisits e r) ++ pending, n ≤ c.ancestors.length := by
      refine List.forall_mem_append.2 ⟨fun c hc => ?_, hlevel⟩
      rw [placed.listed he hc, e.path_eq, List.length_append]
      omega
    have hrest := ih hnext hlevels
    rw [List.filter_append, hlisted, List.nil_append] at hrest
    have hshows : s.Shows e (s.reported (s.visitAt revisits e r)) := s.shows_reported _
    have hself : List.Forall₂ s.Shows ([e].filter (·.ancestors.length = n))
        ([s.reported (s.visitAt revisits e r)].filter (·.ancestors.length = n)) := by
      by_cases h : e.ancestors.length = n
      · simpa [hshows.ancestors, h] using hshows
      · simp [hshows.ancestors, h]
    have hout : (s.output (s.visitAt revisits e r)).filter (·.ancestors.length = n) =
        [s.reported (s.visitAt revisits e r)].filter (·.ancestors.length = n) := by
      rw [output, ← List.singleton_append, List.filter_append, hmarkers, List.append_nil]
    rw [← List.singleton_append, List.filter_append, List.flatMap_cons, List.filter_append, hout]
    exact List.rel_append hself hrest

/-- What is emitted first shows something pending. -/
theorem Trace.shows_first (trace : s.Trace revisits pending r log r') :
    ∀ x ∈ (log.flatMap s.output).head?, ∃ e ∈ pending, s.Shows e x := by
  cases trace with
  | done r => simp
  | @visit e pending r r' log _ =>
    intro x hx
    obtain rfl : s.reported (s.visitAt revisits e r) = x := Option.some.inj hx
    exact ⟨e, List.mem_cons_self, s.shows_reported _⟩

variable [DecidableEq K]

/-- Where something is expanded, what follows begins with all that lies below it. -/
theorem Trace.shows_children (trace : s.Trace revisits pending r log r') (placed : s.Placed root)
    (hpending : ∀ e ∈ pending, s.Reaches root e)
    (hlevels : pending.Pairwise fun d e => e.ancestors.length ≤ d.ancestors.length)
    {earlier later : List (Visit K α)} {v : Visit K α} {cs : List (Element K α)}
    (hlog : log = earlier ++ v :: later) (hexpand : v.decision = .expand)
    (hcs : s.children v.element = .ok cs) :
    List.Forall₂ s.Shows cs (directlyBelow v.element.path (later.flatMap s.output)) := by
  induction trace generalizing earlier with
  | done r => simp at hlog
  | @visit e pending r r' log rest ih =>
    obtain ⟨he, hpending⟩ := List.forall_mem_cons.1 hpending
    obtain ⟨hfirst, hlevels⟩ := List.pairwise_cons.1 hlevels
    have hnext : ∀ c ∈ s.listed (s.visitAt revisits e r) ++ pending, s.Reaches root c :=
      List.forall_mem_append.2 ⟨fun c => reaches_listed he, hpending⟩
    cases earlier with
    | cons u earlier =>
      refine ih hnext (List.pairwise_append.2 ⟨?_, hlevels, ?_⟩) (List.cons_eq_cons.1 hlog).2
      · refine List.pairwise_of_forall_mem_list fun c hc d hd => ?_
        rw [placed.listed he hc, placed.listed he hd]
      · intro c hc d hd
        rw [placed.listed he hc, e.path_eq, List.length_append]
        exact Nat.le_add_right_of_le (hfirst d hd)
    | nil =>
      obtain ⟨rfl, rfl⟩ := List.cons_eq_cons.1 hlog
      obtain ⟨log₁, log₂, r₁, rfl, children, others⟩ := rest.split
      rw [s.listed_eq hexpand hcs] at children hnext
      have hcs' : ∀ c ∈ cs, s.Reaches root c ∧ c.ancestors = e.path := fun c hc =>
        ⟨hnext c (List.mem_append_left _ hc),
          placed.listed he (by rwa [s.listed_eq hexpand hcs])⟩
      have hbelow : ∀ x ∈ log₁.flatMap s.output, e.path <+: x.ancestors := by
        intro x hx
        obtain ⟨c, hc, hcx⟩ := children.below_pending placed (fun c hc => (hcs' c hc).1) x hx
        exact (hcs' c hc).2 ▸ Element.ancestors_prefix_of_path_prefix hcx
      have hbehind : ∀ x ∈ (log₂.flatMap s.output).head?, ¬ e.path <+: x.ancestors := by
        intro x hx hbelow
        obtain ⟨d, hd, hshows⟩ := others.shows_first x hx
        have hlength := hbelow.length_le
        rw [hshows.ancestors, e.path_eq, List.length_append, List.length_singleton] at hlength
        have := hfirst d hd
        omega
      have hshows := children.shows_level placed (fun c hc => (hcs' c hc).1)
        (n := e.path.length) fun c hc => by rw [(hcs' c hc).2]
      have hall : cs.filter (·.ancestors.length = e.path.length) = cs := by
        rw [List.filter_eq_self]
        intro c hc
        simp [(hcs' c hc).2]
      rw [List.flatMap_append]
      change List.Forall₂ _ _ (directlyBelow e.path _)
      rw [directlyBelow_append hbelow hbehind]
      rwa [hall] at hshows

/-! ## Explorations -/

variable (s) in
/-- The visits of `log` emit `out` in pre-order. -/
structure Preordered (root : Element K α) (log : List (Visit K α)) (out : List (Element K α)) :
    Prop where
  emitted : out = log.flatMap s.output
  rootFirst : ∃ x rest, out = x :: rest ∧ s.Shows root x
  /-- Every other element has its parent before it, and only what lies below the parent between. -/
  parents : ∀ before x after, out = before ++ x :: after → before ≠ [] → FollowsParent before x
  /-- Below an expanded element stand its children, each once and in the order of the listing. -/
  children : ∀ earlier v later cs, log = earlier ++ v :: later → v.decision = .expand →
    s.children v.element = .ok cs →
      List.Forall₂ s.Shows cs (directlyBelow v.element.path (later.flatMap s.output))

/-- An exploration emits its root and all below it in pre-order. -/
theorem explore_preordered [LawfulBEq ι] (revisits : Revisits) (bounded : s.Bounded root)
    (placed : s.Placed root) (limit : Nat) :
    ∃ log r, s.Trace revisits [root] .empty log r ∧
      s.Preordered root log (s.explore revisits limit root) := by
  obtain ⟨log, r, trace, hexplore⟩ := explore_eq_output revisits bounded limit
  have hroot : ∀ e ∈ [root], s.Reaches root e := by simpa using .root
  refine ⟨log, r, trace, hexplore, ?_, ?_, ?_⟩
  · rw [hexplore]
    cases trace with
    | visit _ => exact ⟨_, _, rfl, s.shows_reported _⟩
  · intro before x after hout hne
    rcases trace.shows_or_follows placed hroot (hexplore.symm.trans hout) with
      ⟨first, e, last, hsplit, -, hbefore⟩ | hfollows
    · -- nothing is pending before the root
      obtain ⟨y, hy⟩ := List.exists_mem_of_ne_nil _ hne
      obtain ⟨d, hd, -⟩ := hbefore y hy
      have hlength := congrArg List.length hsplit
      rw [List.length_singleton, List.length_append, List.length_cons] at hlength
      have := List.length_pos_of_mem hd
      omega
    · exact hfollows
  · intro earlier v later cs hlog hexpand hcs
    exact trace.shows_children placed hroot (List.pairwise_singleton _ _) hlog hexpand hcs

/-! ## A source with equal keys -/

/-- Where the doors of a room lead: what stands on a door, and the number of the room behind. -/
def doors : Nat → List (Char × Nat)
  | 0 => [('b', 1), ('b', 2)]
  | 1 => [('c', 3)]
  | 2 => [('c', 1), ('d', 3)]
  | _ => []

/-- Two doors of the first room bear the same key. -/
def house : Source Char Nat Nat where
  id := Element.item
  children e := .ok ((doors e.item).map fun (k, n) => .plain (e.position.child k) .branch n)
  marker e _ := .plain (e.position.child '.') .inserted e.item
  onCycle _ := false
  bound := 4

def hall : Element Char Nat := .plain ⟨[], 'a'⟩ .branch 0

theorem doors_lt {n : Nat} {door : Char × Nat} (h : door ∈ doors n) : door.2 < 4 := by
  unfold doors at h
  split at h <;> simp at h
  · rcases h with rfl | rfl <;> decide
  · rw [h]
    decide
  · rcases h with rfl | rfl <;> decide

theorem house_bounded : house.Bounded hall := by
  refine ⟨List.range 4, by decide, fun e _ he _ _ => List.mem_range.2 ?_⟩
  cases he with
  | root => decide
  | @child d _ cs _ _ hcs hc =>
    obtain rfl : (doors d.item).map _ = cs := Except.ok.inj hcs
    obtain ⟨door, hdoor, rfl⟩ := List.mem_map.1 hc
    exact doors_lt hdoor

theorem house_placed : house.Placed hall where
  children e cs _ _ hcs c hc := by
    obtain rfl : (doors e.item).map _ = cs := Except.ok.inj hcs
    obtain ⟨door, -, rfl⟩ := List.mem_map.1 hc
    rfl
  marker _ _ _ _ := rfl

theorem house_preordered :
    house.Bounded hall ∧ house.Placed hall ∧
      (∃ log r, house.Trace .marked [hall] .empty log r ∧
        house.Preordered hall log (house.explore .marked 1 hall)) ∧
      (house.explore .marked 1 hall).map Element.path =
        [['a'], ['a', 'b'], ['a', 'b', 'c'], ['a', 'b'], ['a', 'b', 'c'], ['a', 'b', 'c', '.'],
          ['a', 'b', 'd'], ['a', 'b', 'd', '.']] :=
  ⟨house_bounded, house_placed, explore_preordered .marked house_bounded house_placed 1, by decide⟩

end Source

end Hierarchy
