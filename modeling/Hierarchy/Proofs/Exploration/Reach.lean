import Hierarchy.Proofs.Exploration.Run
import Hierarchy.Proofs.Exploration.Tour

/-!
# What an exploration reaches

An element is not expanded if its entity was expanded before or if it is on a cycle; then its
entity stands for it elsewhere.  So no entity is lost, as long as ids are worth their name
(`Source.Coherent`): every id below the root is visited, and every id that can be expanded is
expanded, once (`explore_reaches_all`).
-/

namespace Hierarchy

namespace Source

variable {K α ι : Type} [BEq ι] [LawfulBEq ι] {s : Source K α ι} {revisits : Revisits}
  {r : VisitRecord ι} {log : List (Visit K α)} {root : Element K α}

/-! ## The trace from a root -/

section FromRoot

variable (trace : s.Trace revisits [root] .empty log r)

include trace

theorem Trace.reaches {v : Visit K α} (hv : v ∈ log) : s.Reaches root v.element :=
  trace.tour.reaches hv

/-- Whatever can be expanded is expanded, under its own or an equal id. -/
theorem Trace.expands (coherent : s.Coherent root) {v : Visit K α} (hv : v ∈ log)
    (hexpandable : v.element.expandable = true) : s.id v.element ∈ s.expandedIds log :=
  trace.tour.expands coherent.consistent hv hexpandable

/-- No id below the root is missed. -/
theorem Trace.visits_reached (coherent : s.Coherent root) {e : Element K α}
    (he : s.Reaches root e) : ∃ v ∈ log, s.id v.element = s.id e :=
  trace.tour.visits_reached coherent.consistent he

theorem Trace.nodup_expandedIds : (s.expandedIds log).Nodup := trace.tour.nodup_expandedIds

end FromRoot

/-- An exploration visits exactly the ids below its root, and expands once each of them that can
be expanded.  (An id is that of the element as it was listed, before a failure is recorded.) -/
theorem explore_reaches_all (revisits : Revisits) (bounded : s.Bounded root)
    (coherent : s.Coherent root) (limit : Nat) :
    ∃ log r, s.Trace revisits [root] .empty log r ∧
      s.explore revisits limit root = log.flatMap s.output ∧
      (∀ i, (∃ v ∈ log, s.id v.element = i) ↔ ∃ e, s.Reaches root e ∧ s.id e = i) ∧
      ∀ e, s.Reaches root e → e.expandable = true → (s.expandedIds log).count (s.id e) = 1 := by
  obtain ⟨log, r, trace, hexplore⟩ := explore_eq_output revisits bounded limit
  refine ⟨log, r, trace, hexplore, fun i => ⟨?_, ?_⟩, fun e he hexpandable => ?_⟩
  · rintro ⟨v, hv, rfl⟩
    exact ⟨v.element, trace.reaches hv, rfl⟩
  · rintro ⟨e, he, rfl⟩
    exact trace.visits_reached coherent he
  · obtain ⟨v, hv, hid⟩ := trace.visits_reached coherent he
    have hexpandable' : v.element.expandable = true := by
      rw [coherent.expandable v.element e (trace.reaches hv) he hid, hexpandable]
    rw [← hid]
    exact List.nodup_iff_count_eq_one.1 trace.nodup_expandedIds _
      (trace.expands coherent hv hexpandable')

/-! ## A source with a cycle -/

/-- What `roundabout` lists below a key. -/
def exits : Char → Except Failure (List Char)
  | 'a' => .ok ['b', 'c']
  | 'b' => .ok ['c', 'a']
  | _ => .error (.listing "c" "closed")

/-- From `a` one comes to `b` and back, and on both ways to `c`, which cannot be listed. -/
def roundabout : Source Char Unit Char where
  id := Element.key
  children e := (exits e.key).map (·.map fun k => .plain (e.position.child k) .branch ())
  marker e _ := .plain (e.position.child '.') .inserted ()
  onCycle := Element.repeatsKey
  bound := 2

def entrance : Element Char Unit := .plain ⟨[], 'a'⟩ .branch ()

theorem roundabout_children {e : Element Char Unit} {cs : List (Element Char Unit)}
    (hcs : roundabout.children e = .ok cs) :
    ∃ keys, exits e.key = .ok keys ∧
      cs = keys.map fun k => .plain (e.position.child k) .branch () := by
  unfold roundabout at hcs
  dsimp only at hcs
  cases hexits : exits e.key with
  | error cause =>
    rw [hexits] at hcs
    cases hcs
  | ok keys =>
    rw [hexits] at hcs
    exact ⟨keys, rfl, (Except.ok.inj hcs).symm⟩

theorem roundabout_chain {as : List (Element Char Unit)} {e : Element Char Unit}
    (chain : roundabout.Chain entrance as e) :
    e.expandable = true ∧ e.ancestors = as.map Element.key := by
  induction chain with
  | root => exact ⟨rfl, rfl⟩
  | @child as e c cs _ _ hcs hc ih =>
    obtain ⟨keys, -, rfl⟩ := roundabout_children hcs
    obtain ⟨k, -, rfl⟩ := List.mem_map.1 hc
    refine ⟨rfl, ?_⟩
    rw [List.map_append, ← ih.2]
    rfl

theorem roundabout_counts (root : Element Char Unit) : roundabout.Counts ['a', 'b'] root := by
  intro e cs _ _ hcs
  obtain ⟨keys, hkeys, -⟩ := roundabout_children hcs
  change e.key ∈ ['a', 'b']
  unfold exits at hkeys
  split at hkeys
  · simp [*]
  · simp [*]
  · cases hkeys

theorem roundabout_bounded : roundabout.Bounded entrance :=
  ⟨['a', 'b'], by decide, roundabout_counts entrance⟩

theorem roundabout_coherent : roundabout.Coherent entrance where
  expandable e e' he he' _ := by
    obtain ⟨_, chain⟩ := he.chain
    obtain ⟨_, chain'⟩ := he'.chain
    rw [(roundabout_chain chain).1, (roundabout_chain chain').1]
  childIds e e' _ _ hid _ := by
    have hkey : e.key = e'.key := hid
    unfold childIds roundabout
    dsimp only
    rw [hkey]
    cases exits e'.key with
    | error cause => rfl
    | ok keys => simp [Except.map, Except.toOption, Element.plain, Element.key, Position.child]
  onCycle as e chain hcycle := by
    have hmem : e.key ∈ e.ancestors := List.contains_iff_mem.1 hcycle
    rw [(roundabout_chain chain).2] at hmem
    exact List.mem_map.1 hmem

theorem roundabout_reached :
    roundabout.Bounded entrance ∧ roundabout.Coherent entrance ∧
      ∃ log r, roundabout.Trace .marked [entrance] .empty log r ∧
        roundabout.explore .marked 1 entrance = log.flatMap roundabout.output ∧
        (∀ i, (∃ v ∈ log, v.element.key = i) ↔
          ∃ e, roundabout.Reaches entrance e ∧ e.key = i) ∧
        ∀ e, roundabout.Reaches entrance e → e.expandable = true →
          (roundabout.expandedIds log).count e.key = 1 :=
  ⟨roundabout_bounded, roundabout_coherent,
    explore_reaches_all .marked roundabout_bounded roundabout_coherent 1⟩

end Source

end Hierarchy
