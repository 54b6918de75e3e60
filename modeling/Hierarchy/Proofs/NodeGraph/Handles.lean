import Hierarchy.Proofs.Exploration.Workshop
import Hierarchy.Proofs.NodeGraph.ByNode

/-!
# Handles stay good

Graphs are changed by calls whose handles may come from anywhere (`NodeGraph.Change`).  A call that
relies on a handle without a node is refused and changes nothing (`change_of_missing`), and all
others succeed (`change_of_known`).  So whatever is called, graphs stay as built graphs are, and no
stored handle leads nowhere.

Explorations live on this: below a root every element is the occurrence of a node at the place of
its parent's child, no listing fails, and nothing but markers is emitted with a failure
(`EmitsNodes`).  This holds of every complete tour, so of every exploration, in one sequence or by
workers under any schedule (`handles_stay_good`).
-/

namespace Hierarchy

/-! ## Reasons of markers -/

theorem Source.reason_of_mark {K α ι : Type} [BEq ι] {s : Source K α ι} {revisits : Revisits}
    {e : Element K α} {r : VisitRecord ι} {reason : Failure}
    (h : s.decide revisits e r = .mark reason) : reason = .cycle ∨ reason = .alreadyShown := by
  revert h
  unfold decide
  cases e.expandable <;> cases s.onCycle e <;> cases r.contains (s.id e) <;> cases revisits <;>
    simp <;> rintro rfl <;> simp

namespace NodeGraph

variable {g : NodeGraph} {h root : Handle}

/-! ## Calls -/

/-- A call that changes a graph. -/
inductive Change where
  | addNode (name value : String)
  | addChild (parent child : Handle)
  | addRoot (node : Handle)
  deriving DecidableEq, Repr

/-- The handles that a call relies on, in the order in which they are looked up. -/
def Change.handles : Change → List Handle
  | .addNode _ _ => []
  | .addChild parent child => [child, parent]
  | .addRoot node => [node]

/-- The answer of a call that may be refused, and the graph after it; what is refused leaves the
graph as it was. -/
def attempt (g : NodeGraph) :
    Except Failure NodeGraph → Except Failure (Option Handle) × NodeGraph
  | .ok next => (.ok none, next)
  | .error cause => (.error cause, g)

/-- What a call answers, a handle if it adds a node, and the graph after it. -/
def change (g : NodeGraph) : Change → Except Failure (Option Handle) × NodeGraph
  | .addNode name value => (.ok (g.addNode name value).1, (g.addNode name value).2)
  | .addChild parent child => g.attempt (g.addChild parent child)
  | .addRoot node => g.attempt (g.addRoot node)

/-- The graph after calls, refused or not. -/
def after (g : NodeGraph) (changes : List Change) : NodeGraph :=
  changes.foldl (fun g c => (g.change c).2) g

variable {c : Change}

/-- The first handle without a node is named, and the graph stays as it is. -/
theorem change_of_missing (hfind : c.handles.find? (!g.contains ·) = some h) :
    g.change c = (.error (.unknownNode h.text), g) := by
  cases c with
  | addNode name value => cases hfind
  | addChild parent child =>
    have hadd : g.addChild parent child = .error (.unknownNode h.text) := by
      unfold addChild
      by_cases hchild : g.contains child = true
      · by_cases hparent : g.contains parent = true
        · simp [Change.handles, hchild, hparent] at hfind
        · obtain rfl : parent = h := by simpa [Change.handles, hchild, hparent] using hfind
          simp [hchild, hparent]
      · obtain rfl : child = h := by simpa [Change.handles, hchild] using hfind
        simp [hchild]
    show g.attempt (g.addChild parent child) = _
    rw [hadd]
    rfl
  | addRoot node =>
    have hadd : g.addRoot node = .error (.unknownNode h.text) := by
      unfold addRoot
      by_cases hnode : g.contains node = true
      · simp [Change.handles, hnode] at hfind
      · obtain rfl : node = h := by simpa [Change.handles, hnode] using hfind
        simp [hnode]
    show g.attempt (g.addRoot node) = _
    rw [hadd]
    rfl

theorem change_of_known (hknown : ∀ h ∈ c.handles, g.contains h) :
    ∃ answer, (g.change c).1 = .ok answer := by
  cases c with
  | addNode name value => exact ⟨_, rfl⟩
  | addChild parent child =>
    have hchild : g.contains child := hknown child (by simp [Change.handles])
    have hparent : g.contains parent := hknown parent (by simp [Change.handles])
    exact ⟨none, by simp [change, attempt, addChild, hchild, hparent]⟩
  | addRoot node =>
    have hnode : g.contains node := hknown node (by simp [Change.handles])
    exact ⟨none, by simp [change, attempt, addRoot, hnode]⟩

/-- A call is refused exactly if it relies on a handle without a node. -/
theorem change_refused {cause : Failure} (hrefused : (g.change c).1 = .error cause) :
    ∃ h, c.handles.find? (!g.contains ·) = some h ∧
      g.change c = (.error (.unknownNode h.text), g) := by
  cases hfind : c.handles.find? (!g.contains ·) with
  | some h => exact ⟨h, rfl, change_of_missing hfind⟩
  | none =>
    have hknown : ∀ h ∈ c.handles, g.contains h := by simpa using hfind
    obtain ⟨answer, hanswer⟩ := change_of_known hknown
    rw [hrefused] at hanswer
    cases hanswer

theorem Built.attempt (built : g.Built) {outcome : Except Failure NodeGraph}
    (h : ∀ next, outcome = .ok next → next.Built) : (g.attempt outcome).2.Built := by
  cases outcome with
  | ok next => exact h next rfl
  | error cause => exact built

theorem Built.change (built : g.Built) (c : Change) : (g.change c).2.Built := by
  cases c with
  | addNode name value => exact built.addNode name value
  | addChild parent child => exact built.attempt fun _ => built.addChild
  | addRoot node => exact built.attempt fun _ => built.addRoot

theorem Built.after (built : g.Built) (changes : List Change) : (g.after changes).Built := by
  induction changes generalizing g with
  | nil => exact built
  | cons c changes ih => exact ih (built.change c)

/-! ## Explorations -/

/-- The element is the occurrence of a node: it carries the node's handle, name and value, and no
failure. -/
structure Occurs (g : NodeGraph) (e : GraphElement) (h : Handle) : Prop where
  handle : e.item.node = some h
  node : ∃ n, g.node? h = some n ∧ e.key = n.name ∧ e.item.value = n.value
  failure : e.failure = none

/-- What an exploration emits are occurrences of nodes, the root's at the top and every other at the
place of a child of one that is emitted, and markers; and no failure says that a node is unknown. -/
structure EmitsNodes (g : NodeGraph) (root : Handle) (emitted : List GraphElement) : Prop where
  start : g.element root [] ∈ emitted
  known : ∀ e ∈ emitted, ∀ name, e.failure ≠ some (.unknownNode name)
  occurs : ∀ e ∈ emitted, e.kind ≠ .inserted → ∃ h, g.Occurs e h
  placed : ∀ e ∈ emitted, e.kind ≠ .inserted → e = g.element root [] ∨
    ∃ p ∈ emitted, p.kind ≠ .inserted ∧ e.ancestors = p.path ∧
      ∃ hp he, p.item.node = some hp ∧ e.item.node = some he ∧ g.Edge hp he

theorem EmitsNodes.perm {emitted emitted' : List GraphElement} (h : g.EmitsNodes root emitted)
    (perm : emitted'.Perm emitted) : g.EmitsNodes root emitted' where
  start := perm.mem_iff.2 h.start
  known e he := h.known e (perm.mem_iff.1 he)
  occurs e he := h.occurs e (perm.mem_iff.1 he)
  placed e he hkind := (h.placed e (perm.mem_iff.1 he) hkind).imp_right
    fun ⟨p, hp, hplace⟩ => ⟨p, perm.mem_iff.2 hp, hplace⟩

theorem occurs_element (hcontains : g.contains h) (ancestors : List String) :
    g.Occurs (g.element h ancestors) h := by
  obtain ⟨n, hn⟩ := contains_iff.1 hcontains
  refine ⟨node_element hcontains, ⟨n, hn, key_element hn, ?_⟩, ?_⟩
  · rw [element_eq hn]
    rfl
  · rw [element_eq hn]
    rfl

theorem kind_element (hcontains : g.contains h) (ancestors : List String) :
    (g.element h ancestors).kind ≠ .inserted := by
  obtain ⟨n, hn⟩ := contains_iff.1 hcontains
  rw [element_eq hn]
  cases n.children.isEmpty <;> simp [Element.plain]

/-- The listing of a node does not fail, so its element is emitted as it is. -/
theorem reported_element (hcontains : g.contains h) {ancestors : List String}
    {decision : Decision} :
    g.catalog.reported ⟨g.element h ancestors, decision⟩ = g.element h ancestors := by
  obtain ⟨n, hn⟩ := contains_iff.1 hcontains
  have hcs : g.catalog.children (g.element h ancestors) = _ := children_element hn
  unfold Source.reported
  rw [hcs]
  cases decision <;> rfl

section Tours

variable {revisits : Revisits} {log : List (Visit String Item)} {r : VisitRecord (Option Handle)}
  {v : Visit String Item} {e : GraphElement}

/-- What is visited is the element of a node, and it is emitted. -/
theorem exists_node_of_visited (sound : g.Sound) (hroot : g.contains root)
    (tour : g.catalog.Tour revisits (g.element root []) log 0 r) (hv : v ∈ log) :
    ∃ h ancestors, g.contains h ∧ v.element = g.element h ancestors ∧
      g.catalog.reported v = v.element := by
  obtain ⟨h, ancestors, hcontains, -, helement⟩ :=
    exists_handle_of_reaches sound hroot (tour.reaches hv)
  refine ⟨h, ancestors, hcontains, helement, ?_⟩
  obtain ⟨e, decision⟩ := v
  obtain rfl : e = g.element h ancestors := helement
  exact reported_element hcontains

theorem mem_output_of_visited (sound : g.Sound) (hroot : g.contains root)
    (tour : g.catalog.Tour revisits (g.element root []) log 0 r) (hv : v ∈ log) :
    v.element ∈ log.flatMap g.catalog.output := by
  obtain ⟨_, _, _, _, hreported⟩ := exists_node_of_visited sound hroot tour hv
  rw [List.mem_flatMap]
  exact ⟨v, hv, by rw [← hreported]; exact List.mem_cons_self⟩

/-- What is emitted is visited or a marker. -/
theorem visited_or_marker (sound : g.Sound) (hroot : g.contains root)
    (tour : g.catalog.Tour revisits (g.element root []) log 0 r)
    (he : e ∈ log.flatMap g.catalog.output) :
    (∃ v ∈ log, e = v.element) ∨ e.kind = .inserted ∧
      (e.failure = some .cycle ∨ e.failure = some .alreadyShown) := by
  obtain ⟨v, hv, he⟩ := List.mem_flatMap.1 he
  rcases List.mem_cons.1 he with rfl | he
  · obtain ⟨_, _, _, _, hreported⟩ := exists_node_of_visited sound hroot tour hv
    exact .inl ⟨v, hv, hreported⟩
  · right
    obtain ⟨r', hvisit⟩ := tour.visited_at v hv
    unfold Source.markers at he
    split at he
    · next reason hmark =>
      rw [List.mem_singleton.1 he]
      rw [hvisit] at hmark
      show _ ∧ (some reason = some .cycle ∨ some reason = some .alreadyShown)
      have hreason := Source.reason_of_mark hmark
      exact ⟨rfl, hreason.imp (congrArg some) (congrArg some)⟩
    · cases he

/-- What is visited and not the root occurs below its parent, which is visited too. -/
theorem root_or_child_of_visited (sound : g.Sound) (hroot : g.contains root)
    (tour : g.catalog.Tour revisits (g.element root []) log 0 r) (hv : v ∈ log) :
    v.element = g.element root [] ∨ ∃ w ∈ log, ∃ hp he ancestors, g.Edge hp he ∧
      w.element = g.element hp ancestors ∧ v.element = g.element he w.element.path := by
  refine (tour.mem_visited_iff.1 ⟨v, hv, rfl⟩).imp_right fun ⟨w, hw, hlisted⟩ => ?_
  obtain ⟨hp, ancestors, hcontains, hparent, -⟩ := exists_node_of_visited sound hroot tour hw
  obtain ⟨n, hn⟩ := contains_iff.1 hcontains
  obtain ⟨-, cs, hcs, hc⟩ := g.catalog.mem_listed hlisted
  have hchildren : g.children w.element = .ok cs := hcs
  rw [hparent, children_element hn] at hchildren
  cases hchildren
  obtain ⟨x, hx, helement⟩ := List.mem_map.1 hc
  refine ⟨w, hw, hp, x, ancestors, ⟨n, hn, hx⟩, hparent, ?_⟩
  rw [hparent]
  exact helement.symm

/-- A complete tour emits occurrences of nodes, and markers. -/
theorem emitsNodes_of_tour (sound : g.Sound) (hroot : g.contains root)
    (tour : g.catalog.Tour revisits (g.element root []) log 0 r) :
    g.EmitsNodes root (log.flatMap g.catalog.output) := by
  refine ⟨?start, ?known, ?occurs, ?placed⟩
  case start =>
    obtain ⟨v, hv, helement⟩ := tour.mem_visited_iff.2 (.inl rfl)
    rw [← helement]
    exact mem_output_of_visited sound hroot tour hv
  case known =>
    intro e he name
    rcases visited_or_marker sound hroot tour he with ⟨v, hv, rfl⟩ | ⟨-, hfailure⟩
    · obtain ⟨h, ancestors, hcontains, helement, -⟩ := exists_node_of_visited sound hroot tour hv
      rw [helement, (occurs_element hcontains ancestors).failure]
      simp
    · rcases hfailure with hfailure | hfailure <;> simp [hfailure]
  case occurs =>
    intro e he hkind
    rcases visited_or_marker sound hroot tour he with ⟨v, hv, rfl⟩ | ⟨hinserted, -⟩
    · obtain ⟨h, ancestors, hcontains, helement, -⟩ := exists_node_of_visited sound hroot tour hv
      rw [helement]
      exact ⟨h, occurs_element hcontains ancestors⟩
    · exact absurd hinserted hkind
  case placed =>
    intro e he hkind
    rcases visited_or_marker sound hroot tour he with ⟨v, hv, rfl⟩ | ⟨hinserted, -⟩
    · rcases root_or_child_of_visited sound hroot tour hv with
        hstart | ⟨w, hw, hp, x, ancestors, edge, hparent, hchild⟩
      · exact .inl hstart
      · right
        obtain ⟨n, hn, hx⟩ := edge
        have edge : g.Edge hp x := ⟨n, hn, hx⟩
        have hcontains : g.contains hp := contains_iff.2 ⟨n, hn⟩
        have hbelow : g.contains x := sound.contains_of_edge edge
        refine ⟨w.element, mem_output_of_visited sound hroot tour hw, ?_, ?_, hp, x, ?_, ?_, edge⟩
        · rw [hparent]
          exact kind_element hcontains ancestors
        · rw [hchild, ancestors_element hbelow]
        · rw [hparent, node_element hcontains]
        · rw [hchild, node_element hbelow]
    · exact absurd hinserted hkind

end Tours

/-! ## Whatever is called -/

/-- A graph without a handle that leads nowhere: what calls may do to it, and what explorations
below its roots emit. -/
structure HandlesGood (g : NodeGraph) : Prop where
  /-- A call fails at the first of its handles without a node, and changes nothing. -/
  refused : ∀ c cause, (g.change c).1 = .error cause →
    ∃ h, c.handles.find? (!g.contains ·) = some h ∧
      g.change c = (.error (.unknownNode h.text), g)
  granted : ∀ c, (∀ h ∈ c.handles, g.contains h) → ∃ answer, (g.change c).1 = .ok answer
  stored : g.Sound
  explored : ∀ root ∈ g.roots, ∀ revisits limit,
    g.EmitsNodes root (g.catalog.explore revisits limit (g.element root []))
  /-- The same holds of workers when all work is done, in whatever order they did it. -/
  worked : ∀ root ∈ g.roots, ∀ revisits w,
    g.catalog.Steps revisits (Source.opening (g.element root [])) w → w.units = [] →
      g.EmitsNodes root w.progress.emitted

/-- Whatever is called on a graph from its start on, with good handles or bad, no handle that it
stores leads nowhere, and none is met below its roots. -/
theorem handles_stay_good (changes : List Change) : (empty.after changes).HandlesGood := by
  have built : (empty.after changes).Built := Built.empty.after changes
  have sound : (empty.after changes).Sound := built.sound
  refine ⟨fun c cause => change_refused, fun c => change_of_known, sound, ?explored, ?worked⟩
  case explored =>
    intro root hroot revisits limit
    have hcontains := sound.roots root hroot
    obtain ⟨log, r, trace, hexplore⟩ :=
      Source.explore_eq_output revisits (catalog_bounded sound hcontains) limit
    rw [hexplore]
    exact emitsNodes_of_tour sound hcontains trace.tour
  case worked =>
    intro root hroot revisits w steps done
    obtain ⟨log, tour, hperm⟩ := steps.complete done
    exact (emitsNodes_of_tour sound (sound.roots root hroot) tour).perm hperm

/-- A child beyond the last node, a parent of another graph, and a root at a place that was filled
only once. -/
def strayChanges : List Change :=
  [.addNode "a" "alice", .addChild ⟨0, 0⟩ ⟨1, 0⟩, .addNode "b" "bob", .addChild ⟨0, 0⟩ ⟨1, 0⟩,
    .addChild ⟨5, 2⟩ ⟨0, 0⟩, .addChild ⟨1, 0⟩ ⟨0, 0⟩, .addRoot ⟨0, 1⟩, .addRoot ⟨0, 0⟩]

/-- Two nodes, each a child of the other. -/
def pair : NodeGraph := ⟨#[⟨"a", "alice", [⟨1, 0⟩]⟩, ⟨"b", "bob", [⟨0, 0⟩]⟩], [⟨0, 0⟩]⟩

theorem strayChanges_good :
    empty.after strayChanges = pair ∧
      pair.change (.addRoot ⟨0, 1⟩) = (.error (.unknownNode (Handle.text ⟨0, 1⟩)), pair) ∧
      pair.HandlesGood ∧
      pair.catalog.explore .marked 3 (pair.element ⟨0, 0⟩ []) =
        [.plain ⟨[], "a"⟩ .branch ⟨some ⟨0, 0⟩, "alice"⟩,
          .plain ⟨["a"], "b"⟩ .branch ⟨some ⟨1, 0⟩, "bob"⟩,
          .plain ⟨["a", "b"], "a"⟩ .branch ⟨some ⟨0, 0⟩, "alice"⟩,
          marker (.plain ⟨["a", "b"], "a"⟩ .branch ⟨some ⟨0, 0⟩, "alice"⟩) .cycle] := by
  have hafter : empty.after strayChanges = pair := by decide
  exact ⟨hafter, by decide, hafter ▸ handles_stay_good strayChanges, by decide +kernel⟩

end NodeGraph

end Hierarchy
