import Hierarchy.Proofs.Exploration.Route
import Hierarchy.Proofs.Exploration.Tour
import Hierarchy.Proofs.NodeGraph.Built

/-!
# Graphs explored by node

Nodes are known by their handles, and an exploration should go by them: emit the nodes to which the
root leads, and mark as cycles only occurrences of nodes above (`ExploredByNode`).  The test for
cycles goes by names, though.  It is right as long as no node leads to another of its name; it fails
at a namesake, an occurrence that bears the name of a node above it and is none of them
(`Namesake`).

`byNode` is the graph without this test: it goes by nodes always, since what is on a cycle was
expanded before.  Below a root the two sources meet the same elements until a namesake comes
(`exists_route_of_no_namesake`), so explorations go by nodes exactly if `byNode` meets none
(`exploredByNode_iff`).
-/

namespace Hierarchy

namespace NodeGraph

variable {g : NodeGraph} {h root : Handle} {n : Node} {ancestors : List String}
  {e : GraphElement}

/-! ## Elements of nodes -/

theorem element_eq (hn : g.node? h = some n) :
    g.element h ancestors =
      .plain ⟨ancestors, n.name⟩ (if n.children.isEmpty then .leaf else .branch) ⟨h, n.value⟩ := by
  unfold element
  rw [hn]

theorem node_element (hcontains : g.contains h) : (g.element h ancestors).item.node = some h := by
  obtain ⟨n, hn⟩ := contains_iff.1 hcontains
  rw [element_eq hn]
  rfl

theorem ancestors_element (hcontains : g.contains h) :
    (g.element h ancestors).ancestors = ancestors := by
  obtain ⟨n, hn⟩ := contains_iff.1 hcontains
  rw [element_eq hn]
  rfl

theorem key_element (hn : g.node? h = some n) : (g.element h ancestors).key = n.name := by
  rw [element_eq hn]
  rfl

/-- What can be expanded are the nodes with children. -/
theorem expandable_element (hn : g.node? h = some n) :
    (g.element h ancestors).expandable = !n.children.isEmpty := by
  rw [element_eq hn]
  cases n.children.isEmpty <;> rfl

theorem children_element (hn : g.node? h = some n) :
    g.children (g.element h ancestors) =
      .ok (n.children.map fun c => g.element c (g.element h ancestors).path) := by
  have hnode : (g.element h ancestors).item.node = some h :=
    node_element (contains_iff.2 ⟨n, hn⟩)
  unfold children
  rw [hnode, Option.bind_some, hn]

/-! ## What is reached -/

/-- What stands below a root are elements of nodes to which the root leads. -/
theorem exists_handle_of_reaches (sound : g.Sound) (hroot : g.contains root)
    (reaches : g.catalog.Reaches (g.element root ancestors) e) :
    ∃ h ancestors, g.contains h ∧ g.Leads root h ∧ e = g.element h ancestors := by
  induction reaches with
  | root => exact ⟨root, _, hroot, .refl, rfl⟩
  | @child e c cs _ _ hcs hc ih =>
    obtain ⟨h, ancestors, hcontains, leads, rfl⟩ := ih
    obtain ⟨n, hn⟩ := contains_iff.1 hcontains
    have hcs : g.children (g.element h ancestors) = .ok cs := hcs
    rw [children_element hn] at hcs
    cases hcs
    obtain ⟨x, hx, rfl⟩ := List.mem_map.1 hc
    have edge : g.Edge h x := ⟨n, hn, hx⟩
    exact ⟨x, _, sound.contains_of_edge edge, leads.tail edge, rfl⟩

/-- To whatever node the root leads, some element of it is reached. -/
theorem exists_reaches_of_leads (leads : g.Leads root h) :
    ∃ ancestors, g.catalog.Reaches (g.element root []) (g.element h ancestors) := by
  induction leads with
  | refl => exact ⟨[], .root⟩
  | @tail h c _ edge ih =>
    obtain ⟨ancestors, reaches⟩ := ih
    obtain ⟨n, hn, hc⟩ := edge
    have hexpandable : (g.element h ancestors).expandable = true := by
      rw [expandable_element hn, List.isEmpty_eq_false_iff.2 (List.ne_nil_of_mem hc)]
      rfl
    exact ⟨_, reaches.child hexpandable (children_element hn) (List.mem_map_of_mem hc)⟩

theorem catalog_bounded (sound : g.Sound) (hroot : g.contains root) :
    g.catalog.Bounded (g.element root []) := by
  refine ⟨(List.range g.size).map fun i => some ⟨i, 0⟩, by simp [catalog], ?_⟩
  intro e cs reaches _ _
  obtain ⟨h, ancestors, hcontains, -, rfl⟩ := exists_handle_of_reaches sound hroot reaches
  obtain ⟨n, hn⟩ := contains_iff.1 hcontains
  obtain ⟨hgeneration, hindex⟩ := node?_eq_some.1 hn
  obtain ⟨hlt, -⟩ := Array.getElem?_eq_some_iff.1 hindex
  change (g.element h ancestors).item.node ∈ _
  rw [node_element hcontains, List.mem_map]
  exact ⟨h.index, List.mem_range.2 hlt, by rw [← hgeneration]⟩

/-- The keys of the elements above are the ancestors. -/
theorem ancestors_of_chain (sound : g.Sound) (hroot : g.contains root) {as : List GraphElement}
    (chain : g.catalog.Chain (g.element root []) as e) : e.ancestors = as.map Element.key := by
  induction chain with
  | root => exact ancestors_element hroot
  | @child as e c cs chain _ hcs hc ih =>
    obtain ⟨h, ancestors, hcontains, -, rfl⟩ := exists_handle_of_reaches sound hroot chain.reaches
    obtain ⟨n, hn⟩ := contains_iff.1 hcontains
    have hcs : g.children (g.element h ancestors) = .ok cs := hcs
    rw [children_element hn] at hcs
    cases hcs
    obtain ⟨x, hx, rfl⟩ := List.mem_map.1 hc
    rw [ancestors_element (sound.contains_of_edge ⟨n, hn, hx⟩), List.map_append, ← ih]
    rfl

/-! ## Exploring without a test for cycles -/

/-- The graph as a source that tells elements by their nodes alone. -/
def byNode (g : NodeGraph) : Source String Item (Option Handle) :=
  g.catalog.toSource.withTest fun _ => false

theorem childIds_byNode (sound : g.Sound) (hn : g.node? h = some n) :
    g.byNode.childIds (g.element h ancestors) = some (n.children.map some) := by
  have hcs : g.byNode.children (g.element h ancestors) = _ := children_element hn
  unfold Source.childIds
  rw [hcs]
  change some (List.map _ _) = _
  rw [List.map_map]
  congr 1
  exact List.map_congr_left fun c hc => node_element (sound.children h n hn c hc)

/-- Elements of one id are elements of one node. -/
theorem exists_node_of_id_eq (sound : g.Sound) (hroot : g.contains root) {e e' : GraphElement}
    (reaches : g.byNode.Reaches (g.element root []) e)
    (reaches' : g.byNode.Reaches (g.element root []) e') (hid : g.byNode.id e = g.byNode.id e') :
    ∃ h n ancestors ancestors', g.node? h = some n ∧ e = g.element h ancestors ∧
      e' = g.element h ancestors' := by
  obtain ⟨h, ancestors, hcontains, -, rfl⟩ :=
    exists_handle_of_reaches sound hroot (Source.reaches_withTest.1 reaches)
  obtain ⟨h', ancestors', hcontains', -, rfl⟩ :=
    exists_handle_of_reaches sound hroot (Source.reaches_withTest.1 reaches')
  have hnodes : (g.element h ancestors).item.node = (g.element h' ancestors').item.node := hid
  rw [node_element hcontains, node_element hcontains'] at hnodes
  cases hnodes
  obtain ⟨n, hn⟩ := contains_iff.1 hcontains
  exact ⟨h, n, ancestors, ancestors', hn, rfl, rfl⟩

theorem byNode_coherent (sound : g.Sound) (hroot : g.contains root) :
    g.byNode.Coherent (g.element root []) where
  expandable e e' reaches reaches' hid := by
    obtain ⟨h, n, _, _, hn, rfl, rfl⟩ := exists_node_of_id_eq sound hroot reaches reaches' hid
    rw [expandable_element hn, expandable_element hn]
  childIds e e' reaches reaches' hid _ := by
    obtain ⟨h, n, _, _, hn, rfl, rfl⟩ := exists_node_of_id_eq sound hroot reaches reaches' hid
    rw [childIds_byNode sound hn, childIds_byNode sound hn]
  onCycle _ _ _ hcycle := by cases hcycle

/-- Going by nodes, exactly those are met to which the root leads. -/
theorem exists_occurrence_iff (sound : g.Sound) (hroot : g.contains root) {revisits : Revisits}
    {stops : List (Stop String Item)} {r : VisitRecord (Option Handle)}
    (route : g.byNode.Route revisits [.root (g.element root [])] .empty stops r) :
    (∃ p ∈ occurrences stops, p.element.item.node = some h) ↔ g.Leads root h := by
  have tour := route.trace.tour
  constructor
  · rintro ⟨p, hp, hnode⟩
    obtain ⟨t, ht, rfl⟩ := List.mem_map.1 hp
    have reaches : g.byNode.Reaches (g.element root []) t.element :=
      tour.reaches (List.mem_map_of_mem ht)
    obtain ⟨h', ancestors, hcontains, leads, helement⟩ :=
      exists_handle_of_reaches sound hroot (Source.reaches_withTest.1 reaches)
    rw [helement, node_element hcontains] at hnode
    cases hnode
    exact leads
  · intro leads
    obtain ⟨ancestors, reaches⟩ := exists_reaches_of_leads leads
    obtain ⟨v, hv, hid⟩ := tour.visits_reached (byNode_coherent sound hroot).consistent
      (Source.reaches_withTest.2 reaches)
    obtain ⟨t, ht, rfl⟩ := List.mem_map.1 hv
    have hnode : t.element.item.node = (g.element h ancestors).item.node := hid
    rw [node_element (sound.contains_of_leads hroot leads)] at hnode
    exact ⟨t.toOccurrence, List.mem_map_of_mem ht, hnode⟩

/-- What is emitted for a visit is its node and no other. -/
theorem exists_output_iff {v : Visit String Item} :
    (∃ e ∈ g.catalog.output v, e.item.node = some h) ↔ v.element.item.node = some h := by
  have hreported : (g.catalog.reported v).item.node = v.element.item.node := by
    unfold Source.reported
    split <;> rfl
  have hmarkers : ∀ e ∈ g.catalog.markers v, e.item.node = none := by
    unfold Source.markers
    split
    · simp [catalog, marker, Element.plain, Element.fail]
    · simp
  unfold Source.output
  constructor
  · rintro ⟨e, he, hnode⟩
    rcases List.mem_cons.1 he with rfl | he
    · rwa [hreported] at hnode
    · rw [hmarkers e he] at hnode
      cases hnode
  · intro hnode
    exact ⟨_, List.mem_cons_self, by rw [hreported, hnode]⟩

/-- Emitted are the nodes that were met. -/
theorem exists_emitted_iff {stops : List (Stop String Item)} :
    (∃ e ∈ stops.flatMap fun t => g.catalog.output t.visit, e.item.node = some h) ↔
      ∃ p ∈ occurrences stops, p.element.item.node = some h := by
  constructor
  · rintro ⟨e, he, hnode⟩
    obtain ⟨t, ht, he⟩ := List.mem_flatMap.1 he
    exact ⟨t.toOccurrence, List.mem_map_of_mem ht, exists_output_iff.1 ⟨e, he, hnode⟩⟩
  · rintro ⟨p, hp, hnode⟩
    obtain ⟨t, ht, rfl⟩ := List.mem_map.1 hp
    obtain ⟨e, he, hnode⟩ := (exists_output_iff (v := t.visit)).2 hnode
    exact ⟨e, List.mem_flatMap.2 ⟨t, ht, he⟩, hnode⟩

/-! ## False alarms -/

/-- An occurrence with children bears the name of a node above it, but is none of them. -/
def Namesake (p : Occurrence String Item) : Prop :=
  p.element.expandable = true ∧ (∃ a ∈ p.above, a.key = p.element.key) ∧
    ∀ a ∈ p.above, a.item.node ≠ p.element.item.node

/-- Going by nodes from the root, one meets no namesake. -/
def MeetsNoNamesake (g : NodeGraph) (root : Handle) : Prop :=
  ∃ stops r, g.byNode.Route .compact [.root (g.element root [])] .empty stops r ∧
    ∀ p ∈ occurrences stops, ¬ Namesake p

/-- The exploration goes by nodes: it emits those to which the root leads, and marks as cycles only
occurrences of nodes above. -/
structure ExploredByNode (g : NodeGraph) (revisits : Revisits) (limit : Nat) (root : Handle) :
    Prop where
  nodes : ∀ h, (∃ e ∈ g.catalog.explore revisits limit (g.element root []),
    e.item.node = some h) ↔ g.Leads root h
  cycles : ∃ stops r, g.catalog.Route revisits [.root (g.element root [])] .empty stops r ∧
    (g.catalog.explore revisits limit (g.element root []) =
      stops.flatMap fun t => g.catalog.output t.visit) ∧
    ∀ t ∈ stops, t.decision = .mark .cycle → ∃ a ∈ t.above, a.item.node = t.element.item.node

/-- Below a root, what is taken for a cycle and is no namesake has its node above it. -/
theorem recurs_of_not_namesake (sound : g.Sound) (hroot : g.contains root)
    {p : Occurrence String Item} (chain : g.catalog.Chain (g.element root []) p.above p.element)
    (hexpandable : p.element.expandable = true) (hrepeats : p.element.repeatsKey = true)
    (hnamesake : ¬ Namesake p) : g.catalog.Recurs p := by
  have hkey : p.element.key ∈ p.above.map Element.key := by
    rw [← ancestors_of_chain sound hroot chain]
    exact List.contains_iff_mem.1 hrepeats
  by_contra hrecurs
  refine hnamesake ⟨hexpandable, List.mem_map.1 hkey, fun a ha hnode => ?_⟩
  exact hrecurs ⟨a, ha, hnode⟩

variable {revisits : Revisits} {stops : List (Stop String Item)}
  {r : VisitRecord (Option Handle)}

/-- Without namesakes, tests that only answer for repeated keys lead to the same occurrences. -/
theorem exists_route_of_no_namesake (sound : g.Sound) (hroot : g.contains root)
    (revisits' : Revisits) (test test' : GraphElement → Bool)
    (htest : ∀ e, test e = true → e.repeatsKey = true)
    (htest' : ∀ e, test' e = true → e.repeatsKey = true)
    (route : (g.catalog.toSource.withTest test).Route revisits [.root (g.element root [])] .empty
      stops r)
    (hnamesake : ∀ p ∈ occurrences stops, ¬ Namesake p) :
    ∃ stops', (g.catalog.toSource.withTest test').Route revisits' [.root (g.element root [])]
      .empty stops' r ∧ occurrences stops' = occurrences stops := by
  refine route.retest (by simp [Occurrence.root]) fun t ht hexpandable htests => ?_
  have chain : g.catalog.Chain (g.element root []) t.above t.element := by
    refine (route.chain_root t ht).congr ?_
    exact fun _ => rfl
  have hrepeats : t.element.repeatsKey = true := htests.elim (htest _) (htest' _)
  exact recurs_of_not_namesake sound hroot chain hexpandable hrepeats
    (hnamesake _ (List.mem_map_of_mem ht))

/-- In marked mode a namesake gets the marker of a cycle. -/
theorem decision_of_namesake (sound : g.Sound) (hroot : g.contains root)
    (route : g.catalog.Route .marked [.root (g.element root [])] .empty stops r)
    {t : Stop String Item} (ht : t ∈ stops) (hnamesake : Namesake t.toOccurrence) :
    t.decision = .mark .cycle := by
  obtain ⟨hexpandable, ⟨a, ha, hkey⟩, -⟩ := hnamesake
  have hcycle : g.catalog.onCycle t.element = true := by
    have hancestors := ancestors_of_chain sound hroot (route.chain_root t ht)
    change t.element.repeatsKey = true
    unfold Element.repeatsKey
    rw [hancestors, List.contains_iff_mem, ← hkey]
    exact List.mem_map_of_mem ha
  obtain ⟨r', hstop⟩ := route.stopped_at t ht
  rw [hstop]
  exact Source.decide_eq_cycle.2 ⟨rfl, hexpandable, hcycle⟩

/-- An exploration that meets no namesake goes by nodes. -/
theorem exploredByNode_of_no_namesake (sound : g.Sound) (hroot : g.contains root) (limit : Nat)
    (route : g.catalog.Route revisits [.root (g.element root [])] .empty stops r)
    (hexplore : g.catalog.explore revisits limit (g.element root []) =
      stops.flatMap fun t => g.catalog.output t.visit)
    (hnamesake : ∀ p ∈ occurrences stops, ¬ Namesake p) :
    g.ExploredByNode revisits limit root where
  nodes h := by
    obtain ⟨stops', route', hsame⟩ := exists_route_of_no_namesake sound hroot revisits
      Element.repeatsKey (fun _ => false) (fun _ => id) (by simp) route hnamesake
    rw [hexplore, exists_emitted_iff, ← hsame]
    exact exists_occurrence_iff sound hroot route'
  cycles := by
    refine ⟨stops, r, route, hexplore, fun t ht hdecision => ?_⟩
    obtain ⟨r', hstop⟩ := route.stopped_at t ht
    rw [hstop] at hdecision
    obtain ⟨-, hexpandable, hcycle⟩ := Source.decide_eq_cycle.1 hdecision
    exact recurs_of_not_namesake sound hroot (route.chain_root t ht) hexpandable hcycle
      (hnamesake _ (List.mem_map_of_mem ht))

/-- Explorations of a root go by nodes, in both modes, exactly if going by nodes meets no
namesake. -/
theorem exploredByNode_iff (built : g.Built) (hroot : root ∈ g.roots) (limit : Nat) :
    (∀ revisits, g.ExploredByNode revisits limit root) ↔ g.MeetsNoNamesake root := by
  have sound := built.sound
  have hroot := sound.roots root hroot
  constructor
  · intro explored
    obtain ⟨stops, r, route, -, hcycles⟩ := (explored .marked).cycles
    have hnamesake : ∀ p ∈ occurrences stops, ¬ Namesake p := by
      intro p hp hnamesake
      obtain ⟨t, ht, rfl⟩ := List.mem_map.1 hp
      obtain ⟨a, ha, hnode⟩ := hcycles t ht (decision_of_namesake sound hroot route ht hnamesake)
      exact hnamesake.2.2 a ha hnode
    obtain ⟨stops', route', hsame⟩ := exists_route_of_no_namesake sound hroot .compact
      Element.repeatsKey (fun _ => false) (fun _ => id) (by simp) route hnamesake
    exact ⟨stops', r, route', by rwa [hsame]⟩
  · rintro ⟨stops, r, route, hnamesake⟩ revisits
    obtain ⟨stops', route', hsame⟩ := exists_route_of_no_namesake sound hroot revisits
      (fun _ => false) Element.repeatsKey (by simp) (fun _ => id) route hnamesake
    obtain ⟨explored, r', routeExplored, hexplore⟩ :=
      Source.explore_eq_stops revisits (catalog_bounded sound hroot) limit
    obtain ⟨rfl, -⟩ := routeExplored.unique route'
    refine exploredByNode_of_no_namesake sound hroot limit routeExplored hexplore ?_
    rwa [hsame]

/-- Where no node leads to another node of its name there are no namesakes. -/
theorem meetsNoNamesake_of_leads (built : g.Built) (hroot : root ∈ g.roots)
    (hnames : ∀ h h' n n', g.Leads h h' → g.node? h = some n → g.node? h' = some n' →
      n.name = n'.name → h = h') :
    g.MeetsNoNamesake root := by
  have sound := built.sound
  have hroot := sound.roots root hroot
  obtain ⟨stops, r, route, -⟩ := Source.explore_eq_stops .compact
    (Source.bounded_withTest (catalog_bounded sound hroot)) defaultLimit
  refine ⟨stops, r, route, fun p hp hnamesake => ?_⟩
  obtain ⟨t, ht, rfl⟩ := List.mem_map.1 hp
  obtain ⟨-, ⟨a, ha, hkey⟩, hnode⟩ := hnamesake
  have chain : g.catalog.Chain (g.element root []) t.above t.element := by
    refine (route.chain_root t ht).congr ?_
    exact fun _ => rfl
  obtain ⟨reaches, below⟩ := chain.reaches_of_mem ha
  obtain ⟨h, ancestors, hcontains, -, rfl⟩ := exists_handle_of_reaches sound hroot reaches
  obtain ⟨h', ancestors', hcontains', leads, helement⟩ :=
    exists_handle_of_reaches sound hcontains below
  obtain ⟨n, hn⟩ := contains_iff.1 hcontains
  obtain ⟨n', hn'⟩ := contains_iff.1 hcontains'
  rw [helement, key_element hn, key_element hn'] at hkey
  obtain rfl : h = h' := hnames h h' n n' leads hn hn' hkey
  apply hnode _ ha
  rw [helement, node_element hcontains, node_element hcontains]

/-- Two nodes of one name, neither of which leads to the other; `b` leads to itself. -/
def twins : NodeGraph :=
  ⟨#[⟨"r", "", [⟨1, 0⟩, ⟨2, 0⟩]⟩, ⟨"a", "left", [⟨3, 0⟩]⟩, ⟨"a", "right", [⟨3, 0⟩]⟩,
    ⟨"b", "", [⟨3, 0⟩]⟩], [⟨0, 0⟩]⟩

theorem twins_build :
    build [("r", ""), ("a", "left"), ("a", "right"), ("b", "")]
      [(⟨0, 0⟩, ⟨1, 0⟩), (⟨0, 0⟩, ⟨2, 0⟩), (⟨1, 0⟩, ⟨3, 0⟩), (⟨2, 0⟩, ⟨3, 0⟩), (⟨3, 0⟩, ⟨3, 0⟩)]
      [⟨0, 0⟩] = .ok twins := by
  decide +kernel

/-- The nodes to which a node of `twins` leads. -/
def belowTwin : Nat → List Handle
  | 0 => [⟨0, 0⟩, ⟨1, 0⟩, ⟨2, 0⟩, ⟨3, 0⟩]
  | 1 => [⟨1, 0⟩, ⟨3, 0⟩]
  | 2 => [⟨2, 0⟩, ⟨3, 0⟩]
  | _ => [⟨3, 0⟩]

theorem twins_names {h h' : Handle} {n n' : Node} (leads : twins.Leads h h')
    (hn : twins.node? h = some n) (hn' : twins.node? h' = some n') (hname : n.name = n'.name) :
    h = h' := by
  obtain ⟨index, generation⟩ := h
  obtain ⟨hgeneration, hindex⟩ := node?_eq_some.1 hn
  dsimp only at hgeneration hindex
  subst hgeneration
  have hlt : index < 4 := (Array.getElem?_eq_some_iff.1 hindex).1
  have hclosed : ∀ i < 4, ⟨i, 0⟩ ∈ belowTwin i ∧ ∀ h ∈ belowTwin i, ∀ n ∈ twins.node? h,
      ∀ c ∈ n.children, c ∈ belowTwin i := by decide +kernel
  have hnames : ∀ i < 4, ∀ h ∈ belowTwin i,
      (twins.node? ⟨i, 0⟩).map Node.name = (twins.node? h).map Node.name → ⟨i, 0⟩ = h := by
    decide +kernel
  have hbelow := mem_of_leads (hclosed index hlt).2 (hclosed index hlt).1 leads
  exact hnames index hlt h' hbelow (by rw [hn, hn', Option.map_some, Option.map_some, hname])

theorem twins_exploredByNode :
    twins.Built ∧ ⟨0, 0⟩ ∈ twins.roots ∧ twins.MeetsNoNamesake ⟨0, 0⟩ ∧
      ∀ revisits, twins.ExploredByNode revisits 1 ⟨0, 0⟩ := by
  have built : twins.Built := built_of_build twins_build
  have hroot : ⟨0, 0⟩ ∈ twins.roots := by decide
  have hnamesake := meetsNoNamesake_of_leads built hroot fun _ _ _ _ => twins_names
  exact ⟨built, hroot, hnamesake, (exploredByNode_iff built hroot 1).2 hnamesake⟩

/-- A node leads to a node of its name without being it. -/
def namesakes : NodeGraph :=
  ⟨#[⟨"a", "", [⟨1, 0⟩]⟩, ⟨"a", "", [⟨2, 0⟩]⟩, ⟨"b", "", []⟩], [⟨0, 0⟩]⟩

theorem namesakes_build :
    build [("a", ""), ("a", ""), ("b", "")] [(⟨0, 0⟩, ⟨1, 0⟩), (⟨1, 0⟩, ⟨2, 0⟩)] [⟨0, 0⟩] =
      .ok namesakes := by
  decide +kernel

/-- The third node is lost. -/
theorem namesakes_lost :
    namesakes.Built ∧ ⟨0, 0⟩ ∈ namesakes.roots ∧
      ∀ revisits, ¬ namesakes.ExploredByNode revisits defaultLimit ⟨0, 0⟩ := by
  refine ⟨built_of_build namesakes_build, by decide, fun revisits explored => ?_⟩
  have leads : namesakes.Leads ⟨0, 0⟩ ⟨2, 0⟩ := by
    have first : namesakes.Edge ⟨0, 0⟩ ⟨1, 0⟩ := ⟨_, rfl, by decide⟩
    have second : namesakes.Edge ⟨1, 0⟩ ⟨2, 0⟩ := ⟨_, rfl, by decide⟩
    exact (Relation.ReflTransGen.single first).tail second
  have hlost : ¬ ∃ e ∈ namesakes.catalog.explore revisits defaultLimit (namesakes.element ⟨0, 0⟩ []),
      e.item.node = some ⟨2, 0⟩ := by
    cases revisits <;> decide +kernel
  exact hlost ((explored.nodes ⟨2, 0⟩).2 leads)

end NodeGraph

end Hierarchy
