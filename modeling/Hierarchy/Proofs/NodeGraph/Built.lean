import Hierarchy.NodeGraph
import Hierarchy.Proofs.Outcomes
import Mathlib.Logic.Relation

/-!
# Graphs as they are built

A graph grows from the empty one by nodes, edges and roots (`NodeGraph.Built`); what is refused
leaves it as it is.  Nodes stay, so handles stay good: every handle that a graph stores belongs to
one of its nodes (`Built.sound`).
-/

namespace Hierarchy

namespace NodeGraph

variable {g g' : NodeGraph} {h parent child node : Handle} {n : Node}

/-- The graphs that can be built. -/
inductive Built : NodeGraph → Prop where
  | empty : Built empty
  | addNode {g : NodeGraph} (name value : String) (built : Built g) :
      Built (g.addNode name value).2
  | addChild {g g' : NodeGraph} {parent child : Handle} (built : Built g)
      (h : g.addChild parent child = .ok g') : Built g'
  | addRoot {g g' : NodeGraph} {node : Handle} (built : Built g) (h : g.addRoot node = .ok g') :
      Built g'

/-- No stored handle leads nowhere. -/
structure Sound (g : NodeGraph) : Prop where
  children : ∀ h n, g.node? h = some n → ∀ c ∈ n.children, g.contains c
  roots : ∀ h ∈ g.roots, g.contains h

/-! ## What a change does -/

theorem contains_iff : g.contains h ↔ ∃ n, g.node? h = some n := Option.isSome_iff_exists

theorem node?_eq_some : g.node? h = some n ↔ h.generation = 0 ∧ g.nodes[h.index]? = some n := by
  unfold node?
  split <;> simp [*]

theorem node?_addNode {name value : String} :
    (g.addNode name value).2.node? h =
      if h = ⟨g.size, 0⟩ then some ⟨name, value, []⟩ else g.node? h := by
  obtain ⟨index, generation⟩ := h
  unfold node? addNode size
  by_cases hgeneration : generation = 0
  · by_cases hindex : index = g.nodes.size
    · simp [hgeneration, hindex]
    · simp [hgeneration, hindex, Array.getElem?_push]
  · simp [hgeneration]

theorem addChild_eq_ok (h : g.addChild parent child = .ok g') :
    g.contains child ∧ g.contains parent ∧
      g' = { g with nodes :=
        g.nodes.modify parent.index fun n => { n with children := n.children ++ [child] } } := by
  unfold addChild at h
  split at h
  · cases h
  split at h
  · cases h
  cases h
  simp_all

theorem addRoot_eq_ok (h : g.addRoot node = .ok g') :
    g.contains node ∧ g' = { g with roots := g.roots ++ [node] } := by
  unfold addRoot at h
  split at h
  · cases h
    exact ⟨‹_›, rfl⟩
  · cases h

/-- An edge changes the children of one node. -/
theorem node?_addChild (hadd : g.addChild parent child = .ok g') :
    g'.node? h = (g.node? h).map fun n =>
      if h = parent then { n with children := n.children ++ [child] } else n := by
  obtain ⟨-, hparent, rfl⟩ := addChild_eq_ok hadd
  obtain ⟨_, hparent⟩ := contains_iff.1 hparent
  obtain ⟨hparent, -⟩ := node?_eq_some.1 hparent
  obtain ⟨index, generation⟩ := h
  obtain ⟨index', generation'⟩ := parent
  subst hparent
  unfold node?
  by_cases hgeneration : generation = 0
  · by_cases hindex : index' = index
    · simp [hgeneration, hindex, Array.getElem?_modify]
    · simp [hgeneration, hindex, Ne.symm hindex, Array.getElem?_modify]
  · simp [hgeneration]

/-! ## Stored handles -/

theorem contains_addNode {name value : String} (hcontains : g.contains h) :
    (g.addNode name value).2.contains h := by
  rw [contains, node?_addNode]
  split
  · rfl
  · exact hcontains

theorem contains_addChild (hadd : g.addChild parent child = .ok g') :
    g'.contains h = g.contains h := by
  rw [contains, node?_addChild hadd, Option.isSome_map, contains]

theorem sound_empty : Sound empty where
  children h n hn := by simpa [empty] using (node?_eq_some.1 hn).2
  roots h hroot := by simp [empty] at hroot

theorem Sound.addNode (sound : Sound g) (name value : String) :
    Sound (g.addNode name value).2 where
  children h n hn c hc := by
    rw [node?_addNode] at hn
    split at hn
    · cases hn
      cases hc
    · exact contains_addNode (sound.children h n hn c hc)
  roots h hroot := contains_addNode (sound.roots h hroot)

theorem Sound.addChild (sound : Sound g) (hadd : g.addChild parent child = .ok g') :
    Sound g' where
  children h n hn c hc := by
    rw [contains_addChild hadd]
    rw [node?_addChild hadd] at hn
    obtain ⟨m, hm, rfl⟩ := Option.map_eq_some_iff.1 hn
    split at hc
    · rcases List.mem_append.1 hc with hc | hc
      · exact sound.children h m hm c hc
      · rw [List.mem_singleton.1 hc]
        exact (addChild_eq_ok hadd).1
    · exact sound.children h m hm c hc
  roots h hroot := by
    rw [contains_addChild hadd]
    obtain ⟨-, -, rfl⟩ := addChild_eq_ok hadd
    exact sound.roots h hroot

theorem Sound.addRoot (sound : Sound g) (hadd : g.addRoot node = .ok g') : Sound g' := by
  obtain ⟨hnode, rfl⟩ := addRoot_eq_ok hadd
  refine ⟨sound.children, fun h hroot => ?_⟩
  rcases List.mem_append.1 hroot with hroot | hroot
  · exact sound.roots h hroot
  · rw [List.mem_singleton.1 hroot]
    exact hnode

theorem Built.sound (built : Built g) : Sound g := by
  induction built with
  | empty => exact sound_empty
  | addNode name value _ ih => exact ih.addNode name value
  | addChild _ hadd ih => exact ih.addChild hadd
  | addRoot _ hadd ih => exact ih.addRoot hadd

/-! ## Graphs from lists -/

theorem Built.foldl_addNode (built : Built g) (nodes : List (String × String)) :
    Built (nodes.foldl (fun g n => (g.addNode n.1 n.2).2) g) := by
  induction nodes generalizing g with
  | nil => exact built
  | cons n nodes ih => exact ih (built.addNode n.1 n.2)

/-- Changes that keep graphs built can be made in turn. -/
theorem Built.foldlM {β : Type} {f : NodeGraph → β → Except Failure NodeGraph}
    (hf : ∀ g g' x, Built g → f g x = .ok g' → Built g') {xs : List β} (built : Built g)
    (h : xs.foldlM f g = .ok g') : Built g' := by
  induction xs generalizing g with
  | nil =>
    cases h
    exact built
  | cons x xs ih =>
    rw [List.foldlM_cons] at h
    obtain ⟨next, hx, h⟩ := eq_ok_of_bind h
    exact ih (hf g next x built hx) h

theorem built_of_build {nodes : List (String × String)} {edges : List (Handle × Handle)}
    {roots : List Handle} (h : build nodes edges roots = .ok g) : Built g := by
  obtain ⟨next, hedges, h⟩ := eq_ok_of_bind h
  have hnodes := Built.empty.foldl_addNode nodes
  have hnext := hnodes.foldlM (fun _ _ _ built hadd => built.addChild hadd) hedges
  exact hnext.foldlM (fun _ _ _ built hadd => built.addRoot hadd) h

/-! ## Edges -/

/-- A node is among the children of another. -/
def Edge (g : NodeGraph) (h c : Handle) : Prop := ∃ n, g.node? h = some n ∧ c ∈ n.children

/-- A way of edges leads from one node to another, which may be the same. -/
def Leads (g : NodeGraph) : Handle → Handle → Prop := Relation.ReflTransGen g.Edge

theorem Sound.contains_of_edge (sound : Sound g) {c : Handle} (edge : g.Edge h c) :
    g.contains c := by
  obtain ⟨n, hn, hc⟩ := edge
  exact sound.children h n hn c hc

theorem Sound.contains_of_leads (sound : g.Sound) {root : Handle} (hroot : g.contains root)
    (leads : g.Leads root h) : g.contains h := by
  cases leads with
  | refl => exact hroot
  | tail _ edge => exact sound.contains_of_edge edge

/-- What is closed under edges is not left. -/
theorem mem_of_leads {handles : List Handle}
    (hclosed : ∀ h ∈ handles, ∀ n ∈ g.node? h, ∀ c ∈ n.children, c ∈ handles)
    {start : Handle} (hstart : start ∈ handles) (leads : g.Leads start h) : h ∈ handles := by
  induction leads with
  | refl => exact hstart
  | @tail h c _ edge ih =>
    obtain ⟨n, hn, hc⟩ := edge
    exact hclosed h ih n hn c hc

end NodeGraph

end Hierarchy
