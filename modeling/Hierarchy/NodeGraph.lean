import Hierarchy.Pipeline

/-!
# Graphs of named nodes

Nodes are kept in the order of their insertion and known by handles.  Edges may form cycles and
nodes may have several parents.  An edge or a root is refused unless its handles belong to nodes
of the graph, so no handle that the graph stores leads nowhere.
-/

namespace Hierarchy

/-- Names a place for nodes and the how-manieth node at that place. -/
structure Handle where
  index : Nat
  generation : Nat
  deriving DecidableEq, Repr

def Handle.text (h : Handle) : String :=
  "Index \x7b index: " ++ toString h.index ++ ", generation: " ++ toString h.generation ++ " \x7d"

structure Node where
  name : String
  value : String
  children : List Handle
  deriving DecidableEq, Repr

structure NodeGraph where
  nodes : Array Node
  roots : List Handle
  deriving DecidableEq, Repr

namespace NodeGraph

def empty : NodeGraph := ⟨#[], []⟩

/-- The node behind a handle.  Nodes are never removed, so every place holds its first node. -/
def node? (g : NodeGraph) (h : Handle) : Option Node :=
  if h.generation = 0 then g.nodes[h.index]? else none

def contains (g : NodeGraph) (h : Handle) : Bool := (g.node? h).isSome

def size (g : NodeGraph) : Nat := g.nodes.size

/-- Adds a node without children and gives its handle. -/
def addNode (g : NodeGraph) (name value : String) : Handle × NodeGraph :=
  (⟨g.nodes.size, 0⟩, { g with nodes := g.nodes.push ⟨name, value, []⟩ })

/-- Adds an edge behind the edges of `parent`. -/
def addChild (g : NodeGraph) (parent child : Handle) : Except Failure NodeGraph :=
  if !g.contains child then .error (.unknownNode child.text)
  else if !g.contains parent then .error (.unknownNode parent.text)
  else
    .ok { g with nodes :=
      g.nodes.modify parent.index fun n => { n with children := n.children ++ [child] } }

/-- Makes a node one of the places where an exploration may start. -/
def addRoot (g : NodeGraph) (node : Handle) : Except Failure NodeGraph :=
  if g.contains node then .ok { g with roots := g.roots ++ [node] }
  else .error (.unknownNode node.text)

/-- The first root with this name. -/
def root? (g : NodeGraph) (name : String) : Option Handle :=
  g.roots.find? fun h => (g.node? h).any (·.name == name)

/-! ## Elements of a graph -/

/-- What the source knows about an element: its node, and the node's value. -/
structure Item where
  node : Option Handle
  value : String
  deriving DecidableEq, Repr

abbrev GraphElement := Element String Item

/-- The element for a name without a node. -/
def unknown (name : String) : GraphElement :=
  (Element.plain ⟨[], name⟩ .leaf ⟨none, ""⟩).fail (.unknownNode name)

/-- The occurrence of a node below `ancestors`. -/
def element (g : NodeGraph) (h : Handle) (ancestors : List String) : GraphElement :=
  match g.node? h with
  | some n =>
    .plain ⟨ancestors, n.name⟩ (if n.children.isEmpty then .leaf else .branch) ⟨h, n.value⟩
  | none => unknown h.text

/-- The element that a user names: the root of that name. -/
def named (g : NodeGraph) (name : String) : GraphElement :=
  match g.root? name with
  | some h => g.element h []
  | none => unknown name

/-- The key of markers. -/
def markerKey : String := "..."

def marker (e : GraphElement) (reason : Failure) : GraphElement :=
  (Element.plain (e.position.child markerKey) .inserted ⟨none, ""⟩).fail reason

def children (g : NodeGraph) (e : GraphElement) : Except Failure (List GraphElement) :=
  match e.item.node.bind g.node? with
  | some n => .ok (n.children.map fun h => g.element h e.path)
  | none => .error (.unknownNode e.key)

def headers : OutputMode → List String
  | .table => ["NAME", "ERROR"]
  | _ => ["NAME", "VALUE", "ERROR"]

def cells : OutputMode → GraphElement → List String
  | .table, e => [e.position.text "/", e.failureText]
  | .tree, e => [e.key, e.item.value, e.failureText]
  | _, e => [e.position.text "/", e.item.value, e.failureText]

def manifest (e : GraphElement) : Document :=
  .record <|
    (match e.failure with
      | some cause => [("error", .text cause.message)]
      | none => []) ++
    [("name", .text e.key)] ++
    (if e.ancestors.isEmpty then [] else [("path", .text ("/".intercalate e.ancestors))]) ++
    [("value", .text e.item.value)]

/-- A graph as a source: entities are its nodes, and a key among the ancestors is a cycle. -/
def catalog (g : NodeGraph) : Catalog String Item (Option Handle) where
  id e := e.item.node
  children := g.children
  marker := marker
  onCycle := Element.repeatsKey
  bound := g.size
  roots specs _ := if specs.isEmpty then g.roots.map (g.element · []) else specs.map g.named
  orders := []
  headers := headers
  cells := cells
  manifest := manifest

/-! ## A sample -/

/-- Builds a graph from nodes, edges and roots; the first handle that is not a node's fails. -/
def build (nodes : List (String × String)) (edges : List (Handle × Handle)) (roots : List Handle) :
    Except Failure NodeGraph := do
  let g := nodes.foldl (fun g n => (g.addNode n.1 n.2).2) empty
  let g ← edges.foldlM (fun g e => g.addChild e.1 e.2) g
  roots.foldlM addRoot g

/-- A graph with a cycle (b leads to c) and shared nodes (d and e). -/
def sample : Except Failure NodeGraph :=
  let h (i : Nat) : Handle := ⟨i, 0⟩
  build [("a", "alice"), ("b", "bob"), ("c", "charly"), ("d", "david"), ("e", "eve")]
    [(h 0, h 3), (h 0, h 4), (h 1, h 3), (h 2, h 1), (h 2, h 0), (h 2, h 4), (h 4, h 3), (h 1, h 2)]
    [h 2]

end NodeGraph

end Hierarchy
