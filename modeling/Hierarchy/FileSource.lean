import Hierarchy.FileTree.Resolve
import Hierarchy.NativePath
import Hierarchy.Pipeline

/-!
# Files as a source

Directories are branches, everything else is a leaf.  An element is located by its keys, so links
make many paths to one directory; its identity is the place that its path resolves to.  Names may
repeat along a path without a cycle: only a directory at the place of one of its ancestors is one.

The attributes of a file are read once, when its element is made.
-/

namespace Hierarchy

/-- The attributes of a file. -/
structure FileInfo where
  size : Nat
  mode : String
  isDirectory : Bool
  /-- The time of the last change, in nanoseconds, unless it lies before the epoch. -/
  modified : Option Nat
  deriving DecidableEq, Repr

def FileInfo.ofNode (n : FileNode) : FileInfo where
  size := n.size
  mode := n.modeText
  isDirectory := n.isDirectory
  modified := if 0 ≤ n.modified then some n.modified.toNat else none

/-- The identity of a file: its place, or the path that leads nowhere. -/
inductive FileId where
  | resolved (p : Place)
  | unresolved (path : String)
  deriving DecidableEq, Repr

def FileId.text : FileId → String
  | resolved p => FileTree.placePath p
  | unresolved path => path

structure FileSource where
  tree : FileTree
  /-- Where the paths that a user names start. -/
  base : String
  /-- Named directories are shown themselves, not what they hold. -/
  listDirectories : Bool

namespace FileSource

/-- What the source knows about an element. -/
structure Item where
  path : String
  info : Option FileInfo
  deriving DecidableEq, Repr

abbrev FileElement := Element String Item

/-- The path of a sequence of keys. -/
def pathOf (s : FileSource) (keys : Trail String) : String :=
  NativePath.push s.base (NativePath.join keys)

/-- The element for a name below `ancestors`. -/
def element (s : FileSource) (ancestors : Trail String) (name : String) : FileElement :=
  let position : Position String := ⟨ancestors, name⟩
  let path := s.pathOf position.path
  match s.tree.find path with
  | .ok node =>
    .plain position (if node.isDirectory then .branch else .leaf) ⟨path, some (.ofNode node)⟩
  | .error e =>
    (Element.plain position .leaf ⟨path, none⟩).fail (.attributes (position.text "/") e.text)

/-- The identity of the file at a path. -/
def idOf (s : FileSource) (path : String) : FileId :=
  match s.tree.locate path true with
  | .ok p => .resolved p
  | .error _ => .unresolved path

def children (s : FileSource) (e : FileElement) : Except Failure (List FileElement) :=
  match s.tree.list e.item.path with
  | .ok names => .ok (names.map fun name => s.element e.path (Text.ofUtf8 name))
  | .error cause =>
    .error (.listing (e.position.text "/")
      ("IO error for operation on " ++ e.item.path ++ ": " ++ cause.text))

def marker (e : FileElement) (reason : Failure) : FileElement :=
  (Element.plain (e.position.child "...") .inserted ⟨e.item.path, none⟩).fail reason

/-- Whether an element stands at the place of one of its ancestors. -/
def onCycle (s : FileSource) (e : FileElement) : Bool :=
  let id := s.idOf e.item.path
  (List.range e.ancestors.length).any fun n =>
    match s.tree.locate (s.pathOf (e.ancestors.take (n + 1))) true with
    | .ok p => id == .resolved p
    | .error _ => false

/-- The keys of an element as one path. -/
def shownPath (e : FileElement) : String := NativePath.join e.path

def headers : OutputMode → List String
  | .table => ["NAME", "ERROR"]
  | _ => ["MODE", "NAME", "-SIZE", "ERROR"]

def modeText (e : FileElement) : String := (e.item.info.map (·.mode)).getD ""

def sizeText (e : FileElement) : String := (e.item.info.map fun info => toString info.size).getD ""

def cells : OutputMode → FileElement → List String
  | .table, e => [shownPath e, e.failureText]
  | .tree, e => [modeText e, e.key, sizeText e, e.failureText]
  | _, e => [modeText e, shownPath e, sizeText e, e.failureText]

def manifest (e : FileElement) : Document :=
  let failure := match e.failure with
    | some cause => [("error", Document.text cause.message)]
    | none => []
  let mode := match e.item.info with
    | some info => [("mode", Document.text info.mode)]
    | none => []
  let modified := match e.item.info.bind (·.modified) with
    | some time => [("modtime", Document.text (toString time))]
    | none => []
  let ancestors :=
    if e.ancestors.isEmpty then [] else [("path", Document.text ("/".intercalate e.ancestors))]
  let size := match e.item.info with
    | some info => [("size", Document.int info.size)]
    | none => []
  .record (failure ++ mode ++ modified ++ [("name", .text e.key)] ++ ancestors ++ size)

/-- The elements for one named path: what a directory holds, or the file itself. -/
def namedElements (s : FileSource) (exploring : Bool) (name : String) : List FileElement :=
  let e := s.element [] name
  if exploring || s.listDirectories || !e.expandable then [e]
  else match s.children e with
    | .ok children => children
    | .error cause => [e.fail cause]

def catalog (s : FileSource) : Catalog String Item FileId where
  id e := s.idOf e.item.path
  children := s.children
  marker := marker
  onCycle := s.onCycle
  bound := s.tree.directories
  roots specs exploring := specs.flatMap (s.namedElements exploring)
  orders := [("size", numberOrder)]
  headers := headers
  cells := cells
  manifest := manifest

end FileSource

end Hierarchy
