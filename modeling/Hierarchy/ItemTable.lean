import Hierarchy.Pipeline

/-!
# Hierarchies written down item by item

An item table names items and says for each what it leads to.  A name without an entry is a leaf.
Unlike in a graph, an item may be shown under another key than its name, may stand for the same
entity as another item, and may refuse to list its children.
-/

namespace Hierarchy

/-- The entry of one name. -/
structure ItemEntry where
  /-- The names of the children; none if nothing is said about children. -/
  children : Option (List String)
  /-- Why the children cannot be listed. -/
  broken : Option String
  kind : Option Kind
  /-- The key under which the item is shown, unless its name. -/
  key : Option String
  /-- The entity behind the item, unless its name. -/
  entity : Option String
  failure : Option Failure
  label : Option String
  shown : Bool
  size : String

def ItemEntry.empty : ItemEntry := ⟨none, none, none, none, none, none, none, true, ""⟩

structure ItemTable where
  entries : List (String × ItemEntry)

namespace ItemTable

/-- What the source knows about an element: the name of its item, and its size as text. -/
structure Item where
  name : String
  size : String
  deriving DecidableEq, Repr

abbrev TableElement := Element String Item

def entry (t : ItemTable) (name : String) : ItemEntry := (t.entries.lookup name).getD .empty

/-- Items with children, or with a reason for having none, are branches unless told otherwise. -/
def kind (e : ItemEntry) : Kind :=
  e.kind.getD (if e.children.isSome || e.broken.isSome then .branch else .leaf)

/-- The occurrence of an item below `ancestors`. -/
def element (t : ItemTable) (ancestors : List String) (name : String) : TableElement :=
  let e := t.entry name
  { position := ⟨ancestors, e.key.getD name⟩, kind := kind e, failure := e.failure,
    label := e.label, shown := e.shown, item := ⟨name, e.size⟩ }

def children (t : ItemTable) (e : TableElement) : Except Failure (List TableElement) :=
  let entry := t.entry e.item.name
  match entry.broken with
  | some message => .error (.listing (e.position.text "/") message)
  | none => .ok ((entry.children.getD []).map (t.element e.path))

def marker (e : TableElement) (reason : Failure) : TableElement :=
  (Element.plain (e.position.child "...") .inserted ⟨"...", ""⟩).fail reason

def headers : OutputMode → List String
  | .table => ["NAME", "ERROR"]
  | _ => ["NAME", "-SIZE", "ERROR"]

def cells : OutputMode → TableElement → List String
  | .table, e => [e.position.text "/", e.failureText]
  | .tree, e => [e.key, e.item.size, e.failureText]
  | _, e => [e.position.text "/", e.item.size, e.failureText]

def manifest (e : TableElement) : Document :=
  .record [("name", .text (e.position.text "/")), ("size", .text e.item.size)]

def catalog (t : ItemTable) : Catalog String Item String where
  id e := (t.entry e.item.name).entity.getD e.item.name
  children := t.children
  marker := marker
  onCycle := Element.repeatsKey
  bound := t.entries.length
  roots specs _ := specs.map (t.element [])
  orders := [("size", numberOrder)]
  headers := headers
  cells := cells
  manifest := manifest

end ItemTable

end Hierarchy
