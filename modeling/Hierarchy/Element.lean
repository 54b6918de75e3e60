import Hierarchy.Failure
import Hierarchy.Trail

/-!
# Positions and elements

A position is a non-empty sequence of keys, root first: the keys of the ancestors and the own key.
An element is what stands at a position; `item` is whatever its source knows about it.
-/

namespace Hierarchy

/-- Where an element stands: the keys of its ancestors, root first, and its own key. -/
structure Position (K : Type) where
  ancestors : Trail K
  key : K
  deriving DecidableEq, Repr

namespace Position

variable {K : Type}

/-- The ancestors' keys followed by the own key. -/
def path (p : Position K) : Trail K := p.ancestors.add p.key

def depth (p : Position K) : Nat := p.ancestors.length

/-- The position of `key` one level below. -/
def child (p : Position K) (key : K) : Position K := ⟨p.path, key⟩

/-- The position with a given path; the empty path has none. -/
def ofPath? (path : Trail K) : Option (Position K) :=
  path.getLast?.map fun key => ⟨path.dropLast, key⟩

@[simp] theorem path_child (p : Position K) (key : K) : (p.child key).path = p.path ++ [key] := rfl

@[simp] theorem ancestors_child (p : Position K) (key : K) : (p.child key).ancestors = p.path := rfl

@[simp] theorem length_path (p : Position K) : p.path.length = p.depth + 1 := by
  simp [path, depth, Trail.add]

@[simp] theorem ofPath?_path (p : Position K) : ofPath? p.path = some p := by
  simp [ofPath?, path, Trail.add]

theorem path_injective {p q : Position K} (h : p.path = q.path) : p = q := by
  have := congrArg ofPath? h
  simpa using this

/-- The path as text. -/
def text (p : Position String) (separator : String) : String := p.path.joined separator

end Position

/-- What an element can do in a hierarchy. -/
inductive Kind where
  /-- It has no children. -/
  | leaf
  /-- It may have children. -/
  | branch
  /-- It was put in while exploring and stands for nothing of the source. -/
  | inserted
  deriving DecidableEq, Repr

structure Element (K α : Type) where
  position : Position K
  kind : Kind
  failure : Option Failure
  /-- Shown after the connectors of a tree row, unless empty. -/
  label : Option String
  /-- Elements that are not shown get no tree row. -/
  shown : Bool
  item : α
  deriving DecidableEq, Repr

namespace Element

variable {K α : Type}

def key (e : Element K α) : K := e.position.key

def ancestors (e : Element K α) : Trail K := e.position.ancestors

def path (e : Element K α) : Trail K := e.position.path

/-- The key under which children of the element appear, if it may have any. -/
def branchKey? (e : Element K α) : Option K :=
  match e.kind with
  | .branch => some e.key
  | .leaf | .inserted => none

/-- Children are listed only for branches without a failure. -/
def expandable (e : Element K α) : Bool := e.failure.isNone && e.kind == .branch

/-- The element with a failure recorded, in place of an earlier one. -/
def fail (e : Element K α) (cause : Failure) : Element K α := { e with failure := some cause }

/-- The text of the recorded failure, empty if there is none. -/
def failureText (e : Element K α) : String := (e.failure.map Failure.message).getD ""

/-- An element without failure and label. -/
def plain (position : Position K) (kind : Kind) (item : α) : Element K α :=
  { position, kind, failure := none, label := none, shown := true, item }

@[simp] theorem position_fail (e : Element K α) (f : Failure) : (e.fail f).position = e.position :=
  rfl

@[simp] theorem expandable_fail (e : Element K α) (f : Failure) : (e.fail f).expandable = false :=
  rfl

end Element

end Hierarchy
