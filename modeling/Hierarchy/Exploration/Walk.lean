import Hierarchy.Exploration.Source
import Hierarchy.Exploration.VisitRecord

/-!
# Exploring depth first

`Source.explore` lists everything below a root, each element before its descendants.  An entity is
expanded where it is met first; an element that leads to it later stands alone, or is followed by a
marker (`Revisits`).

The walk has two forms.  `walk` recurses from an element to its children.  From nesting depth
`limit` on it hands over to `drain`, which keeps the elements still to be visited in a list and
needs no nesting.  Both visit in the same order.

Every visit that expands records a new id, so the number of entities bounds the work; `none` says
that a bound was too small.
-/

namespace Hierarchy

/-- How an element is reported whose entity was expanded elsewhere. -/
inductive Revisits where
  /-- The element alone. -/
  | compact
  /-- The element and a marker. -/
  | marked
  deriving DecidableEq, Repr

/-- What the visit of an element comes to. -/
inductive Decision where
  | emit
  /-- Emit the element and a marker with this reason. -/
  | mark (reason : Failure)
  | expand
  deriving DecidableEq, Repr

/-- The state of an exploration: the ids expanded, and the elements emitted, latest first. -/
structure Progress (K α ι : Type) where
  expanded : VisitRecord ι
  emitted : List (Element K α)

/-- Nothing visited yet. -/
def Progress.start {K α ι : Type} : Progress K α ι := ⟨.empty, []⟩

/-- Nesting depth up to which `walk` recurses, unless told otherwise. -/
def defaultLimit : Nat := 256

namespace Source

variable {K α ι : Type} [BEq ι] (s : Source K α ι) (revisits : Revisits)

def decide (e : Element K α) (expanded : VisitRecord ι) : Decision :=
  if e.expandable then
    if s.onCycle e then
      match revisits with
      | .compact => .emit
      | .marked => .mark .cycle
    else if expanded.contains (s.id e) then
      match revisits with
      | .compact => .emit
      | .marked => .mark .alreadyShown
    else .expand
  else .emit

/-- Visits one element: the state afterwards, and the children that are to be visited next. -/
def visit (e : Element K α) (p : Progress K α ι) : Progress K α ι × List (Element K α) :=
  match s.decide revisits e p.expanded with
  | .emit => ({ p with emitted := e :: p.emitted }, [])
  | .mark reason => ({ p with emitted := s.marker e reason :: e :: p.emitted }, [])
  | .expand =>
    let expanded := (p.expanded.insert (s.id e)).2
    match s.children e with
    | .error cause => (⟨expanded, e.fail cause :: p.emitted⟩, [])
    | .ok children => (⟨expanded, e :: p.emitted⟩, children)

/-- Visits the elements of a list as long as they bring no children.  The first that does is
followed by `onChildren`, applied to its children and the rest of the list. -/
def drainWith
    (onChildren : List (Element K α) → Progress K α ι → Option (Progress K α ι)) :
    List (Element K α) → Progress K α ι → Option (Progress K α ι)
  | [], p => some p
  | e :: pending, p =>
    match s.visit revisits e p with
    | (p, []) => drainWith onChildren pending p
    | (p, children) => onChildren (children ++ pending) p

/-- Visits all that is pending and all below it; at most `n` visits may bring children. -/
def drain : Nat → List (Element K α) → Progress K α ι → Option (Progress K α ι)
  | 0 => s.drainWith revisits fun _ _ => none
  | n + 1 => s.drainWith revisits (drain n)

/-- Visits an element and all below it by recursion, and by `drain` from nesting depth `limit` on;
`n` bounds the nesting. -/
def walk (limit : Nat) : Nat → Nat → Element K α → Progress K α ι → Option (Progress K α ι)
  | 0, _, _, _ => none
  | n + 1, depth, e, p =>
    if limit ≤ depth then s.drain revisits s.bound [e] p
    else
      let (p, children) := s.visit revisits e p
      children.foldlM (fun p c => walk limit n (depth + 1) c p) p

/-- The state in which everything below `root` has been visited. -/
def run (limit : Nat) (root : Element K α) : Option (Progress K α ι) :=
  s.walk revisits limit (s.bound + 1) 0 root .start

/-- All elements below `root` and itself, in the order of the walk. -/
def explore (limit : Nat) (root : Element K α) : List (Element K α) :=
  ((s.run revisits limit root).map (·.emitted.reverse)).getD []

end Source

end Hierarchy
