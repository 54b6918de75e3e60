import Hierarchy.Exploration.Walk

/-!
# Exploring with several workers

Each element that may be expanded is a work unit of its own.  A unit first decides about its
element, then adds elements to the result and submits its children, one after the other.  A
decision is one step and so is every addition; the steps of different units interleave in any
order (`Step`).  When no unit is left the result is complete.

`exploreConcurrently` is the run in which units take turns in the order of their submission and
are not interrupted.
-/

namespace Hierarchy

/-- One thing a unit does after its decision. -/
inductive Action (K α : Type) where
  | add (e : Element K α)
  /-- Leaves `e` to a unit of its own. -/
  | spawn (e : Element K α)

inductive WorkUnit (K α : Type) where
  /-- Nothing has been decided about the element yet. -/
  | ready (e : Element K α)
  | busy (actions : List (Action K α))

/-- What the units share, and the units that are not done. -/
structure Workshop (K α ι : Type) where
  units : List (WorkUnit K α)
  progress : Progress K α ι

namespace Source

variable {K α ι : Type} [BEq ι] (s : Source K α ι) (revisits : Revisits)

/-- Elements that cannot be expanded need no unit. -/
def submit (e : Element K α) : Action K α := if e.expandable then .spawn e else .add e

/-- What a unit does about its element, and the ids expanded after it decided. -/
def decideUnit (e : Element K α) (expanded : VisitRecord ι) :
    List (Action K α) × VisitRecord ι :=
  match s.decide revisits e expanded with
  | .emit => ([.add e], expanded)
  | .mark reason => ([.add e, .add (s.marker e reason)], expanded)
  | .expand =>
    let expanded := (expanded.insert (s.id e)).2
    match s.children e with
    | .error cause => ([.add (e.fail cause)], expanded)
    | .ok children => (.add e :: children.map submit, expanded)

/-- The start of an exploration. -/
def opening (root : Element K α) : Workshop K α ι :=
  match submit root with
  | .add e => ⟨[], .empty, [e]⟩
  | .spawn e => ⟨[.ready e], .start⟩

/-- One step of one unit. -/
inductive Step : Workshop K α ι → Workshop K α ι → Prop where
  | decide {before after : List (WorkUnit K α)} {e : Element K α} {p : Progress K α ι} :
      Step ⟨before ++ .ready e :: after, p⟩
        ⟨before ++ .busy (s.decideUnit revisits e p.expanded).1 :: after,
          { p with expanded := (s.decideUnit revisits e p.expanded).2 }⟩
  | add {before after : List (WorkUnit K α)} {e : Element K α} {actions : List (Action K α)}
      {p : Progress K α ι} :
      Step ⟨before ++ .busy (.add e :: actions) :: after, p⟩
        ⟨before ++ .busy actions :: after, { p with emitted := e :: p.emitted }⟩
  | spawn {before after : List (WorkUnit K α)} {e : Element K α} {actions : List (Action K α)}
      {p : Progress K α ι} :
      Step ⟨before ++ .busy (.spawn e :: actions) :: after, p⟩
        ⟨before ++ .busy actions :: after ++ [.ready e], p⟩
  | done {before after : List (WorkUnit K α)} {p : Progress K α ι} :
      Step ⟨before ++ .busy [] :: after, p⟩ ⟨before ++ after, p⟩

/-- Any number of steps. -/
inductive Steps : Workshop K α ι → Workshop K α ι → Prop where
  | refl (w : Workshop K α ι) : Steps w w
  | tail {u v w : Workshop K α ι} : Steps u v → Step s revisits v w → Steps u w

/-! ## Units that are not interrupted -/

/-- The elements added by a unit, latest first, and those it leaves to other units, in order. -/
def perform : List (Action K α) → List (Element K α) × List (Element K α)
  | [] => ([], [])
  | .add e :: actions => let (added, left) := perform actions; (added ++ [e], left)
  | .spawn e :: actions => let (added, left) := perform actions; (added, e :: left)

/-- Runs the units for the elements of a list as long as they leave nothing to others; what the
first other leaves is passed to `onChildren` behind the rest of the list. -/
def serveWith
    (onChildren : List (Element K α) → Progress K α ι → Option (Progress K α ι)) :
    List (Element K α) → Progress K α ι → Option (Progress K α ι)
  | [], p => some p
  | e :: waiting, p =>
    let (actions, expanded) := s.decideUnit revisits e p.expanded
    let (added, left) := perform actions
    let p : Progress K α ι := ⟨expanded, added ++ p.emitted⟩
    match left with
    | [] => serveWith onChildren waiting p
    | _ => onChildren (waiting ++ left) p

def serve : Nat → List (Element K α) → Progress K α ι → Option (Progress K α ι)
  | 0 => s.serveWith revisits fun _ _ => none
  | n + 1 => s.serveWith revisits (serve n)

/-- All elements below `root` and itself, as the units add them. -/
def exploreConcurrently (root : Element K α) : List (Element K α) :=
  let (added, left) := perform [submit root]
  ((s.serve revisits s.bound left ⟨.empty, added⟩).map (·.emitted.reverse)).getD []

end Source

end Hierarchy
