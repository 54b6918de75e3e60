import Hierarchy.Element
import Hierarchy.Sorting

/-!
# The order of a hierarchy

A ranking lists paths; the rank of a path is the place where it occurs last.  Two paths compare by
the ranks of the first prefixes in which they differ, and if one is a prefix of the other the
shorter comes first.  So ancestors come before descendants, and siblings follow the list.

`compare?` fails when it needs the rank of a path that is not listed.  `compare` never fails: a
path that is not listed counts as the first.
-/

namespace Hierarchy

structure Ranking (K : Type) where
  /-- The listed paths; a later occurrence of a path counts in place of an earlier one. -/
  paths : List (List K)

/-- The first level at which two paths differ; none if one is a prefix of the other. -/
def firstDivergence {K : Type} [DecidableEq K] : List K → List K → Option Nat
  | a :: as, b :: bs => if a = b then (firstDivergence as bs).map (· + 1) else some 0
  | _, _ => none

/-- The last place of `x` in a list. -/
def lastIndex? {β : Type} [DecidableEq β] (x : β) : List β → Option Nat
  | [] => none
  | y :: ys =>
    match lastIndex? x ys with
    | some i => some (i + 1)
    | none => if y = x then some 0 else none

namespace Ranking

variable {K α : Type} [DecidableEq K] (r : Ranking K)

def ofElements (elements : List (Element K α)) : Ranking K := ⟨elements.map Element.path⟩

def rank? (path : List K) : Option Nat := lastIndex? path r.paths

/-- The number of different paths. -/
def size : Nat := r.paths.eraseDups.length

def isEmpty : Bool := r.paths.isEmpty

/-- The rank of a path that has to be listed. -/
def required (path : List K) : Except (List K) Nat :=
  match r.rank? path with
  | some rank => .ok rank
  | none => .error path

/-- The order of two paths, or the first path whose rank is missing. -/
def compare? (a b : List K) : Except (List K) Ordering :=
  match firstDivergence a b with
  | some level => do
    let rankA ← r.required (a.take (level + 1))
    let rankB ← r.required (b.take (level + 1))
    return Ord.compare rankA rankB
  | none => .ok (Ord.compare a.length b.length)

def compare (a b : List K) : Ordering :=
  match firstDivergence a b with
  | some level =>
    Ord.compare ((r.rank? (a.take (level + 1))).getD 0) ((r.rank? (b.take (level + 1))).getD 0)
  | none => Ord.compare a.length b.length

/-- Sorts elements by their paths and keeps the order of those that compare equal. -/
def sort (elements : List (Element K α)) : List (Element K α) :=
  sortBy (fun a b => r.compare a.path b.path) elements

end Ranking

/-- Sorts elements into the order of their hierarchy, with their present order as the ranking. -/
def sortHierarchy {K α : Type} [DecidableEq K] (elements : List (Element K α)) :
    List (Element K α) :=
  (Ranking.ofElements elements).sort elements

/-- The failure for a path without a rank. -/
def unrankedFailure (path : List String) : Failure := .unranked ("/".intercalate path)

end Hierarchy
