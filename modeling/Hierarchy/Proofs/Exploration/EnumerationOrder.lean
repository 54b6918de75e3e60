import Hierarchy.Proofs.Exploration.Preorder
import Hierarchy.Proofs.Ranking.Unchanged

/-!
# Explorations are in hierarchy order

An exploration from the top is in pre-order, and so are explorations one behind the other
(`Source.explore_inPreorder`, `InPreorder.flatMap`).  If no path comes twice they are complete and
in hierarchy order, so sorting them by the order in which they were found changes nothing
(`Source.sortHierarchy_explorations`): the order of a hierarchy, without criteria, is the order of
its enumeration.
-/

namespace Hierarchy

namespace Source

variable {K α ι : Type} [BEq ι] [LawfulBEq ι] {s : Source K α ι} {revisits : Revisits}
  {root : Element K α}

/-! ## Explorations -/

theorem explore_inPreorder (bounded : s.Bounded root) (placed : s.Placed root)
    (hroot : root.ancestors = []) (limit : Nat) : InPreorder (s.explore revisits limit root) := by
  obtain ⟨log, r, trace, hexplore⟩ := explore_eq_output revisits bounded limit
  have hpending : ∀ e ∈ [root], s.Reaches root e := by simpa using .root
  intro before x after hsplit
  rw [hexplore] at hsplit
  rcases trace.shows_or_follows placed hpending hsplit with ⟨first, e, last, he, hshows, -⟩ | h
  · have hmem : e ∈ [root] := by
      rw [he]
      simp
    left
    rw [hshows.ancestors, List.mem_singleton.1 hmem, hroot]
  · exact .inr h

/-- Roots at the top are explored one after the other.  If they have different keys, and everything
below them is put in its place under different keys, then what is found is in the order of its
hierarchy already, by its own ranks. -/
theorem sortHierarchy_explorations [DecidableEq K] {roots : List (Element K α)}
    (top : ∀ root ∈ roots, root.ancestors = []) (keys : (roots.map Element.key).Nodup)
    (bounded : ∀ root ∈ roots, s.Bounded root) (placed : ∀ root ∈ roots, s.Placed root)
    (differ : ∀ root ∈ roots, s.SiblingsDiffer root) (revisits : Revisits) (limit : Nat) :
    sortHierarchy (roots.flatMap (s.explore revisits limit)) =
      roots.flatMap (s.explore revisits limit) := by
  have preorder : InPreorder (roots.flatMap (s.explore revisits limit)) :=
    InPreorder.flatMap fun root hroot =>
      explore_inPreorder (bounded root hroot) (placed root hroot) (top root hroot) limit
  have distinct : ((roots.flatMap (s.explore revisits limit)).map Element.path).Nodup :=
    roots_paths_nodup limit bounded placed differ (apart_roots top keys)
  exact sortHierarchy_eq_self preorder.closed (preorder.order distinct)

theorem roundabout_placed (root : Element Char Unit) : roundabout.Placed root where
  children e cs _ _ hcs c hc := by
    obtain ⟨keys, -, rfl⟩ := roundabout_children hcs
    obtain ⟨k, -, rfl⟩ := List.mem_map.1 hc
    rfl
  marker _ _ _ _ := rfl

theorem roundabout_siblingsDiffer (root : Element Char Unit) : roundabout.SiblingsDiffer root := by
  intro e cs _ _ hcs
  obtain ⟨keys, hkeys, rfl⟩ := roundabout_children hcs
  unfold exits at hkeys
  split at hkeys
  · cases hkeys
    simp [Element.plain, Element.key, Position.child]
  · cases hkeys
    simp [Element.plain, Element.key, Position.child]
  · cases hkeys

/-- The second way into `roundabout`. -/
def sideEntrance : Element Char Unit := .plain ⟨[], 'b'⟩ .branch ()

/-- Each way in leads to the other, so that both explorations find the same ids. -/
theorem roundabout_in_order :
    (∀ root ∈ [entrance, sideEntrance], root.ancestors = []) ∧
      ([entrance, sideEntrance].map Element.key).Nodup ∧
      (∀ root ∈ [entrance, sideEntrance], roundabout.Bounded root) ∧
      (∀ root ∈ [entrance, sideEntrance], roundabout.Placed root) ∧
      (∀ root ∈ [entrance, sideEntrance], roundabout.SiblingsDiffer root) ∧
      sortHierarchy ([entrance, sideEntrance].flatMap (roundabout.explore .marked 1)) =
        [entrance, sideEntrance].flatMap (roundabout.explore .marked 1) ∧
      ([entrance, sideEntrance].flatMap (roundabout.explore .marked 1)).map Element.path =
        [['a'], ['a', 'b'], ['a', 'b', 'c'], ['a', 'b', 'a'], ['a', 'b', 'a', '.'], ['a', 'c'],
          ['a', 'c', '.'], ['b'], ['b', 'c'], ['b', 'a'], ['b', 'a', 'b'], ['b', 'a', 'b', '.'],
          ['b', 'a', 'c'], ['b', 'a', 'c', '.']] := by
  have top : ∀ root ∈ [entrance, sideEntrance], root.ancestors = [] := by decide
  have keys : ([entrance, sideEntrance].map Element.key).Nodup := by decide
  have bounded : ∀ root ∈ [entrance, sideEntrance], roundabout.Bounded root :=
    fun root _ => ⟨['a', 'b'], by decide, roundabout_counts root⟩
  have placed : ∀ root ∈ [entrance, sideEntrance], roundabout.Placed root :=
    fun root _ => roundabout_placed root
  have differ : ∀ root ∈ [entrance, sideEntrance], roundabout.SiblingsDiffer root :=
    fun root _ => roundabout_siblingsDiffer root
  exact ⟨top, keys, bounded, placed, differ,
    sortHierarchy_explorations top keys bounded placed differ .marked 1, by decide⟩

end Source

end Hierarchy
