import Hierarchy.Proofs.Exploration.Reach

/-!
# Nesting limits

Down to its nesting limit an exploration recurses and passes its record from call to call; deeper
down it keeps all that is pending in one list and decides about it later.  Each decision hangs on
the record of its moment, so both forms agree only if they come to every element with the same
record.  They do: there is one way through what is pending (`Visited.unique`), so from any state
the recursion ends where the list would have ended (`walk_eq_drain`), and the limit does not matter
(`explore_eq_of_limits`).
-/

namespace Hierarchy

namespace Source

variable {K α ι : Type} [BEq ι] {s : Source K α ι} {revisits : Revisits}
  {root e : Element K α} {pending : List (Element K α)} {p q q' : Progress K α ι}

/-- What is pending determines the state in which it has been visited. -/
theorem Visited.unique (h : s.Visited revisits pending p q) (h' : s.Visited revisits pending p q') :
    q = q' := by
  obtain ⟨log, trace, hemitted⟩ := h
  obtain ⟨log', trace', hemitted'⟩ := h'
  obtain ⟨rfl, hexpanded⟩ := trace.unique trace'
  obtain ⟨expanded, emitted⟩ := q
  obtain ⟨expanded', emitted'⟩ := q'
  obtain rfl : expanded = expanded' := hexpanded
  obtain rfl : emitted = emitted' := hemitted.trans hemitted'.symm
  rfl

variable [LawfulBEq ι] {ids : List ι} {n : Nat}

/-- From any state and at any depth, recursion and work list come to the same. -/
theorem walk_eq_drain (hids : s.Counts ids root) (hbound : ids.length ≤ s.bound) (limit depth : Nat)
    (he : s.Reaches root e) (hn : p.expanded.missing ids < n) :
    s.walk revisits limit n depth e p = s.drain revisits s.bound [e] p := by
  have hmissing : p.expanded.missing ids ≤ s.bound := Nat.le_trans List.countP_le_length hbound
  have hpending : ∀ c ∈ [e], s.Reaches root c := by simpa using he
  obtain ⟨q, hwalk, hvisited⟩ : ∃ q, s.walk revisits limit n depth e p = some q ∧
    s.Visited revisits [e] p q := walk_visited hids hbound limit he hn
  obtain ⟨q', hdrain, hvisited'⟩ : ∃ q', s.drain revisits s.bound [e] p = some q' ∧
    s.Visited revisits [e] p q' := drain_visited hids hpending hmissing
  rw [hwalk, hdrain, hvisited.unique hvisited']

/-- With any limit an exploration ends where the work list alone would have ended. -/
theorem run_eq_drain (revisits : Revisits) (bounded : s.Bounded root) (limit : Nat) :
    s.run revisits limit root = s.drain revisits s.bound [root] .start := by
  obtain ⟨ids, hbound, hids⟩ := bounded
  have hmissing : VisitRecord.empty.missing ids < s.bound + 1 :=
    Nat.lt_succ_of_le (Nat.le_trans List.countP_le_length hbound)
  exact walk_eq_drain hids hbound limit 0 .root hmissing

/-- An exploration comes to its end with any two limits, in the same state: with the same ids
expanded and the same elements emitted, in one order. -/
theorem explore_eq_of_limits (revisits : Revisits) (bounded : s.Bounded root) (limit limit' : Nat) :
    ∃ p, s.run revisits limit root = some p ∧ s.run revisits limit' root = some p ∧
      s.explore revisits limit root = s.explore revisits limit' root := by
  obtain ⟨p, hrun, -⟩ := run_visited revisits bounded limit
  have hsame : s.run revisits limit root = s.run revisits limit' root := by
    rw [run_eq_drain revisits bounded, run_eq_drain revisits bounded]
  refine ⟨p, hrun, hsame ▸ hrun, ?_⟩
  unfold explore
  rw [hsame]

/-- By the work list alone, and by recursion down to its second level. -/
theorem roundabout_limits :
    roundabout.Bounded entrance ∧
      (∃ p, roundabout.run .marked 0 entrance = some p ∧
        roundabout.run .marked 2 entrance = some p ∧
        roundabout.explore .marked 0 entrance = roundabout.explore .marked 2 entrance) ∧
      (roundabout.explore .marked 2 entrance).map Element.key =
        ['a', 'b', 'c', 'a', '.', 'c', '.'] :=
  ⟨roundabout_bounded, explore_eq_of_limits .marked roundabout_bounded 0 2, by decide⟩

end Source

end Hierarchy
