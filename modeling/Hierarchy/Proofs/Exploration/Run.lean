import Hierarchy.Proofs.Exploration.Chain
import Hierarchy.Proofs.Exploration.Trace

/-!
# Running through a trace

Recursion and work list are two ways to run through one trace.  Neither stops halfway: a visit that
lists children records one more of the ids that `Source.Bounded` counts, so the bounds of `drain`
and `walk` are never used up.  Hence `explore` emits the output of a trace, the same for each limit
(`explore_eq_output`).
-/

namespace Hierarchy

namespace Source

variable {K α ι : Type} [BEq ι] {s : Source K α ι} {revisits : Revisits}

/-! ## Runs -/

variable (s revisits) in
/-- From `p` to `p'` the pending elements and all below them are visited. -/
def Visited (pending : List (Element K α)) (p p' : Progress K α ι) : Prop :=
  ∃ log, s.Trace revisits pending p.expanded log p'.expanded ∧
    p'.emitted = (log.flatMap s.output).reverse ++ p.emitted

variable {e root : Element K α} {pending pending' children : List (Element K α)}
  {p q p' : Progress K α ι}

theorem Visited.nil : s.Visited revisits [] p p := ⟨[], .done p.expanded, rfl⟩

theorem Visited.append (h₁ : s.Visited revisits pending p q)
    (h₂ : s.Visited revisits pending' q p') : s.Visited revisits (pending ++ pending') p p' := by
  obtain ⟨log₁, trace₁, hemitted₁⟩ := h₁
  obtain ⟨log₂, trace₂, hemitted₂⟩ := h₂
  refine ⟨log₁ ++ log₂, trace₁.append trace₂, ?_⟩
  rw [hemitted₂, hemitted₁, List.flatMap_append, List.reverse_append, List.append_assoc]

/-- A visit, and then all that it leaves pending. -/
theorem Visited.visit (hvisit : s.visit revisits e p = (q, children))
    (h : s.Visited revisits (children ++ pending) q p') :
    s.Visited revisits (e :: pending) p p' := by
  rw [visit_eq] at hvisit
  obtain ⟨rfl, rfl⟩ := Prod.mk.inj hvisit
  obtain ⟨log, trace, hemitted⟩ := h
  refine ⟨_, .visit trace, ?_⟩
  rw [hemitted, List.flatMap_cons, List.reverse_append, List.append_assoc]

/-! ## Bounds -/

variable (s) in
/-- Each element below `root` whose listing succeeds has one of the given ids. -/
def Counts (ids : List ι) (root : Element K α) : Prop :=
  ∀ e cs, s.Reaches root e → e.expandable = true → s.children e = .ok cs → s.id e ∈ ids

theorem reaches_listed {r : VisitRecord ι} {c : Element K α} (he : s.Reaches root e)
    (hc : c ∈ s.listed (s.visitAt revisits e r)) : s.Reaches root c := by
  obtain ⟨-, cs, hcs, hmem⟩ := s.mem_listed hc
  exact he.child (expandable_of_listed hc) hcs hmem

theorem reaches_of_visit (hvisit : s.visit revisits e p = (q, children))
    (he : s.Reaches root e) : ∀ c ∈ children, s.Reaches root c := by
  rw [visit_eq] at hvisit
  obtain ⟨rfl, rfl⟩ := Prod.mk.inj hvisit
  exact fun c => reaches_listed he

variable [LawfulBEq ι] {ids : List ι} {n : Nat}

theorem Visited.missing_le (h : s.Visited revisits pending p p') :
    p'.expanded.missing ids ≤ p.expanded.missing ids := by
  obtain ⟨log, trace, -⟩ := h
  exact VisitRecord.missing_le fun i hi => trace.contains_iff.2 (.inr hi)

theorem missing_visit_le (hvisit : s.visit revisits e p = (q, children)) :
    q.expanded.missing ids ≤ p.expanded.missing ids := by
  rw [visit_eq] at hvisit
  obtain ⟨rfl, -⟩ := Prod.mk.inj hvisit
  exact VisitRecord.missing_le fun i hi => contains_recorded.2 (.inr hi)

/-- What lists children uses up an id. -/
theorem missing_visit_lt (hids : s.Counts ids root) (he : s.Reaches root e)
    (hvisit : s.visit revisits e p = (q, children)) (hne : children ≠ []) :
    q.expanded.missing ids < p.expanded.missing ids := by
  rw [visit_eq] at hvisit
  obtain ⟨rfl, rfl⟩ := Prod.mk.inj hvisit
  obtain ⟨c, hc⟩ := List.exists_mem_of_ne_nil _ hne
  obtain ⟨hexpand, cs, hcs, -⟩ := s.mem_listed hc
  obtain ⟨hexpandable, -, hnew⟩ := decide_eq_expand.1 hexpand
  have hrecorded : s.recorded (s.visitAt revisits e p.expanded) p.expanded =
      (p.expanded.insert (s.id e)).2 := by
    unfold recorded
    rw [hexpand]
    rfl
  rw [hrecorded]
  exact VisitRecord.missing_insert_lt (hids e cs he hexpandable hcs) hnew

/-! ## Work list and recursion -/

/-- If what is done about children visits them, draining visits all that is pending. -/
theorem drainWith_visited (hids : s.Counts ids root)
    {onChildren : List (Element K α) → Progress K α ι → Option (Progress K α ι)}
    (hchildren : ∀ pending p, (∀ e ∈ pending, s.Reaches root e) → p.expanded.missing ids < n →
      ∃ p', onChildren pending p = some p' ∧ s.Visited revisits pending p p')
    (hpending : ∀ e ∈ pending, s.Reaches root e) (hn : p.expanded.missing ids ≤ n) :
    ∃ p', s.drainWith revisits onChildren pending p = some p' ∧
      s.Visited revisits pending p p' := by
  induction pending generalizing p with
  | nil => exact ⟨p, rfl, .nil⟩
  | cons e pending ih =>
    obtain ⟨he, hpending⟩ := List.forall_mem_cons.1 hpending
    unfold drainWith
    split
    · next q hvisit =>
      have hq : q.expanded.missing ids ≤ n := Nat.le_trans (missing_visit_le hvisit) hn
      obtain ⟨p', hp', hvisited⟩ := ih hpending hq
      exact ⟨p', hp', .visit hvisit hvisited⟩
    · next q children hne hvisit =>
      have hq : q.expanded.missing ids < n :=
        Nat.lt_of_lt_of_le (missing_visit_lt hids he hvisit hne) hn
      have hall : ∀ c ∈ children ++ pending, s.Reaches root c := by
        intro c hc
        rcases List.mem_append.1 hc with hc | hc
        · exact reaches_of_visit hvisit he c hc
        · exact hpending c hc
      obtain ⟨p', hp', hvisited⟩ := hchildren _ q hall hq
      exact ⟨p', hp', .visit hvisit hvisited⟩

theorem drain_visited (hids : s.Counts ids root) (hpending : ∀ e ∈ pending, s.Reaches root e)
    (hn : p.expanded.missing ids ≤ n) :
    ∃ p', s.drain revisits n pending p = some p' ∧ s.Visited revisits pending p p' := by
  induction n generalizing pending p with
  | zero => exact drainWith_visited hids (fun _ _ _ h => absurd h (Nat.not_lt_zero _)) hpending hn
  | succ n ih =>
    exact drainWith_visited hids (fun _ _ h hlt => ih h (Nat.le_of_lt_succ hlt)) hpending hn

/-- Elements visited in turn. -/
theorem foldlM_visited {f : Progress K α ι → Element K α → Option (Progress K α ι)}
    (hf : ∀ e p, s.Reaches root e → p.expanded.missing ids < n →
      ∃ p', f p e = some p' ∧ s.Visited revisits [e] p p')
    (hpending : ∀ e ∈ pending, s.Reaches root e) (hn : p.expanded.missing ids < n) :
    ∃ p', pending.foldlM f p = some p' ∧ s.Visited revisits pending p p' := by
  induction pending generalizing p with
  | nil => exact ⟨p, rfl, .nil⟩
  | cons e pending ih =>
    obtain ⟨he, hpending⟩ := List.forall_mem_cons.1 hpending
    obtain ⟨q, hq, hfirst⟩ := hf e p he hn
    obtain ⟨p', hp', hrest⟩ := ih hpending (Nat.lt_of_le_of_lt hfirst.missing_le hn)
    refine ⟨p', ?_, hfirst.append hrest⟩
    rw [List.foldlM_cons, hq]
    exact hp'

theorem walk_visited (hids : s.Counts ids root) (hbound : ids.length ≤ s.bound) (limit : Nat)
    {depth : Nat} (he : s.Reaches root e) (hn : p.expanded.missing ids < n) :
    ∃ p', s.walk revisits limit n depth e p = some p' ∧ s.Visited revisits [e] p p' := by
  induction n generalizing depth e p with
  | zero => exact absurd hn (Nat.not_lt_zero _)
  | succ n ih =>
    unfold walk
    split
    · have hmissing : p.expanded.missing ids ≤ s.bound :=
        Nat.le_trans List.countP_le_length hbound
      exact drain_visited hids (by simpa using he) hmissing
    · rcases hvisit : s.visit revisits e p with ⟨q, children⟩
      have hreaches := reaches_of_visit hvisit he
      by_cases hne : children = []
      · subst hne
        exact ⟨q, rfl, .visit hvisit .nil⟩
      · have hq : q.expanded.missing ids < n :=
          Nat.lt_of_lt_of_le (missing_visit_lt hids he hvisit hne) (Nat.le_of_lt_succ hn)
        obtain ⟨p', hp', hvisited⟩ := foldlM_visited (fun _ _ => ih) hreaches hq
        exact ⟨p', hp', .visit hvisit (by simpa using hvisited)⟩

/-! ## Explorations -/

theorem run_visited (revisits : Revisits) (bounded : s.Bounded root) (limit : Nat) :
    ∃ p, s.run revisits limit root = some p ∧ s.Visited revisits [root] .start p := by
  obtain ⟨ids, hbound, hids⟩ := bounded
  have hmissing : VisitRecord.empty.missing ids < s.bound + 1 :=
    Nat.lt_succ_of_le (Nat.le_trans List.countP_le_length hbound)
  exact walk_visited hids hbound limit .root hmissing

/-- An exploration emits the output of its trace. -/
theorem explore_eq_output (revisits : Revisits) (bounded : s.Bounded root) (limit : Nat) :
    ∃ log r, s.Trace revisits [root] .empty log r ∧
      s.explore revisits limit root = log.flatMap s.output := by
  obtain ⟨p, hrun, log, trace, hemitted⟩ := run_visited revisits bounded limit
  refine ⟨log, p.expanded, trace, ?_⟩
  unfold explore
  rw [hrun, Option.map_some, Option.getD_some, hemitted]
  simp [Progress.start]

/-! ## Larger bounds -/

/-- The source with another bound. -/
def withBound (s : Source K α ι) (n : Nat) : Source K α ι := { s with bound := n }

omit [BEq ι] [LawfulBEq ι] in
theorem reaches_withBound : (s.withBound n).Reaches root e ↔ s.Reaches root e :=
  reaches_congr fun _ => rfl

omit [LawfulBEq ι] in
theorem Trace.withBound {log : List (Visit K α)} {r r' : VisitRecord ι}
    (h : s.Trace revisits pending r log r') (n : Nat) :
    (s.withBound n).Trace revisits pending r log r' := by
  induction h with
  | done r => exact .done r
  | visit _ ih => exact .visit ih

/-- Beyond a bound that suffices, the bound does not matter. -/
theorem explore_withBound (bounded : s.Bounded root) (hn : s.bound ≤ n) (limit : Nat) :
    (s.withBound n).explore revisits limit root = s.explore revisits limit root := by
  have bounded' : (s.withBound n).Bounded root := by
    obtain ⟨ids, hbound, hids⟩ := bounded
    exact ⟨ids, Nat.le_trans hbound hn, fun e cs he => hids e cs (reaches_withBound.1 he)⟩
  obtain ⟨log, r, trace, hexplore⟩ := explore_eq_output revisits bounded limit
  obtain ⟨log', r', trace', hexplore'⟩ := explore_eq_output revisits bounded' limit
  obtain ⟨rfl, -⟩ := (trace.withBound n).unique trace'
  rw [hexplore, hexplore']
  rfl

end Source

end Hierarchy
