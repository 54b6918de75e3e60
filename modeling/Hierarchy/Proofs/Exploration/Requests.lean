import Hierarchy.Proofs.Exploration.Limits

/-!
# What an exploration asks its source

Listings are what an exploration costs, so this module follows the requests for them.  `runAsking`
explores like `run`, but gets at children only by `ask`, which notes down the element.  It comes to
the same as `run`, and what it notes down are the elements that the trace expands
(`runAsking_eq`).

So an exploration comes to its end and asks for children at most once for each id; without markers
it emits the root and all that it was given (`explore_asks_once`).
-/

namespace Hierarchy

/-- Computations that note down whose children they ask for, one after the other. -/
abbrev Asking (K α : Type) := StateM (List (Element K α))

namespace Source

variable {K α ι : Type} [BEq ι] (s : Source K α ι) (revisits : Revisits)

/-! ## Exploring by requests -/

/-- Asks for the children of an element. -/
def ask (e : Element K α) : Asking K α (Except Failure (List (Element K α))) := do
  modify (· ++ [e])
  return s.children e

/-- `visit`, by requests. -/
def visitAsking (e : Element K α) (p : Progress K α ι) :
    Asking K α (Progress K α ι × List (Element K α)) :=
  match s.decide revisits e p.expanded with
  | .emit => return ({ p with emitted := e :: p.emitted }, [])
  | .mark reason => return ({ p with emitted := s.marker e reason :: e :: p.emitted }, [])
  | .expand => do
    let expanded := (p.expanded.insert (s.id e)).2
    match ← s.ask e with
    | .error cause => return (⟨expanded, e.fail cause :: p.emitted⟩, [])
    | .ok children => return (⟨expanded, e :: p.emitted⟩, children)

/-- `drainWith`, by requests. -/
def drainAskingWith
    (onChildren : List (Element K α) → Progress K α ι → Asking K α (Option (Progress K α ι))) :
    List (Element K α) → Progress K α ι → Asking K α (Option (Progress K α ι))
  | [], p => return some p
  | e :: pending, p => do
    match ← s.visitAsking revisits e p with
    | (p, []) => drainAskingWith onChildren pending p
    | (p, children) => onChildren (children ++ pending) p

/-- `drain`, by requests. -/
def drainAsking : Nat → List (Element K α) → Progress K α ι →
    Asking K α (Option (Progress K α ι))
  | 0 => s.drainAskingWith revisits fun _ _ => return none
  | n + 1 => s.drainAskingWith revisits (drainAsking n)

/-- Visits elements in turn, unless one visit fails. -/
def inTurn (visitOne : Element K α → Progress K α ι → Asking K α (Option (Progress K α ι))) :
    List (Element K α) → Progress K α ι → Asking K α (Option (Progress K α ι))
  | [], p => return some p
  | e :: pending, p => do
    match ← visitOne e p with
    | none => return none
    | some p => inTurn visitOne pending p

/-- `walk`, by requests. -/
def walkAsking (limit : Nat) : Nat → Nat → Element K α → Progress K α ι →
    Asking K α (Option (Progress K α ι))
  | 0, _, _, _ => return none
  | n + 1, depth, e, p =>
    if limit ≤ depth then s.drainAsking revisits s.bound [e] p
    else do
      let (p, children) ← s.visitAsking revisits e p
      inTurn (walkAsking limit n (depth + 1)) children p

/-- `run`, by requests: the state at the end, and the elements whose children were asked for. -/
def runAsking (limit : Nat) (root : Element K α) :
    Option (Progress K α ι) × List (Element K α) :=
  (s.walkAsking revisits limit (s.bound + 1) 0 root .start).run []

/-! ## Requests and traces -/

/-- The elements that a log expands. -/
def requests (log : List (Visit K α)) : List (Element K α) :=
  (log.filter (·.decision = .expand)).map Visit.element

variable {s revisits} {root e : Element K α} {pending children : List (Element K α)}
  {p q : Progress K α ι}

theorem run_visitAsking (asked : List (Element K α)) :
    (s.visitAsking revisits e p).run asked =
      (s.visit revisits e p, asked ++ requests [s.visitAt revisits e p.expanded]) := by
  unfold visitAsking visit requests visitAt
  cases s.decide revisits e p.expanded with
  | emit => exact congrArg (Prod.mk _) (List.append_nil asked).symm
  | mark reason => exact congrArg (Prod.mk _) (List.append_nil asked).symm
  | expand =>
    unfold ask
    cases s.children e <;> rfl

theorem requests_append (log log' : List (Visit K α)) :
    requests (log ++ log') = requests log ++ requests log' := by
  unfold requests
  rw [List.filter_append, List.map_append]

variable (s revisits) in
/-- `x` comes to `o`.  If this is an end, all that is pending has been visited, and `x` has asked
for what was expanded. -/
def Answers (pending : List (Element K α)) (p : Progress K α ι)
    (x : Asking K α (Option (Progress K α ι))) (o : Option (Progress K α ι)) : Prop :=
  ∀ asked, (x.run asked).1 = o ∧ ∀ q, o = some q → ∃ log,
    s.Trace revisits pending p.expanded log q.expanded ∧
      (x.run asked).2 = asked ++ requests log

theorem Answers.done : s.Answers revisits [] p (return some p) (some p) := by
  intro asked
  refine ⟨rfl, fun q hq => ?_⟩
  obtain rfl := Option.some.inj hq
  exact ⟨[], .done _, (List.append_nil asked).symm⟩

theorem Answers.failed : s.Answers revisits pending p (return none) none := by
  intro asked
  refine ⟨rfl, fun q hq => ?_⟩
  cases hq

/-- A visit, and then all that it leaves pending. -/
theorem Answers.visit
    {next : Progress K α ι × List (Element K α) → Asking K α (Option (Progress K α ι))}
    {o : Option (Progress K α ι)} (hvisit : s.visit revisits e p = (q, children))
    (h : s.Answers revisits (children ++ pending) q (next (q, children)) o) :
    s.Answers revisits (e :: pending) p (s.visitAsking revisits e p >>= next) o := by
  intro asked
  have hrun : (s.visitAsking revisits e p >>= next).run asked =
      (next (q, children)).run (asked ++ requests [s.visitAt revisits e p.expanded]) := by
    rw [StateT.run_bind, run_visitAsking, hvisit]
    rfl
  obtain ⟨hresult, hend⟩ := h (asked ++ requests [s.visitAt revisits e p.expanded])
  rw [visit_eq] at hvisit
  obtain ⟨rfl, rfl⟩ := Prod.mk.inj hvisit
  rw [hrun]
  refine ⟨hresult, fun p' hp' => ?_⟩
  obtain ⟨log, trace, hasked⟩ := hend p' hp'
  refine ⟨_, .visit trace, ?_⟩
  rw [hasked, List.append_assoc, ← requests_append, List.singleton_append]

/-- What is pending first, and then, if this comes to an end, the rest. -/
theorem Answers.bind {rest : List (Element K α)} {x : Asking K α (Option (Progress K α ι))}
    {next : Option (Progress K α ι) → Asking K α (Option (Progress K α ι))}
    {o : Option (Progress K α ι)} {onEnd : Progress K α ι → Option (Progress K α ι)}
    (h : s.Answers revisits pending p x o) (hnone : next none = return none)
    (hnext : ∀ q, s.Answers revisits rest q (next (some q)) (onEnd q)) :
    s.Answers revisits (pending ++ rest) p (x >>= next) (o.bind onEnd) := by
  intro asked
  obtain ⟨hresult, hend⟩ := h asked
  rcases hrun : x.run asked with ⟨o', asked'⟩
  rw [hrun] at hresult hend
  obtain rfl : o' = o := hresult
  rw [StateT.run_bind, hrun]
  cases o' with
  | none =>
    refine ⟨congrArg (fun y => (y.run asked').1) hnone, fun q hq => ?_⟩
    cases hq
  | some q =>
    obtain ⟨log, trace, hasked⟩ := hend q rfl
    obtain ⟨hresult', hend'⟩ := hnext q asked'
    refine ⟨hresult', fun p' hp' => ?_⟩
    obtain ⟨log', trace', hasked'⟩ := hend' p' hp'
    refine ⟨log ++ log', trace.append trace', ?_⟩
    rw [requests_append, ← List.append_assoc, ← hasked]
    exact hasked'

/-! ## Exploring by requests comes to the same -/

variable {limit depth n : Nat}

theorem drainAskingWith_answers
    {asking : List (Element K α) → Progress K α ι → Asking K α (Option (Progress K α ι))}
    {onChildren : List (Element K α) → Progress K α ι → Option (Progress K α ι)}
    (hchildren : ∀ pending p, s.Answers revisits pending p (asking pending p)
      (onChildren pending p)) :
    s.Answers revisits pending p (s.drainAskingWith revisits asking pending p)
      (s.drainWith revisits onChildren pending p) := by
  induction pending generalizing p with
  | nil => exact .done
  | cons e pending ih =>
    rcases hvisit : s.visit revisits e p with ⟨q, children⟩
    unfold drainAskingWith drainWith
    rw [hvisit]
    refine .visit hvisit ?_
    cases children with
    | nil => exact ih
    | cons c children => exact hchildren _ q

theorem drainAsking_answers :
    s.Answers revisits pending p (s.drainAsking revisits n pending p)
      (s.drain revisits n pending p) := by
  induction n generalizing pending p with
  | zero => exact drainAskingWith_answers fun _ _ => .failed
  | succ n ih => exact drainAskingWith_answers fun _ _ => ih

theorem inTurn_answers
    {asking : Element K α → Progress K α ι → Asking K α (Option (Progress K α ι))}
    {visitOne : Progress K α ι → Element K α → Option (Progress K α ι)}
    (hone : ∀ e p, s.Answers revisits [e] p (asking e p) (visitOne p e)) :
    s.Answers revisits pending p (inTurn asking pending p) (pending.foldlM visitOne p) := by
  induction pending generalizing p with
  | nil => exact .done
  | cons e pending ih =>
    rw [List.foldlM_cons]
    exact (hone e p).bind rfl fun q => ih

theorem walkAsking_answers :
    s.Answers revisits [e] p (s.walkAsking revisits limit n depth e p)
      (s.walk revisits limit n depth e p) := by
  induction n generalizing depth e p with
  | zero => exact .failed
  | succ n ih =>
    unfold walkAsking walk
    by_cases hlimit : limit ≤ depth
    · rw [if_pos hlimit, if_pos hlimit]
      exact drainAsking_answers
    · rw [if_neg hlimit, if_neg hlimit]
      rcases hvisit : s.visit revisits e p with ⟨q, children⟩
      refine .visit hvisit ?_
      rw [List.append_nil]
      exact inTurn_answers fun e p => ih

/-- Exploring by requests comes to the same as `run`, and asks for what the trace expands. -/
theorem runAsking_eq (revisits : Revisits) (limit : Nat) (root : Element K α) :
    (s.runAsking revisits limit root).1 = s.run revisits limit root ∧
      ∀ p, s.run revisits limit root = some p → ∃ log,
        s.Trace revisits [root] .empty log p.expanded ∧
          (s.runAsking revisits limit root).2 = requests log :=
  walkAsking_answers []

/-! ## Ends -/

theorem Visited.withBound (h : s.Visited revisits pending p q) (n : Nat) :
    (s.withBound n).Visited revisits pending p q := by
  obtain ⟨log, trace, hemitted⟩ := h
  exact ⟨log, trace.withBound n, hemitted⟩

/-- An exploration comes to its end with every bound that counts the ids, in one state. -/
theorem exists_end [LawfulBEq ι] {ids : List ι} (hids : s.Counts ids root) (revisits : Revisits)
    (limit : Nat) :
    ∃ p, s.Visited revisits [root] .start p ∧
      ∀ n, ids.length ≤ n → (s.withBound n).run revisits limit root = some p := by
  have hends : ∀ n, ids.length ≤ n → ∃ p, (s.withBound n).run revisits limit root = some p ∧
      s.Visited revisits [root] .start p := by
    intro n hn
    have bounded : (s.withBound n).Bounded root :=
      ⟨ids, hn, fun e cs he => hids e cs (reaches_withBound.1 he)⟩
    obtain ⟨p, hrun, hvisited⟩ := run_visited revisits bounded limit
    exact ⟨p, hrun, hvisited.withBound s.bound⟩
  obtain ⟨p, -, hvisited⟩ := hends ids.length (Nat.le_refl _)
  refine ⟨p, hvisited, fun n hn => ?_⟩
  obtain ⟨q, hrun, hvisited'⟩ := hends n hn
  rw [hrun, hvisited.unique hvisited']

/-! ## What is given and what is emitted -/

omit [BEq ι] in
/-- What is listed is what the requests are given, except for those that fail. -/
theorem flatMap_listed_eq (log : List (Visit K α)) :
    log.flatMap s.listed =
      ((requests log).filterMap fun e => (s.children e).toOption).flatten := by
  induction log with
  | nil => rfl
  | cons v log ih =>
    rw [List.flatMap_cons, ih, ← List.singleton_append (l := log), requests_append]
    obtain ⟨e, decision⟩ := v
    cases decision with
    | emit => rfl
    | mark reason => rfl
    | expand => cases hcs : s.children e <;> simp [listed, requests, hcs, Except.toOption]

omit [BEq ι] in
theorem length_output (log : List (Visit K α)) :
    (log.flatMap s.output).length = log.length + (log.flatMap s.markers).length := by
  induction log with
  | nil => rfl
  | cons v log ih =>
    rw [List.flatMap_cons, List.flatMap_cons, List.length_append, List.length_append, ih]
    simp only [output, List.length_cons]
    omega

/-- A complete tour emits its root, what its requests are given, and markers. -/
theorem Tour.length_emitted {log : List (Visit K α)} {r : VisitRecord ι}
    (tour : s.Tour revisits root log 0 r) :
    (log.flatMap s.output).length =
      1 + (((requests log).filterMap fun e => (s.children e).toOption).map List.length).sum +
        (log.flatMap s.markers).length := by
  have hvisits := tour.visited_perm.length_eq
  rw [List.length_map, List.length_cons, flatMap_listed_eq, List.length_flatten] at hvisits
  rw [length_output, hvisits]
  omega

/-- An exploration comes to its end, whatever ways there are below its root, as soon as the ids
whose listing succeeds are finitely many.  It asks for children at most once for each id, and
without markers it emits the root and all that it is given. -/
theorem explore_asks_once [LawfulBEq ι] {ids : List ι} (hids : s.Counts ids root)
    (revisits : Revisits) (limit : Nat) :
    ∃ p asked,
      (∀ n, ids.length ≤ n → (s.withBound n).runAsking revisits limit root = (some p, asked) ∧
        (s.withBound n).explore revisits limit root = p.emitted.reverse) ∧
      (asked.map s.id).Nodup ∧
      (revisits = .compact → p.emitted.length =
        1 + ((asked.filterMap fun e => (s.children e).toOption).map List.length).sum) := by
  obtain ⟨p, ⟨log, trace, hemitted⟩, hends⟩ := exists_end hids revisits limit
  have hids : (requests log).map s.id = s.expandedIds log := by
    unfold requests expandedIds
    rw [List.map_map]
    rfl
  refine ⟨p, requests log, fun n hn => ⟨?_, ?_⟩, ?_, ?_⟩
  · obtain ⟨hresult, hasked⟩ := (s.withBound n).runAsking_eq revisits limit root
    obtain ⟨log', trace', hasked⟩ := hasked p (hends n hn)
    obtain ⟨rfl, -⟩ := (trace.withBound n).unique trace'
    exact Prod.ext (hresult.trans (hends n hn)) hasked
  · unfold explore
    rw [hends n hn]
    rfl
  · rw [hids]
    exact trace.nodup_expandedIds
  · rintro rfl
    have hlength := trace.tour.length_emitted
    rw [trace.tour.markers_eq_nil, List.length_nil, Nat.add_zero] at hlength
    rw [hemitted, List.length_append, List.length_reverse, hlength]
    rfl

/-- Two ways lead to `c` and one back to `a`; `c` is asked for once, in vain. -/
theorem roundabout_asked :
    roundabout.Counts ['a', 'b'] entrance ∧
      (∃ p asked,
        (∀ n, 2 ≤ n → (roundabout.withBound n).runAsking .compact 1 entrance = (some p, asked) ∧
          (roundabout.withBound n).explore .compact 1 entrance = p.emitted.reverse) ∧
        (asked.map Element.key).Nodup ∧
        p.emitted.length =
          1 + ((asked.filterMap fun e => (roundabout.children e).toOption).map List.length).sum) ∧
      (roundabout.runAsking .compact 1 entrance).2.map Element.key = ['a', 'b', 'c'] ∧
      (roundabout.explore .compact 1 entrance).map Element.key = ['a', 'b', 'c', 'a', 'c'] := by
  obtain ⟨p, asked, hends, hnodup, hlength⟩ :=
    explore_asks_once (roundabout_counts entrance) .compact 1
  exact ⟨roundabout_counts entrance, ⟨p, asked, hends, hnodup, hlength rfl⟩, by decide, by decide⟩

end Source

end Hierarchy
