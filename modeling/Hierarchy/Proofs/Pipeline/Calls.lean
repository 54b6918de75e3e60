import Hierarchy.Proofs.Exploration.Turns
import Hierarchy.Proofs.Pipeline.TreeRun

/-!
# Calls on one pipeline

A pipeline answers any number of runs and may be closed at any time (`Pipeline.Call`).  All that a
call leaves behind is the state of the pool, and of the pool it counts whether it was closed
(`Pipeline.Stands`): each call keeps this (`Stands.next`), so all calls do (`Stands.after`).

A run prepares its report before it writes it (`Pipeline.prepare`).  If its criteria are resolved,
all that can fail on the way is that it asks for workers when the pool was closed
(`prepare_refused`, `prepare_granted`), and then nothing has been written.  So answers hang on the
settings and on whether the pipeline was closed before (`answers_after`).
-/

namespace Hierarchy

/-! ## Explorations to the end -/

section Explored

variable {K α ι : Type} [BEq ι]

/-- What is found below roots that are explored to the end, each by itself. -/
def Source.Explored (s : Source K α ι) (revisits : Revisits) (roots found : List (Element K α)) :
    Prop :=
  ∃ logs, List.Forall₂ (fun root log => ∃ r, s.Tour revisits root log 0 r) roots logs ∧
    found.Perm (logs.flatMap fun log => log.flatMap s.output)

variable {s : Source K α ι} {revisits : Revisits} {roots : List (Element K α)}

theorem Source.explored_flatMap {explore : Element K α → List (Element K α)}
    (h : ∀ root ∈ roots, ∃ log r, s.Tour revisits root log 0 r ∧
      (explore root).Perm (log.flatMap s.output)) :
    s.Explored revisits roots (roots.flatMap explore) := by
  induction roots with
  | nil => exact ⟨[], .nil, .nil⟩
  | cons root roots ih =>
    obtain ⟨hroot, hroots⟩ := List.forall_mem_cons.1 h
    obtain ⟨log, r, tour, hperm⟩ := hroot
    obtain ⟨logs, tours, hperms⟩ := ih hroots
    refine ⟨log :: logs, .cons ⟨r, tour⟩ tours, ?_⟩
    rw [List.flatMap_cons, List.flatMap_cons]
    exact hperm.append hperms

variable [LawfulBEq ι] (bounded : ∀ root ∈ roots, s.Bounded root)

include bounded

theorem Source.explored_in_sequence :
    s.Explored revisits roots (roots.flatMap (s.explore revisits defaultLimit)) := by
  apply explored_flatMap
  intro root hroot
  obtain ⟨log, r, trace, hexplore⟩ := explore_eq_output revisits (bounded root hroot) defaultLimit
  refine ⟨log, r, trace.tour, ?_⟩
  rw [hexplore]

theorem Source.explored_by_workers :
    s.Explored revisits roots (roots.flatMap (s.exploreConcurrently revisits)) := by
  apply explored_flatMap
  intro root hroot
  obtain ⟨w, steps, done, hexplore⟩ := exploreConcurrently_run (bounded root hroot) revisits
  obtain ⟨log, tour, hperm⟩ := steps.complete done
  refine ⟨log, _, tour, ?_⟩
  rw [hexplore]
  exact (List.reverse_perm _).trans hperm

end Explored

namespace Pipeline

variable {α ι : Type} [BEq ι] {settings : Settings} {p q : Pipeline}
  {catalog : Catalog String α ι} {specs : List String} {order : ColumnOrder}

/-! ## Exploring with a pool -/

/-- The failure of a pool that is asked for workers after its end. -/
def closedPool : Failure := .pool "pool already closed"

theorem explore_closed {pool : Pool} (closed : pool.isClosed = true) (revisits : Revisits)
    (source : Source String α ι) {roots : List (Element String α)} (hroots : roots ≠ []) :
    explore (some pool) revisits source roots = (.error (.failure closedPool), some pool) := by
  have hstate : pool.state = .closed := by simpa [Pool.isClosed] using closed
  cases roots with
  | nil => exact absurd rfl hroots
  | cons root roots =>
    have hstart : pool.start = (.error closedPool, pool) := by
      unfold Pool.start
      rw [hstate]
      rfl
    unfold explore
    dsimp only
    rw [hstart]

/-- Workers of an open pool explore every root, and the pool stays open. -/
theorem explore_open {pool : Pool} (hopen : pool.isClosed = false) (revisits : Revisits)
    (source : Source String α ι) (roots : List (Element String α)) :
    ∃ pool', pool'.isClosed = false ∧
      explore (some pool) revisits source roots =
        (.ok (roots.flatMap (source.exploreConcurrently revisits)), some pool') := by
  induction roots generalizing pool with
  | nil => exact ⟨pool, hopen, rfl⟩
  | cons root roots ih =>
    have hstart : pool.start = (.ok pool.size, { pool with state := .running }) := by
      unfold Pool.start
      cases hstate : pool.state with
      | closed => simp [Pool.isClosed, hstate] at hopen
      | idle => rfl
      | running => rfl
    have hrunning : ({ pool with state := .running } : Pool).isClosed = false := rfl
    obtain ⟨pool', hopen', hrest⟩ := ih hrunning
    refine ⟨pool', hopen', ?_⟩
    unfold explore
    dsimp only
    rw [hstart]
    dsimp only
    rw [hrest]
    rfl

/-! ## Runs up to their writing -/

/-- What a run finds, and the pool afterwards. -/
def gather (settings : Settings) (pool : Option Pool) (source : Source String α ι)
    (roots : List (Element String α)) : Except RunError (List (Element String α)) × Option Pool :=
  if settings.closure then explore pool settings.output.revisits source roots else (.ok roots, pool)

/-- A run before it writes: what it is going to report, and the pipeline afterwards. -/
def prepare (p : Pipeline) (catalog : Catalog String α ι) (specs : List String) :
    Except RunError Report × Pipeline :=
  let mode := p.settings.output.columnMode
  match resolveCriteria p.criteria catalog.orders (catalog.headers mode) with
  | .error e => (.error e, p)
  | .ok order =>
    let roots := catalog.roots specs p.settings.closure
    let (found, pool) := gather p.settings p.pool catalog.toSource roots
    (found.bind fun elements =>
      render p.settings catalog (order.sort (catalog.cells mode) elements), { p with pool })

theorem process_eq_prepare (write : Writer) :
    p.process catalog specs write =
      ((p.prepare catalog specs).1.bind (delivered write), (p.prepare catalog specs).2) := by
  unfold process prepare gather
  dsimp only
  cases resolveCriteria p.criteria catalog.orders
      (catalog.headers p.settings.output.columnMode) with
  | error e => rfl
  | ok order =>
    dsimp only
    generalize (if p.settings.closure = true then _ else _ : _ × Option Pool) = explored
    obtain ⟨found, pool⟩ := explored
    cases found with
    | error e => rfl
    | ok elements =>
      simp only [bind, Except.bind]
      cases render p.settings catalog
          (order.sort (catalog.cells p.settings.output.columnMode) elements) with
      | error e => rfl
      | ok report =>
        dsimp only [delivered]
        cases write report.text <;> rfl

/-- A run whose writer acts: it is asked once, for the text of a report. -/
def processOn {m : Type → Type} [Monad m] (p : Pipeline) (catalog : Catalog String α ι)
    (specs : List String) (write : String → m (Except String Unit)) :
    m (Except RunError Report × Pipeline) :=
  match p.prepare catalog specs with
  | (.error e, q) => pure (.error e, q)
  | (.ok report, q) => do
    match ← write report.text with
    | .ok () => return (.ok report, q)
    | .error cause => return (.error (.operation "write output" cause), q)

theorem processOn_pure (write : Writer) :
    Id.run (p.processOn catalog specs fun text => pure (write text)) =
      p.process catalog specs write := by
  rw [process_eq_prepare]
  unfold processOn
  obtain ⟨prepared, q⟩ := p.prepare catalog specs
  cases prepared with
  | error e => rfl
  | ok report =>
    dsimp only [Except.bind, delivered]
    cases write report.text <;> rfl

theorem processOn_of_error {m : Type → Type} [Monad m] {e : RunError}
    (h : p.prepare catalog specs = (.error e, q)) (write : String → m (Except String Unit)) :
    p.processOn catalog specs write = pure (.error e, q) := by
  unfold processOn
  rw [h]

/-- A writer that takes every text. -/
def takes : Writer := fun _ => .ok ()

/-- A writer that takes every text and keeps it behind those that it took before. -/
def keeps (text : String) : StateM (List String) (Except String Unit) := do
  modify (· ++ [text])
  return .ok ()

/-- What fails although its text would be taken has nothing to write: no writer is asked. -/
theorem prepare_of_error {cause : RunError}
    (h : (p.process catalog specs takes).1 = .error cause) :
    p.prepare catalog specs = (.error cause, (p.process catalog specs takes).2) := by
  rw [process_eq_prepare] at h ⊢
  generalize p.prepare catalog specs = prepared at h ⊢
  obtain ⟨outcome, q⟩ := prepared
  cases outcome with
  | error e =>
    cases h
    rfl
  | ok report => cases h

/-- What succeeds writes the text that it reports, once. -/
theorem processOn_of_ok {report : Report} (h : (p.process catalog specs takes).1 = .ok report)
    (written : List String) :
    (p.processOn catalog specs keeps).run written =
      ((.ok report, (p.process catalog specs takes).2), written ++ [report.text]) := by
  rw [process_eq_prepare] at h ⊢
  unfold processOn
  generalize p.prepare catalog specs = prepared at h ⊢
  obtain ⟨outcome, q⟩ := prepared
  cases outcome with
  | error e => cases h
  | ok report =>
    cases h
    rfl

/-! ## Pools between calls -/

/-- There is a pool if there are workers at all; and of the pool it counts whether it was closed. -/
structure Stands (parallel : Nat) (closed : Prop) (pool : Option Pool) : Prop where
  alone : parallel = 0 → pool = none
  workers : 0 < parallel → ∃ workers, pool = some workers ∧ (workers.isClosed = true ↔ closed)

/-- Workers are asked for, and there are none any more. -/
structure Refused (settings : Settings) (closed : Prop) (roots : List (Element String α)) :
    Prop where
  closure : settings.closure = true
  parallel : 0 < settings.parallel
  roots : roots ≠ []
  closed : closed

/-- What a run finds that is not refused. -/
def findings (settings : Settings) (source : Source String α ι) (roots : List (Element String α)) :
    List (Element String α) :=
  if settings.closure then
    roots.flatMap <|
      if settings.parallel = 0 then source.explore settings.output.revisits defaultLimit
      else source.exploreConcurrently settings.output.revisits
  else roots

theorem findings_explored [LawfulBEq ι] (closure : settings.closure = true)
    {source : Source String α ι} {roots : List (Element String α)}
    (bounded : ∀ root ∈ roots, source.Bounded root) :
    source.Explored settings.output.revisits roots (findings settings source roots) := by
  unfold findings
  rw [if_pos closure]
  by_cases alone : settings.parallel = 0
  · rw [if_pos alone]
    exact Source.explored_in_sequence bounded
  · rw [if_neg alone]
    exact Source.explored_by_workers bounded

theorem exists_formatManifests (mode : OutputMode) (documents : mode.isDocument = true)
    (items : List Document) : ∃ text, formatManifests mode items = .ok text := by
  unfold formatManifests
  by_cases hempty : items.isEmpty = true
  · rw [if_pos hempty]
    exact ⟨_, rfl⟩
  · rw [if_neg hempty]
    cases mode with
    | json => exact ⟨_, rfl⟩
    | yaml => exact ⟨_, rfl⟩
    | table | wide | tree => cases documents

omit [BEq ι] in
/-- Manifests are asked for in their own modes only, so nothing fails to be shown. -/
theorem exists_render (settings : Settings) (catalog : Catalog String α ι)
    (elements : List (Element String α)) :
    ∃ report, render settings catalog elements = .ok report := by
  unfold render
  cases settings.output with
  | tree => exact ⟨_, rfl⟩
  | table => exact ⟨_, rfl⟩
  | wide => exact ⟨_, rfl⟩
  | json =>
    obtain ⟨text, htext⟩ := exists_formatManifests .json rfl (elements.map catalog.manifest)
    dsimp only
    rw [htext]
    exact ⟨_, rfl⟩
  | yaml =>
    obtain ⟨text, htext⟩ := exists_formatManifests .yaml rfl (elements.map catalog.manifest)
    dsimp only
    rw [htext]
    exact ⟨_, rfl⟩

theorem exists_stands (hp : ofSettings settings = .ok p) :
    ∃ pool, p = ⟨settings, p.criteria, pool⟩ ∧ Stands settings.parallel False pool := by
  unfold ofSettings at hp
  cases hcriteria : parseCriteria settings.sort with
  | error e =>
    rw [hcriteria] at hp
    cases hp
  | ok criteria =>
    rw [hcriteria] at hp
    obtain rfl := Except.ok.inj hp
    refine ⟨_, rfl, fun alone => ?_, fun parallel => ⟨.ofSize settings.parallel, ?_, ?_⟩⟩
    · rw [alone]
      rfl
    · exact if_pos parallel
    · simp [Pool.isClosed, Pool.ofSize]

namespace Stands

variable {criteria : List Criterion} {closed : Prop} {pool : Option Pool}
  (stands : Stands settings.parallel closed pool)

include stands

theorem gather_refused (source : Source String α ι) {roots : List (Element String α)}
    (refused : Refused settings closed roots) :
    gather settings pool source roots = (.error (.failure closedPool), pool) := by
  obtain ⟨closure, parallel, hroots, hclosed⟩ := refused
  obtain ⟨workers, rfl, hiff⟩ := stands.workers parallel
  unfold gather
  rw [if_pos closure]
  exact explore_closed (hiff.2 hclosed) _ source hroots

theorem gather_granted (source : Source String α ι) {roots : List (Element String α)}
    (granted : ¬ Refused settings closed roots) :
    ∃ pool', gather settings pool source roots = (.ok (findings settings source roots), pool') ∧
      Stands settings.parallel closed pool' := by
  unfold gather findings
  by_cases closure : settings.closure = true
  · rw [if_pos closure, if_pos closure]
    rcases Nat.eq_zero_or_pos settings.parallel with alone | parallel
    · obtain rfl := stands.alone alone
      rw [if_pos alone, explore_sequential]
      exact ⟨none, rfl, stands⟩
    · rw [if_neg (Nat.ne_of_gt parallel)]
      obtain ⟨workers, rfl, hiff⟩ := stands.workers parallel
      cases hclosed : workers.isClosed with
      | true =>
        -- nobody asks for workers if there is nothing to explore
        obtain rfl : roots = [] := by
          by_contra hroots
          exact granted ⟨closure, parallel, hroots, hiff.1 hclosed⟩
        exact ⟨some workers, rfl, stands⟩
      | false =>
        obtain ⟨workers', hopen, hexplored⟩ :=
          explore_open hclosed settings.output.revisits source roots
        refine ⟨some workers', hexplored, ?_, fun _ => ⟨workers', rfl, ?_⟩⟩
        · intro alone
          omega
        · rw [hopen, ← hiff, hclosed]
  · rw [if_neg closure, if_neg closure]
    exact ⟨pool, rfl, stands⟩

end Stands

/-! ## One run -/

section Prepare

variable {criteria : List Criterion} {closed : Prop} {pool : Option Pool}

theorem prepare_unresolved {e : RunError} (unresolved : resolveCriteria criteria catalog.orders
    (catalog.headers settings.output.columnMode) = .error e) :
    prepare ⟨settings, criteria, pool⟩ catalog specs = (.error e, ⟨settings, criteria, pool⟩) := by
  unfold prepare
  dsimp only
  rw [unresolved]

variable (stands : Stands settings.parallel closed pool)
  (resolves : resolveCriteria criteria catalog.orders
    (catalog.headers settings.output.columnMode) = .ok order)

include stands resolves

theorem prepare_refused
    (refused : Refused settings closed (catalog.roots specs settings.closure)) :
    prepare ⟨settings, criteria, pool⟩ catalog specs =
      (.error (.failure closedPool), ⟨settings, criteria, pool⟩) := by
  unfold prepare
  dsimp only
  rw [resolves]
  dsimp only
  rw [stands.gather_refused catalog.toSource refused]
  rfl

theorem prepare_granted
    (granted : ¬ Refused settings closed (catalog.roots specs settings.closure)) :
    ∃ report pool', prepare ⟨settings, criteria, pool⟩ catalog specs =
        (.ok report, ⟨settings, criteria, pool'⟩) ∧
      Stands settings.parallel closed pool' ∧
      render settings catalog (order.sort (catalog.cells settings.output.columnMode)
        (findings settings catalog.toSource (catalog.roots specs settings.closure))) =
          .ok report := by
  obtain ⟨pool', hgather, hnext⟩ := stands.gather_granted catalog.toSource granted
  obtain ⟨report, hreport⟩ := exists_render settings catalog
    (order.sort (catalog.cells settings.output.columnMode)
      (findings settings catalog.toSource (catalog.roots specs settings.closure)))
  refine ⟨report, pool', ?_, hnext, hreport⟩
  unfold prepare
  dsimp only
  rw [resolves]
  dsimp only
  rw [hgather]
  dsimp only [Except.bind]
  rw [hreport]

end Prepare

/-! ## One call after the other -/

/-- A call on a pipeline: a run for any catalog with any writer, or its end. -/
inductive Call : Type 1 where
  | process {α ι : Type} [BEq ι] (catalog : Catalog String α ι) (specs : List String)
      (write : Writer)
  | close

/-- The pipeline after a call. -/
def next (p : Pipeline) : Call → Pipeline
  | @Call.process _ _ _ catalog specs write => (p.process catalog specs write).2
  | .close => p.close.2

def after (p : Pipeline) (calls : List Call) : Pipeline := calls.foldl next p

namespace Stands

variable {closed : Prop} {pool : Option Pool}

/-- The pool is closed for good by the first call that closes it. -/
theorem close (criteria : List Criterion) (stands : Stands settings.parallel closed pool) :
    ∃ pool', (⟨settings, criteria, pool⟩ : Pipeline).close.2 = ⟨settings, criteria, pool'⟩ ∧
      Stands settings.parallel True pool' ∧
      ((⟨settings, criteria, pool⟩ : Pipeline).close.1 = true ↔
        0 < settings.parallel ∧ ¬ closed) := by
  rcases Nat.eq_zero_or_pos settings.parallel with alone | parallel
  · obtain rfl := stands.alone alone
    refine ⟨none, rfl, ⟨fun _ => rfl, fun parallel => ?_⟩, ?_⟩
    · omega
    · simp [Pipeline.close, alone]
  · obtain ⟨workers, rfl, hiff⟩ := stands.workers parallel
    refine ⟨some { workers with state := .closed }, rfl, ⟨fun alone => ?_, fun _ => ?_⟩, ?_⟩
    · omega
    · exact ⟨_, rfl, by simp [Pool.isClosed]⟩
    · simp [Pipeline.close, Pool.close, parallel, ← hiff]

/-- One call keeps a pipeline as it is, but for the pool, and only closing closes it. -/
theorem next (criteria : List Criterion) (stands : Stands settings.parallel closed pool)
    (c : Call) :
    ∃ pool', next ⟨settings, criteria, pool⟩ c = ⟨settings, criteria, pool'⟩ ∧
      Stands settings.parallel (closed ∨ .close = c) pool' := by
  cases c with
  | close =>
    obtain ⟨pool', hclose, hstands, -⟩ := stands.close criteria
    exact ⟨pool', hclose, by simpa using hstands⟩
  | @process α ι _ catalog specs write =>
    have hstands : Stands settings.parallel (closed ∨ .close = Call.process catalog specs write)
      pool := by simpa using stands
    show ∃ pool', (process ⟨settings, criteria, pool⟩ catalog specs write).2 = _ ∧ _
    rw [process_eq_prepare]
    dsimp only
    cases hresolve : resolveCriteria criteria catalog.orders
        (catalog.headers settings.output.columnMode) with
    | error e =>
      rw [prepare_unresolved hresolve]
      exact ⟨pool, rfl, hstands⟩
    | ok order =>
      by_cases refused : Refused settings closed (catalog.roots specs settings.closure)
      · rw [prepare_refused stands hresolve refused]
        exact ⟨pool, rfl, hstands⟩
      · obtain ⟨report, pool', hprepare, hnext, -⟩ := prepare_granted stands hresolve refused
        rw [hprepare]
        exact ⟨pool', rfl, by simpa using hnext⟩

theorem after (criteria : List Criterion) (stands : Stands settings.parallel closed pool)
    (calls : List Call) :
    ∃ pool', after ⟨settings, criteria, pool⟩ calls = ⟨settings, criteria, pool'⟩ ∧
      Stands settings.parallel (closed ∨ .close ∈ calls) pool' := by
  induction calls generalizing closed pool with
  | nil => exact ⟨pool, rfl, by simpa using stands⟩
  | cons c calls ih =>
    obtain ⟨next, hnext, hstands⟩ := stands.next criteria c
    obtain ⟨pool', hafter, hstands⟩ := ih hstands
    refine ⟨pool', ?_, by simpa [or_assoc] using hstands⟩
    show Pipeline.after (Pipeline.next _ c) calls = _
    rw [hnext, hafter]

end Stands

/-- What a pipeline answers that was made for the settings and is called again. -/
structure AnswersAfter (settings : Settings) (p : Pipeline) (before : List Call) : Prop where
  /-- The first call that closes the pipeline closes workers, and no other does. -/
  closing : (p.after before).close.1 = true ↔ 0 < settings.parallel ∧ .close ∉ before
  /-- Runs whose criteria are resolved find no workers any more exactly if they ask for some after
  the pipeline was closed. -/
  refused : ∀ {α ι : Type} [BEq ι] (catalog : Catalog String α ι) specs order,
    resolveCriteria p.criteria catalog.orders (catalog.headers settings.output.columnMode) =
        .ok order →
      ((∃ reason, ((p.after before).process catalog specs takes).1 =
          .error (.failure (.pool reason))) ↔
        Refused settings (.close ∈ before) (catalog.roots specs settings.closure))
  /-- All others are answered: they show what the roots lead to, explored to the end. -/
  granted : ∀ {α ι : Type} [BEq ι] [LawfulBEq ι] (catalog : Catalog String α ι) specs order,
    resolveCriteria p.criteria catalog.orders (catalog.headers settings.output.columnMode) =
        .ok order →
      (∀ root ∈ catalog.roots specs settings.closure, catalog.toSource.Bounded root) →
      ¬ Refused settings (.close ∈ before) (catalog.roots specs settings.closure) →
      ∃ found report,
        (if settings.closure then catalog.toSource.Explored settings.output.revisits
            (catalog.roots specs settings.closure) found
          else found = catalog.roots specs settings.closure) ∧
        render settings catalog
          (order.sort (catalog.cells settings.output.columnMode) found) = .ok report ∧
        ((p.after before).process catalog specs takes).1 = .ok report
  /-- A run that fails writes nothing, and would fail with any writer. -/
  silent : ∀ {α ι : Type} [BEq ι] (catalog : Catalog String α ι) specs cause,
    ((p.after before).process catalog specs takes).1 = .error cause →
      (∀ written, (((p.after before).processOn catalog specs keeps).run written).2 = written) ∧
      ∀ write, ((p.after before).process catalog specs write).1 = .error cause
  /-- A run that succeeds writes the text that it reports, once. -/
  written : ∀ {α ι : Type} [BEq ι] (catalog : Catalog String α ι) specs report,
    ((p.after before).process catalog specs takes).1 = .ok report →
      ∀ written, (((p.after before).processOn catalog specs keeps).run written).2 =
        written ++ [report.text]
  /-- Without workers it does not matter what was called before. -/
  alone : settings.parallel = 0 → ∀ {α ι : Type} [BEq ι] (catalog : Catalog String α ι) specs write,
    ((p.after before).process catalog specs write).1 = (p.process catalog specs write).1

/-- Whatever was called before, answers hang on the settings and on whether the pipeline was
closed. -/
theorem answers_after (hp : ofSettings settings = .ok p) (before : List Call) :
    AnswersAfter settings p before := by
  obtain ⟨fresh, hfresh, hstands⟩ := exists_stands hp
  obtain ⟨pool, hafter, stands⟩ := hstands.after p.criteria before
  rw [← hfresh] at hafter
  rw [false_or] at stands
  refine ⟨?closing, ?refused, ?granted, ?silent, ?written, ?alone⟩
  case closing =>
    rw [hafter]
    obtain ⟨-, -, -, hclose⟩ := stands.close p.criteria
    exact hclose
  case refused =>
    intro α ι _ catalog specs order resolves
    rw [hafter, process_eq_prepare]
    constructor
    · rintro ⟨reason, hfails⟩
      by_contra granted
      obtain ⟨report, _, hprepare, -⟩ := prepare_granted stands resolves granted
      rw [hprepare] at hfails
      cases hfails
    · intro refused
      rw [prepare_refused stands resolves refused]
      exact ⟨_, rfl⟩
  case granted =>
    intro α ι _ _ catalog specs order resolves bounded granted
    obtain ⟨report, _, hprepare, -, hrender⟩ := prepare_granted stands resolves granted
    refine ⟨_, report, ?_, hrender, ?_⟩
    · by_cases closure : settings.closure = true
      · rw [if_pos closure]
        exact findings_explored closure bounded
      · rw [if_neg closure]
        exact if_neg closure
    · rw [hafter, process_eq_prepare, hprepare]
      rfl
  case silent =>
    intro α ι _ catalog specs cause hfails
    have hprepare := prepare_of_error hfails
    refine ⟨fun written => ?_, fun write => ?_⟩
    · rw [processOn_of_error hprepare]
      rfl
    · rw [process_eq_prepare, hprepare]
      rfl
  case written =>
    intro α ι _ catalog specs report hreport written
    rw [processOn_of_ok hreport]
  case alone =>
    intro alone α ι _ catalog specs write
    have hsame : pool = fresh := (stands.alone alone).trans (hstands.alone alone).symm
    rw [hafter, hsame, ← hfresh]

/-- Two workers; all that the roots lead to is shown. -/
def crew : Settings := ⟨true, 2, [], .table, defaultSymbol⟩

def shift : List Call := [.process timetable ["a"] takes, .close]

theorem crew_answers :
    ∃ p, ofSettings crew = .ok p ∧
      AnswersAfter crew p shift ∧
      (∃ report, (p.process timetable ["a"] takes).1 = .ok report ∧ report.count = 5) ∧
      p.close.1 = true ∧
      (∃ reason, ((p.after shift).process timetable ["a"] takes).1 =
        .error (.failure (.pool reason))) ∧
      (((p.after shift).process timetable [] takes).1 = .ok ⟨emptyText, 0⟩) ∧
      (p.after shift).close.1 = false := by
  have hp : ofSettings crew = .ok ⟨crew, [], some ⟨2, .idle⟩⟩ := by rfl
  have hanswers := answers_after hp shift
  have resolves : resolveCriteria [] timetable.orders (timetable.headers .table) = .ok ⟨[]⟩ := by
    rfl
  have hrefused : Refused crew (.close ∈ shift) (timetable.roots ["a"] crew.closure) :=
    ⟨rfl, by decide, by decide, List.mem_cons_of_mem _ List.mem_cons_self⟩
  refine ⟨_, hp, hanswers, ⟨_, rfl, by decide +kernel⟩, rfl, ?_, by decide +kernel, rfl⟩
  exact (hanswers.refused timetable ["a"] _ resolves).2 hrefused

end Pipeline

end Hierarchy
