import Hierarchy.Pipeline
import Hierarchy.Proofs.Exploration.Placement
import Hierarchy.Proofs.Ranking.SortedTree
import Hierarchy.Proofs.Tree.Connectors

/-!
# Runs that draw a tree

A run that explores all that its roots lead to passes it through four stages, and each relies on
what the one before came to.  The exploration of an orderly catalog (`Catalog.Orderly`) finds every
parent of what it finds, and nothing twice at one path (`Catalog.Orderly.parentsListed`,
`Catalog.Orderly.paths_nodup`).  The criteria mix up the hierarchy but lose nothing, so the second
sort makes a tree of it that has its siblings in their order, and a tree is drawn without gaps
(`Pipeline.process_tree`).
-/

namespace Hierarchy

variable {α ι : Type}

/-! ## What the roots lead to -/

namespace Catalog

variable (catalog : Catalog String α ι) (specs : List String)

/-- All that is found below the roots that a user names, with markers. -/
def found [BEq ι] : List (Element String α) :=
  (catalog.roots specs true).flatMap (catalog.toSource.explore .marked defaultLimit)

/-- The roots that a user names stand at the top under different keys, all below them is finite
and put in its place under different keys, and shown; and columns have consistent orders. -/
structure Orderly : Prop where
  top : ∀ root ∈ catalog.roots specs true, root.ancestors = []
  keys : ((catalog.roots specs true).map Element.key).Nodup
  bounded : ∀ root ∈ catalog.roots specs true, catalog.toSource.Bounded root
  placed : ∀ root ∈ catalog.roots specs true, catalog.toSource.Placed root
  differ : ∀ root ∈ catalog.roots specs true, catalog.toSource.SiblingsDiffer root
  shown : ∀ root ∈ catalog.roots specs true, catalog.toSource.Shown root
  orders : ∀ o ∈ catalog.orders, Std.TransCmp o.2

variable {catalog specs} [BEq ι] [LawfulBEq ι] (orderly : catalog.Orderly specs)

include orderly

theorem Orderly.parentsListed : ParentsListed (catalog.found specs) :=
  ParentsListed.flatMap fun root hroot => Source.explore_parentsListed (orderly.bounded root hroot)
    defaultLimit (orderly.placed root hroot) (orderly.top root hroot)

theorem Orderly.paths_nodup : ((catalog.found specs).map Element.path).Nodup :=
  Source.roots_paths_nodup defaultLimit orderly.bounded orderly.placed orderly.differ
    (apart_roots orderly.top orderly.keys)

theorem Orderly.found_shown : ∀ e ∈ catalog.found specs, e.shown = true := by
  intro e he
  obtain ⟨root, hroot, he⟩ := List.mem_flatMap.1 he
  exact Source.explore_shown (orderly.bounded root hroot) defaultLimit (orderly.shown root hroot)
    e he

/-- However what was found is mixed up, in hierarchy order it is a tree. -/
theorem Orderly.isTree {sorted : List (Element String α)} (order : InHierarchyOrder sorted)
    (perm : sorted.Perm (catalog.found specs)) : IsTree sorted where
  order := order
  closed := orderly.parentsListed.closed.perm perm.symm
  distinct := (perm.map _).nodup_iff.2 orderly.paths_nodup
  branches x hx y hy := orderly.parentsListed.branches orderly.paths_nodup
    x (perm.mem_iff.1 hx) y (perm.mem_iff.1 hy)

end Catalog

/-! ## The stages of a run -/

/-- The outcome of a run whose report is given to a writer. -/
def delivered (write : Writer) (report : Report) : Except RunError Report :=
  match write report.text with
  | .ok () => .ok report
  | .error cause => .error (.operation "write output" cause)

/-- The text of a drawn tree. -/
def Catalog.treeText (catalog : Catalog String α ι) (rows : List (Row String α)) : String :=
  formatTable (treeHeaders (catalog.headers .tree))
    (treeCells (catalog.headers .tree) (catalog.cells .tree) rows)

namespace Pipeline

variable {settings : Settings} {p : Pipeline} {catalog : Catalog String α ι} {specs : List String}
  {order : ColumnOrder}

theorem explore_sequential [BEq ι] (revisits : Revisits) (source : Source String α ι)
    (roots : List (Element String α)) :
    explore none revisits source roots =
      (.ok (roots.flatMap (source.explore revisits defaultLimit)), none) := by
  induction roots with
  | nil => rfl
  | cons root roots ih =>
    unfold explore
    rw [ih]
    rfl

theorem eq_of_ofSettings (h : ofSettings settings = .ok p) (sequential : settings.parallel = 0) :
    p = ⟨settings, p.criteria, none⟩ := by
  unfold ofSettings at h
  rw [sequential] at h
  cases hcriteria : parseCriteria settings.sort with
  | error e =>
    rw [hcriteria] at h
    cases h
  | ok criteria =>
    rw [hcriteria] at h
    obtain rfl := Except.ok.inj h
    rfl

theorem render_tree (tree : settings.output = .tree) {elements : List (Element String α)}
    {rows : List (Row String α)}
    (hrows : (Synthesizer.withSymbol settings.nodeSymbol).rows (sortHierarchy elements) = rows) :
    render settings catalog elements = .ok ⟨catalog.treeText rows, rows.length⟩ := by
  have hlength : (treeCells (catalog.headers .tree) (catalog.cells .tree) rows).length =
      rows.length := List.length_map _
  unfold render
  rw [tree, hrows]
  dsimp only
  rw [hlength]
  rfl

/-- What a sequential run draws. -/
theorem process_eq [BEq ι] (hp : ofSettings settings = .ok p) (closure : settings.closure = true)
    (sequential : settings.parallel = 0) (tree : settings.output = .tree)
    (resolves : resolveCriteria p.criteria catalog.orders (catalog.headers .tree) = .ok order)
    (write : Writer) {rows : List (Row String α)}
    (hrows : (Synthesizer.withSymbol settings.nodeSymbol).rows
      (sortHierarchy (order.sort (catalog.cells .tree) (catalog.found specs))) = rows) :
    p.process catalog specs write =
      (delivered write ⟨catalog.treeText rows, rows.length⟩, p) := by
  have hexplored : explore none .marked catalog.toSource (catalog.roots specs true) =
      (.ok (catalog.found specs), none) := explore_sequential _ _ _
  rw [eq_of_ofSettings hp sequential] at resolves ⊢
  unfold process
  simp only [tree, closure, OutputMode.columnMode, OutputMode.isDocument, OutputMode.revisits,
    Bool.false_eq_true, if_false, if_true, resolves, hexplored]
  have hrendered : render settings catalog (order.sort (catalog.cells .tree)
      (catalog.found specs)) = .ok ⟨catalog.treeText rows, rows.length⟩ := render_tree tree hrows
  simp only [Except.bind, bind, hrendered]
  rfl

/-- A run that draws all its roots lead to draws the tree of it: one row for each element found and
none beside them, siblings in the order of the criteria, or as they were found if they tie.  It
reports how many elements were found, unless the writer fails. -/
theorem process_tree [BEq ι] [LawfulBEq ι] (hp : ofSettings settings = .ok p)
    (closure : settings.closure = true) (sequential : settings.parallel = 0)
    (tree : settings.output = .tree)
    (resolves : resolveCriteria p.criteria catalog.orders (catalog.headers .tree) = .ok order)
    (orderly : catalog.Orderly specs) (write : Writer) :
    ∃ sorted rows, IsSortedTree order (catalog.cells .tree) sorted (catalog.found specs) ∧
      (Synthesizer.withSymbol settings.nodeSymbol).rows sorted = rows ∧
      rows.map Row.content = sorted.map .element ∧
      p.process catalog specs write =
        (delivered write ⟨catalog.treeText rows, (catalog.found specs).length⟩, p) := by
  have consistent : order.Consistent := consistent_of_resolve orderly.orders resolves
  have sorted : IsSortedTree order (catalog.cells .tree)
      (sortHierarchy (order.sort (catalog.cells .tree) (catalog.found specs)))
      (catalog.found specs) :=
    sortHierarchy_sort_tree consistent orderly.parentsListed.closed orderly.paths_nodup
  have isTree := orderly.isTree sorted.toInHierarchyOrder sorted.perm
  have hcontent := Synthesizer.rows_content_of_tree (Synthesizer.withSymbol settings.nodeSymbol)
    isTree fun e he => orderly.found_shown e (sorted.perm.mem_iff.1 he)
  refine ⟨_, _, sorted, rfl, hcontent, ?_⟩
  rw [process_eq hp closure sequential tree resolves write rfl]
  have hlength := congrArg List.length hcontent
  rw [List.length_map, List.length_map, sorted.perm.length_eq] at hlength
  rw [hlength]

end Pipeline

/-! ## A run -/

/-- What is listed below a stop, with the time to get there. -/
def departures : String → Except Failure (List (String × String))
  | "a" => .ok [("b", "9"), ("c", "10")]
  | "c" => .ok [("a", "10"), ("d", "7")]
  | stop => .error (.listing stop "closed")

/-- From `a` one comes to `b`, and to `c` and back. -/
def timetable : Catalog String String String where
  id := Element.key
  children e := (departures e.key).map fun stops =>
    stops.map fun (stop, time) => .plain (e.position.child stop) .branch time
  marker e _ := .plain (e.position.child "...") .inserted ""
  onCycle := Element.repeatsKey
  bound := 2
  roots specs _ := specs.map fun stop => .plain ⟨[], stop⟩ .branch "0"
  orders := [("time", numberOrder)]
  headers _ := ["STOP", "TIME"]
  cells _ e := [e.key, e.item]
  manifest e := .text e.key

/-- Draws all that the roots lead to, the longest way first. -/
def longestFirst : Settings := ⟨true, 0, ["-time"], .tree, defaultSymbol⟩

theorem timetable_children {e : Element String String} {cs : List (Element String String)}
    (hcs : timetable.children e = .ok cs) :
    ∃ stops, departures e.key = .ok stops ∧
      cs = stops.map fun (stop, time) => .plain (e.position.child stop) .branch time := by
  unfold timetable at hcs
  dsimp only at hcs
  cases hstops : departures e.key with
  | error cause =>
    rw [hstops] at hcs
    cases hcs
  | ok stops =>
    rw [hstops] at hcs
    exact ⟨stops, rfl, (Except.ok.inj hcs).symm⟩

theorem timetable_orderly : timetable.Orderly ["a"] where
  top := List.forall_mem_singleton.2 rfl
  keys := List.nodup_singleton _
  bounded root _ := by
    refine ⟨["a", "c"], Nat.le_refl 2, fun e cs _ _ hcs => ?_⟩
    obtain ⟨stops, hstops, -⟩ := timetable_children hcs
    change e.key ∈ ["a", "c"]
    unfold departures at hstops
    split at hstops
    · simp [*]
    · simp [*]
    · cases hstops
  placed root _ := by
    refine ⟨fun e cs _ _ hcs c hc => ?_, fun e reason _ _ => rfl⟩
    obtain ⟨stops, -, rfl⟩ := timetable_children hcs
    obtain ⟨stop, -, rfl⟩ := List.mem_map.1 hc
    rfl
  differ root _ := by
    intro e cs _ _ hcs
    obtain ⟨stops, hstops, rfl⟩ := timetable_children hcs
    unfold departures at hstops
    split at hstops
    · cases hstops
      simp [Element.plain, Element.key, Position.child]
    · cases hstops
      simp [Element.plain, Element.key, Position.child]
    · cases hstops
  shown := List.forall_mem_singleton.2 <| by
    refine ⟨fun e he => ?_, fun e reason _ _ => rfl⟩
    cases he with
    | root => rfl
    | child _ _ hcs hc =>
      obtain ⟨stops, -, rfl⟩ := timetable_children hcs
      obtain ⟨stop, -, rfl⟩ := List.mem_map.1 hc
      rfl
  orders := List.forall_mem_singleton.2 inferInstance

theorem timetable_drawn :
    ∃ p order,
      Pipeline.ofSettings longestFirst = .ok p ∧
      resolveCriteria p.criteria timetable.orders (timetable.headers .tree) = .ok order ∧
      timetable.Orderly ["a"] ∧
      (∃ sorted rows,
        IsSortedTree order (timetable.cells .tree) sorted (timetable.found ["a"]) ∧
        (Synthesizer.withSymbol longestFirst.nodeSymbol).rows sorted = rows ∧
        rows.map Row.content = sorted.map .element ∧
        p.process timetable ["a"] (fun _ => .ok ()) =
          (delivered (fun _ => .ok ())
            ⟨timetable.treeText rows, (timetable.found ["a"]).length⟩, p)) ∧
      (timetable.found ["a"]).map Element.key = ["a", "b", "c", "a", "...", "d"] := by
  have hp : Pipeline.ofSettings longestFirst =
      .ok ⟨longestFirst, [⟨"time", true⟩], none⟩ := by rfl
  have resolves : resolveCriteria [⟨"time", true⟩] timetable.orders (timetable.headers .tree) =
      .ok ⟨[⟨1, true, numberOrder⟩]⟩ := by rfl
  refine ⟨_, _, hp, resolves, timetable_orderly, ?_, by decide +kernel⟩
  exact Pipeline.process_tree hp rfl rfl rfl resolves timetable_orderly _

end Hierarchy
