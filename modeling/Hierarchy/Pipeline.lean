import Hierarchy.Criteria
import Hierarchy.Exploration.Concurrent
import Hierarchy.Exploration.Pool
import Hierarchy.Output.Manifest
import Hierarchy.Ranking
import Hierarchy.Settings
import Hierarchy.Tree.Synthesis

/-!
# From roots to text

A catalog is a source that also resolves what a user names and says how its elements are shown.
`Pipeline.process` resolves the criteria, explores the roots, sorts, and renders; in tree mode the
sorted list is brought back into the order of its hierarchy and drawn.

Criteria that name no column are refused before anything is explored.
-/

namespace Hierarchy

structure Catalog (K α ι : Type) extends Source K α ι where
  /-- The elements that a user names; the flag says that they will be explored. -/
  roots : List String → Bool → List (Element K α)
  /-- Columns that are not sorted as text. -/
  orders : List (String × CellOrder)
  headers : OutputMode → List String
  cells : OutputMode → Element K α → List String
  manifest : Element K α → Document

/-- What a run wrote, and how many rows or items that was. -/
structure Report where
  text : String
  count : Nat
  deriving DecidableEq, Repr

/-- Takes a text and may refuse it, with the system's reason. -/
abbrev Writer := String → Except String Unit

/-- The headers of a drawn tree: connectors have none. -/
def treeHeaders (headers : List String) : List String := "" :: headers

/-- The cells of a drawn tree.  A placeholder shows its key beside the connectors and nothing
else. -/
def treeCells {α : Type} (headers : List String) (cells : Element String α → List String)
    (rows : List (Row String α)) : List (List String) :=
  rows.map fun row =>
    match row.content with
    | .element e | .created e => row.graph :: cells e
    | .placeholder p =>
      (row.graph ++ " " ++ p.position.key) :: List.replicate headers.length ""

structure Pipeline where
  settings : Settings
  criteria : List Criterion
  pool : Option Pool

namespace Pipeline

def ofSettings (settings : Settings) : Except RunError Pipeline := do
  let criteria ← parseCriteria settings.sort
  let pool := if settings.parallel > 0 then some (Pool.ofSize settings.parallel) else none
  return ⟨settings, criteria, pool⟩

variable {α ι : Type} [BEq ι]

/-- Explores the roots one after the other, by workers if there is a pool. -/
def explore (pool : Option Pool) (revisits : Revisits) (source : Source String α ι) :
    List (Element String α) → Except RunError (List (Element String α)) × Option Pool
  | [] => (.ok [], pool)
  | root :: roots =>
    match pool with
    | none =>
      let (rest, pool) := explore none revisits source roots
      (rest.map (source.explore revisits defaultLimit root ++ ·), pool)
    | some workers =>
      match workers.start with
      | (.error cause, workers) => (.error (.failure cause), some workers)
      | (.ok _, workers) =>
        let (rest, pool) := explore (some workers) revisits source roots
        (rest.map (source.exploreConcurrently revisits root ++ ·), pool)

/-- Renders elements that are sorted by the criteria. -/
def render (settings : Settings) (catalog : Catalog String α ι)
    (elements : List (Element String α)) : Except RunError Report :=
  let mode := settings.output
  match mode with
  | .tree =>
    let rows := (Synthesizer.withSymbol settings.nodeSymbol).rows (sortHierarchy elements)
    let data := treeCells (catalog.headers .tree) (catalog.cells .tree) rows
    .ok ⟨formatTable (treeHeaders (catalog.headers .tree)) data, data.length⟩
  | .table | .wide =>
    let data := elements.map (catalog.cells mode)
    .ok ⟨formatTable (catalog.headers mode) data, data.length⟩
  | .json | .yaml =>
    let items := elements.map catalog.manifest
    (formatManifests mode items).map fun text => ⟨text, items.length⟩

/-- One run: what it reports, and the pipeline afterwards. -/
def process (p : Pipeline) (catalog : Catalog String α ι) (specs : List String) (write : Writer) :
    Except RunError Report × Pipeline :=
  let mode := p.settings.output.columnMode
  match resolveCriteria p.criteria catalog.orders (catalog.headers mode) with
  | .error e => (.error e, p)
  | .ok order =>
    let roots := catalog.roots specs p.settings.closure
    let (found, pool) :=
      if p.settings.closure then
        explore p.pool p.settings.output.revisits catalog.toSource roots
      else (.ok roots, p.pool)
    let result := do
      let elements ← found
      let report ← render p.settings catalog (order.sort (catalog.cells mode) elements)
      match write report.text with
      | .ok () => return report
      | .error cause => throw (.operation "write output" cause)
    (result, { p with pool })

/-- Closes the pool; false if there is none or it was closed before. -/
def close (p : Pipeline) : Bool × Pipeline :=
  match p.pool with
  | none => (false, p)
  | some pool => let (first, pool) := pool.close; (first, { p with pool := some pool })

end Pipeline

end Hierarchy
