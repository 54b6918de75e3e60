import Hierarchy.Element
import Hierarchy.Text.Blank
import Hierarchy.Text.Integer
import Hierarchy.Text.LowerCase
import Hierarchy.Text.Split

/-!
# Sort criteria

A criterion names a column, in any letter case, and sorts by its cells; a hyphen before the name
turns the order around.  The first criterion decides, later ones break ties.

`Criteria.resolve` looks the names up among the headers of an output.  What it gives
(`ColumnOrder`) compares rows of cells.
-/

namespace Hierarchy

/-! ## Orders of cells -/

abbrev CellOrder := String → String → Ordering

/-- By code points. -/
def textOrder : CellOrder := fun a b => Ord.compare a b

/-- Integers of 64 bits by value, and before everything else; the rest by code points.  Blanks
around an integer do not count. -/
def numberOrder : CellOrder := fun a b =>
  match Text.readInt64? (Text.trim a.toList), Text.readInt64? (Text.trim b.toList) with
  | some x, some y => Ord.compare x y
  | some _, none => .lt
  | none, some _ => .gt
  | none, none => Ord.compare a b

/-! ## Criteria as they are written -/

structure Criterion where
  name : String
  descending : Bool
  deriving DecidableEq, Repr

namespace Criterion

def text (c : Criterion) : String := if c.descending then "-" ++ c.name else c.name

/-- Reads one criterion; only the first hyphen belongs to it and not to the name. -/
def parse (source : String) : Except RunError Criterion :=
  let (name, descending) := match Text.lower (Text.trim source.toList) with
    | '-' :: name => (name, true)
    | name => (name, false)
  if name.isEmpty then .error (.unknownColumns [""]) else .ok ⟨String.ofList name, descending⟩

end Criterion

/-- The criteria in an item: its parts between commas, blank parts left out. -/
def criteriaParts (item : String) : List String :=
  (Text.parts ',' item).filter fun part => !(Text.trim part.toList).isEmpty

/-- Reads criteria; every item may hold several. -/
def parseCriteria (items : List String) : Except RunError (List Criterion) :=
  (items.flatMap criteriaParts).mapM Criterion.parse

/-! ## Criteria for the columns of an output -/

/-- One column to sort by. -/
structure ColumnKey where
  index : Nat
  descending : Bool
  order : CellOrder

/-- Columns to sort by, the most important first. -/
structure ColumnOrder where
  keys : List ColumnKey

namespace ColumnKey

/-- The cell of a row in this column; a row too short has an empty one. -/
def cell (k : ColumnKey) (row : List String) : String := row[k.index]?.getD ""

def compare (k : ColumnKey) (a b : List String) : Ordering :=
  let order := k.order (k.cell a) (k.cell b)
  if k.descending then order.swap else order

end ColumnKey

namespace ColumnOrder

def compare (o : ColumnOrder) (a b : List String) : Ordering :=
  o.keys.foldr (fun k order => (k.compare a b).then order) .eq

/-- Sorts by the cells that `cells` gives and keeps the order of equals. -/
def sort {β : Type} (o : ColumnOrder) (cells : β → List String) (xs : List β) : List β :=
  if o.keys.isEmpty then xs
  else ((xs.map fun x => (cells x, x)).mergeSort fun a b => (o.compare a.1 b.1).isLE).map (·.2)

end ColumnOrder

/-- The name by which criteria know a column: its header in small letters, without the hyphens
before it. -/
def columnName (header : String) : String :=
  Text.lowerCase (String.ofList (header.toList.dropWhile (· == '-')))

/-- The order registered for a column, the last one if there are several. -/
def orderFor (orders : List (String × CellOrder)) (name : String) : CellOrder :=
  ((orders.reverse.find? fun o => Text.lowerCase o.1 == name).map (·.2)).getD textOrder

/-- Looks the criteria up among the headers.  All names without a column are reported at once. -/
def resolveCriteria (criteria : List Criterion) (orders : List (String × CellOrder))
    (headers : List String) : Except RunError ColumnOrder :=
  let names := headers.map columnName
  let unknown := (criteria.filter fun c => !names.contains c.name).map (·.name)
  if unknown.isEmpty then
    .ok ⟨criteria.map fun c => ⟨names.idxOf c.name, c.descending, orderFor orders c.name⟩⟩
  else .error (.unknownColumns (unknown.mergeSort fun a b => (Ord.compare a b).isLE))

end Hierarchy
